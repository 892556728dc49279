import ServiceRegistry.Text.Cut

/-! # Punycode

A text with characters beyond ASCII is written in letters, digits and hyphens: first its ASCII
characters and a hyphen, then numbers that say which characters are inserted and where. A number has
digits to the base 36, the lowest first; a digit below its threshold ends the number. The thresholds
follow the sizes of the numbers read so far. -/

namespace ServiceRegistry.Text.Punycode

/-- No number may exceed 32 bits. -/
def limit : Nat := 4294967295

/-- The value of a digit of either case. -/
def digit? (c : Char) : Option Nat :=
  if 'a' ≤ c ∧ c ≤ 'z' then some (c.toNat - 'a'.toNat)
  else if 'A' ≤ c ∧ c ≤ 'Z' then some (c.toNat - 'A'.toNat)
  else if '0' ≤ c ∧ c ≤ '9' then some (c.toNat - '0'.toNat + 26)
  else none

/-- The threshold of the digit at a place: 1 up to the bias, then rising to 26. -/
def threshold (bias place : Nat) : Nat :=
  if place ≤ bias then 1 else if bias + 26 ≤ place then 26 else place - bias

/-- Read one number and add it to `sum`; `place` counts in steps of 36. -/
def readNumber (bias : Nat) (place weight sum : Nat) : List Char → Option (Nat × List Char)
  | [] => none
  | c :: rest =>
    match digit? c with
    | none => none
    | some d =>
      let sum := sum + d * weight
      let t := threshold bias place
      let weight := weight * (36 - t)
      if limit < sum then none
      else if d < t then some (sum, rest)
      else if limit < weight then none
      else readNumber bias (place + 36) weight sum rest

theorem length_lt_of_readNumber {bias place weight sum n : Nat} {cs rest : List Char}
    (h : readNumber bias place weight sum cs = some (n, rest)) : rest.length < cs.length := by
  induction cs generalizing place weight sum with
  | nil => simp [readNumber] at h
  | cons c cs ih =>
    unfold readNumber at h
    split at h
    · simp at h
    · simp only at h
      split at h
      · simp at h
      · split at h
        · simp only [Option.some.injEq, Prod.mk.injEq] at h
          simp [h.2]
        · split at h
          · simp at h
          · have := ih h
            simp only [List.length_cons]
            omega

/-- Scale a number down until it is at most 455, and count the steps by 36. -/
def scale (n : Nat) : Nat × Nat :=
  if 455 < n then
    let (m, steps) := scale (n / 35)
    (m, steps + 36)
  else (n, 0)
termination_by n
decreasing_by omega

/-- The bias after a number that was read when the text had `size` characters with the inserted one;
the first number counts for less. -/
def adapt (number size : Nat) (isFirst : Bool) : Nat :=
  let n := number / (if isFirst then 700 else 2)
  let (m, steps) := scale (n + n / size)
  steps + 36 * m / (m + 38)

/-- Insert the characters that the numbers stand for. A number counts places at which characters may
be inserted, from `start` on and for the character of code `code`; past the last place it goes on at
the first one with the next code. -/
def insertAll (bias code start : Nat) (text : List Char) (cs : List Char) : Option (List Char) :=
  match cs with
  | [] => some text
  | c :: rest =>
    match h : readNumber bias 36 1 start (c :: rest) with
    | none => none
    | some (n, rest') =>
      have := length_lt_of_readNumber h
      let size := text.length + 1
      let code := code + n / size
      let place := n % size
      if code.isValidChar then
        insertAll (adapt (n - start) size (start == 0)) code (place + 1)
          (text.take place ++ Char.ofNat code :: text.drop place) rest'
      else none
termination_by cs.length
decreasing_by assumption

/-- The text that is written in punycode. -/
def decode? (cs : List Char) : Option (List Char) :=
  match cutLast '-' cs with
  | none => insertAll 72 128 0 [] cs
  | some ([], _) => none
  | some (plain, rest) => insertAll 72 128 0 plain rest

end ServiceRegistry.Text.Punycode
