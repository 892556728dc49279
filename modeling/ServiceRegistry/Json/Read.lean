import ServiceRegistry.Text.Bytes
import ServiceRegistry.Decimal

/-! # JSON, read byte by byte

The readers of this module take the bytes that are left and give what stands at their front together
with the bytes after it. The first problem in the order of the bytes decides, and there are two
kinds of them (`Fault`): the bytes end too early, or a byte can not stand where it stands.

A string that is kept must be UTF-8 and its surrogates must be paired (`readString`). In a value
that is passed over (`skipValue`) strings are only checked for escapes and control characters,
numbers only for their grammar, and nesting has no limit. -/

namespace ServiceRegistry.Json

/-- Why bytes are no JSON. -/
inductive Fault where
  /-- The bytes end too early. -/
  | ended
  /-- A byte can not stand where it stands. -/
  | malformed
deriving DecidableEq, Repr

/-! ### Blanks and words -/

/-- Space, tab, newline and carriage return. -/
def isBlank (b : UInt8) : Bool := b == 0x20 || b == 0x09 || b == 0x0a || b == 0x0d

/-- The bytes after leading blanks. -/
def skipBlanks (bs : Bytes) : Bytes := bs.dropWhile isBlank

theorem length_skipBlanks_le (bs : Bytes) : (skipBlanks bs).length ≤ bs.length :=
  (List.dropWhile_sublist _).length_le

/-- Pass over the given bytes. -/
def expect : Bytes → Bytes → Except Fault Bytes
  | [], bs => .ok bs
  | _ :: _, [] => .error .ended
  | w :: ws, b :: bs => if b = w then expect ws bs else .error .malformed

theorem length_le_of_expect {ws bs rest : Bytes} (h : expect ws bs = .ok rest) :
    rest.length ≤ bs.length := by
  induction ws generalizing bs with
  | nil => simp only [expect, Except.ok.injEq] at h; simp [h]
  | cons w ws ih =>
    cases bs with
    | nil => simp [expect] at h
    | cons b bs =>
      simp only [expect] at h
      split at h
      · have := ih h
        simp only [List.length_cons]
        omega
      · simp at h

/-- What follows the first letter of `null`. -/
def ull : Bytes := [0x75, 0x6c, 0x6c]
/-- What follows the first letter of `true`. -/
def rue : Bytes := [0x72, 0x75, 0x65]
/-- What follows the first letter of `false`. -/
def alse : Bytes := [0x61, 0x6c, 0x73, 0x65]

/-! ### Strings -/

/-- The value of four hexadecimal digits. -/
def hexCode : Bytes → Except Fault (Nat × Bytes)
  | a :: b :: c :: d :: rest =>
    match [a, b, c, d].mapM fun x => Bytes.hexValue? (Char.ofNat x.toNat) with
    | some ds => .ok (ds.foldl (fun n d => n * 16 + d.val) 0, rest)
    | none => .error .malformed
  | _ => .error .ended

theorem length_lt_of_hexCode {bs rest : Bytes} {n : Nat} (h : hexCode bs = .ok (n, rest)) :
    rest.length < bs.length := by
  unfold hexCode at h
  split at h
  · split at h
    · simp only [Except.ok.injEq, Prod.mk.injEq] at h
      simp only [← h.2, List.length_cons]
      omega
    · simp at h
  · simp at h

/-- The character of a one-letter escape. -/
def letterEscape? (b : UInt8) : Option Char :=
  if b = 0x22 then some '"'
  else if b = 0x5c then some '\\'
  else if b = 0x2f then some '/'
  else if b = 0x62 then some '\x08'
  else if b = 0x66 then some '\x0c'
  else if b = 0x6e then some '\n'
  else if b = 0x72 then some '\r'
  else if b = 0x74 then some '\t'
  else none

/-- Is this the code of the second half of a surrogate pair? -/
def isLow (n : Nat) : Bool := 0xdc00 ≤ n && n ≤ 0xdfff

/-- Is this the code of the first half of a surrogate pair? -/
def isHigh (n : Nat) : Bool := 0xd800 ≤ n && n ≤ 0xdbff

/-- The character of the four digits after a backslash and a `u`, and of the second escape that the
first half of a surrogate pair asks for. -/
def codeEscape (bs : Bytes) : Except Fault (Char × Bytes) := do
  let (n, rest) ← hexCode bs
  if isLow n then .error .malformed
  else if isHigh n then
    match rest with
    | [] => .error .ended
    | [0x5c] => .error .ended
    | 0x5c :: 0x75 :: rest =>
      let (m, rest) ← hexCode rest
      if isLow m then .ok (.ofNat (0x10000 + (n - 0xd800) * 0x400 + (m - 0xdc00)), rest)
      else .error .malformed
    | _ => .error .malformed
  else .ok (.ofNat n, rest)

/-- The character that the bytes after a backslash stand for. -/
def escape : Bytes → Except Fault (Char × Bytes)
  | [] => .error .ended
  | b :: rest =>
    match letterEscape? b with
    | some c => .ok (c, rest)
    | none => if b = 0x75 then codeEscape rest else .error .malformed

theorem length_lt_of_codeEscape {bs rest : Bytes} {c : Char}
    (h : codeEscape bs = .ok (c, rest)) : rest.length < bs.length := by
  unfold codeEscape at h
  cases hx : hexCode bs with
  | error e => simp [hx, bind, Except.bind] at h
  | ok p =>
    obtain ⟨n, r⟩ := p
    have hr := length_lt_of_hexCode hx
    simp only [hx, bind, Except.bind] at h
    split at h
    · simp at h
    · split at h
      · split at h
        · simp at h
        · simp at h
        · next r' =>
          cases hy : hexCode r' with
          | error e => simp [hy] at h
          | ok q =>
            obtain ⟨m, r''⟩ := q
            have hr' := length_lt_of_hexCode hy
            simp only [hy] at h
            split at h
            · simp only [Except.ok.injEq, Prod.mk.injEq] at h
              simp only [List.length_cons] at hr
              rw [← h.2]
              omega
            · simp at h
        · simp at h
      · simp only [Except.ok.injEq, Prod.mk.injEq] at h
        rw [← h.2]
        exact hr

theorem length_lt_of_escape {bs rest : Bytes} {c : Char} (h : escape bs = .ok (c, rest)) :
    rest.length < bs.length := by
  unfold escape at h
  split at h
  · simp at h
  · split at h
    · simp only [Except.ok.injEq, Prod.mk.injEq] at h
      simp [h.2]
    · split at h
      · have := length_lt_of_codeEscape h
        simp only [List.length_cons]
        omega
      · simp at h

/-- The bytes of a string after its opening quote, with the escapes replaced. -/
def stringBytes : Bytes → Except Fault (Bytes × Bytes)
  | [] => .error .ended
  | b :: bs =>
    if b = 0x22 then .ok ([], bs)
    else if b = 0x5c then
      match h : escape bs with
      | .error e => .error e
      | .ok (c, rest) =>
        have := length_lt_of_escape h
        match stringBytes rest with
        | .error e => .error e
        | .ok (text, rest) => .ok (String.utf8EncodeChar c ++ text, rest)
    else if b < 0x20 then .error .malformed
    else
      match stringBytes bs with
      | .error e => .error e
      | .ok (text, rest) => .ok (b :: text, rest)
termination_by bs => bs.length
decreasing_by all_goals simp only [List.length_cons]; omega

theorem length_lt_of_stringBytes {bs rest text : Bytes} (h : stringBytes bs = .ok (text, rest)) :
    rest.length < bs.length := by
  fun_induction stringBytes bs generalizing text rest with
  | case1 => simp at h
  | case2 =>
    simp only [Except.ok.injEq, Prod.mk.injEq] at h
    simp [h.2]
  | case3 => simp at h
  | case4 => simp at h
  | case5 bs c r he _ t r' hs _ ih =>
    simp only [Except.ok.injEq, Prod.mk.injEq] at h
    have h₁ := length_lt_of_escape he
    have h₂ := ih hs
    rw [← h.2]
    simp only [List.length_cons]
    omega
  | case6 => simp at h
  | case7 => simp at h
  | case8 b bs _ _ _ t r hs ih =>
    simp only [Except.ok.injEq, Prod.mk.injEq] at h
    have h₂ := ih hs
    rw [← h.2]
    simp only [List.length_cons]
    omega

/-- A string that is kept, after its opening quote. -/
def readString (bs : Bytes) : Except Fault (String × Bytes) :=
  match stringBytes bs with
  | .error e => .error e
  | .ok (text, rest) =>
    match text.text? with
    | some s => .ok (s, rest)
    | none => .error .malformed

theorem length_lt_of_readString {bs rest : Bytes} {s : String}
    (h : readString bs = .ok (s, rest)) : rest.length < bs.length := by
  unfold readString at h
  split at h
  · simp at h
  · next hs =>
    split at h
    · simp only [Except.ok.injEq, Prod.mk.injEq] at h
      rw [← h.2]
      exact length_lt_of_stringBytes hs
    · simp at h

/-- Pass over the escape after a backslash. -/
def skipEscape : Bytes → Except Fault Bytes
  | [] => .error .ended
  | b :: rest =>
    if (letterEscape? b).isSome then .ok rest
    else if b = 0x75 then (hexCode rest).map (·.2)
    else .error .malformed

theorem length_lt_of_skipEscape {bs rest : Bytes} (h : skipEscape bs = .ok rest) :
    rest.length < bs.length := by
  unfold skipEscape at h
  split at h
  · simp at h
  · split at h
    · simp only [Except.ok.injEq] at h
      simp [h]
    · split at h
      · next r _ _ =>
        cases hx : hexCode r with
        | error e => simp [hx, Except.map] at h
        | ok p =>
          have := length_lt_of_hexCode hx
          simp only [hx, Except.map, Except.ok.injEq] at h
          simp only [← h, List.length_cons]
          omega
      · simp at h

/-- Pass over a string after its opening quote. -/
def skipString : Bytes → Except Fault Bytes
  | [] => .error .ended
  | b :: bs =>
    if b = 0x22 then .ok bs
    else if b = 0x5c then
      match h : skipEscape bs with
      | .error e => .error e
      | .ok rest =>
        have := length_lt_of_skipEscape h
        skipString rest
    else if b < 0x20 then .error .malformed
    else skipString bs
termination_by bs => bs.length
decreasing_by all_goals simp only [List.length_cons]; omega

theorem length_lt_of_skipString {bs rest : Bytes} (h : skipString bs = .ok rest) :
    rest.length < bs.length := by
  fun_induction skipString bs with
  | case1 => simp at h
  | case2 => simp only [Except.ok.injEq] at h; simp [h]
  | case3 => simp at h
  | case4 bs r hr _ _ ih =>
    have h₁ := length_lt_of_skipEscape hr
    have h₂ := ih h
    simp only [List.length_cons]
    omega
  | case5 => simp at h
  | case6 b bs _ _ _ ih =>
    have := ih h
    simp only [List.length_cons]
    omega

/-! ### Numbers -/

/-- The value of a decimal digit. -/
def digit? (b : UInt8) : Option Nat :=
  if 0x30 ≤ b && b ≤ 0x39 then some (b.toNat - 0x30) else none

/-- The leading digits: their value after `acc`, how many they are, and the bytes after them. -/
def digits (acc : Nat) : Bytes → Nat × Nat × Bytes
  | [] => (acc, 0, [])
  | b :: bs =>
    match digit? b with
    | none => (acc, 0, b :: bs)
    | some d =>
      let more := digits (acc * 10 + d) bs
      (more.1, more.2.1 + 1, more.2.2)

theorem length_digits_le (acc : Nat) (bs : Bytes) : (digits acc bs).2.2.length ≤ bs.length := by
  induction bs generalizing acc with
  | nil => simp [digits]
  | cons b bs ih =>
    unfold digits
    split
    · simp
    · next d _ =>
      have := ih (acc * 10 + d)
      simp only [List.length_cons]
      omega

/-- The significand of a number has to fit in 64 bits. -/
def significandLimit : Nat := 18446744073709551616

/-- Add leading digits to a significand as far as it has room: the significand, and how many digits
were added. The first digit that does not fit and all after it are left out. -/
def significand (acc : Nat) : Bytes → Nat × Nat
  | [] => (acc, 0)
  | b :: bs =>
    match digit? b with
    | none => (acc, 0)
    | some d =>
      if acc * 10 + d < significandLimit then
        let more := significand (acc * 10 + d) bs
        (more.1, more.2 + 1)
      else (acc, 0)

/-- The exponent of a number, if it has one. Where a digit is missing the bytes there are given. -/
def scanExponent (d : Decimal) : Bytes → Except Bytes (Decimal × Bytes)
  | [] => .ok (d, [])
  | b :: bs =>
    if b = 0x65 || b = 0x45 then
      let (sign, bs) : Int × Bytes :=
        match bs with
        | [] => (1, [])
        | s :: rest =>
          if s = 0x2b then (1, rest) else if s = 0x2d then (-1, rest) else (1, s :: rest)
      match digits 0 bs with
      | (_, 0, rest) => .error rest
      | (e, _, rest) => .ok ({ d with exponent := d.exponent + sign * e }, rest)
    else .ok (d, b :: bs)

/-- The fraction and the exponent of a number, as far as it has them. -/
def scanFraction (d : Decimal) : Bytes → Except Bytes (Decimal × Bytes)
  | [] => .ok (d, [])
  | b :: bs =>
    if b = 0x2e then
      match digits 0 bs with
      | (_, 0, rest) => .error rest
      | (_, _, rest) =>
        let kept := significand d.digits bs
        scanExponent ⟨kept.1, d.exponent - kept.2⟩ rest
    else scanExponent d (b :: bs)

/-- A number without its sign: of its digits as many as its significand holds. Where a digit is
missing, or one stands after a leading zero, the bytes there are given. -/
def scanNumber : Bytes → Except Bytes (Decimal × Bytes)
  | [] => .error []
  | b :: bs =>
    match digit? b with
    | none => .error (b :: bs)
    | some 0 =>
      match bs with
      | [] => .ok (⟨0, 0⟩, [])
      | c :: cs => if (digit? c).isSome then .error (c :: cs) else scanFraction ⟨0, 0⟩ (c :: cs)
    | some d =>
      let more := digits d bs
      let kept := significand d bs
      scanFraction ⟨kept.1, more.2.1 - kept.2⟩ more.2.2

theorem length_le_of_scanExponent {d e : Decimal} {bs rest : Bytes}
    (h : scanExponent d bs = .ok (e, rest)) : rest.length ≤ bs.length := by
  unfold scanExponent at h
  split at h
  · simp only [Except.ok.injEq, Prod.mk.injEq] at h
    simp [← h.2]
  · next b bs =>
    split at h
    · split at h
      next sign r hsign =>
      have hr : r.length ≤ bs.length := by
        split at hsign
        · simp only [Prod.mk.injEq] at hsign; simp [← hsign.2]
        · split at hsign
          · simp only [Prod.mk.injEq] at hsign; simp [← hsign.2]
          · split at hsign <;> simp only [Prod.mk.injEq] at hsign <;> simp [← hsign.2]
      have hd := length_digits_le 0 r
      split at h
      · simp at h
      · next hdig =>
        simp only [Except.ok.injEq, Prod.mk.injEq] at h
        rw [hdig] at hd
        simp only [← h.2, List.length_cons]
        simp only at hd
        omega
    · simp only [Except.ok.injEq, Prod.mk.injEq] at h
      simp [← h.2]

theorem length_le_of_scanFraction {d e : Decimal} {bs rest : Bytes}
    (h : scanFraction d bs = .ok (e, rest)) : rest.length ≤ bs.length := by
  unfold scanFraction at h
  split at h
  · simp only [Except.ok.injEq, Prod.mk.injEq] at h
    simp [← h.2]
  · next b bs =>
    split at h
    · have hd := length_digits_le 0 bs
      split at h
      · simp at h
      · next hdig =>
        rw [hdig] at hd
        have := length_le_of_scanExponent h
        simp only [List.length_cons]
        simp only at hd
        omega
    · exact length_le_of_scanExponent h

theorem length_lt_of_scanNumber {e : Decimal} {bs rest : Bytes}
    (h : scanNumber bs = .ok (e, rest)) : rest.length < bs.length := by
  unfold scanNumber at h
  split at h
  · simp at h
  · next b bs =>
    split at h
    · simp at h
    · split at h
      · simp only [Except.ok.injEq, Prod.mk.injEq] at h
        simp [← h.2]
      · split at h
        · simp at h
        · have := length_le_of_scanFraction h
          simp only [List.length_cons] at *
          omega
    · next d _ _ =>
      have h₁ := length_digits_le d bs
      have h₂ := length_le_of_scanFraction h
      simp only [List.length_cons]
      omega

/-- Pass over a number without its sign. -/
def skipNumber (bs : Bytes) : Except Fault Bytes :=
  match scanNumber bs with
  | .error _ => .error .malformed
  | .ok (_, rest) => .ok rest

theorem length_lt_of_skipNumber {bs rest : Bytes} (h : skipNumber bs = .ok rest) :
    rest.length < bs.length := by
  unfold skipNumber at h
  split at h
  · simp at h
  · next hs =>
    simp only [Except.ok.injEq] at h
    rw [← h]
    exact length_lt_of_scanNumber hs

/-! ### Values that are passed over -/

/-- A list or an object whose end has not been seen yet. -/
inductive Frame where
  | list
  | object
deriving DecidableEq, Repr

/-- Pass over the key of a member and the colon after it. -/
def skipKey (bs : Bytes) : Except Fault Bytes :=
  match skipBlanks bs with
  | [] => .error .ended
  | b :: bs =>
    if b = 0x22 then
      match skipString bs with
      | .error e => .error e
      | .ok rest =>
        match skipBlanks rest with
        | [] => .error .ended
        | c :: rest => if c = 0x3a then .ok rest else .error .malformed
    else .error .malformed

theorem length_lt_of_skipKey {bs rest : Bytes} (h : skipKey bs = .ok rest) :
    rest.length < bs.length := by
  unfold skipKey at h
  have hb := length_skipBlanks_le bs
  split at h
  · simp at h
  · next b bs' hbs =>
    rw [hbs] at hb
    simp only [List.length_cons] at hb
    split at h
    · split at h
      · simp at h
      · next r hr =>
        have h₁ := length_lt_of_skipString hr
        have h₂ := length_skipBlanks_le r
        split at h
        · simp at h
        · next c r' hr' =>
          rw [hr'] at h₂
          simp only [List.length_cons] at h₂
          split at h
          · simp only [Except.ok.injEq] at h
            rw [← h]
            omega
          · simp at h
    · simp at h

mutual

/-- Pass over a value and the ends of the frames around it. -/
def skipValue (frames : List Frame) (bs : Bytes) : Except Fault Bytes :=
  match h : skipBlanks bs with
  | [] => .error .ended
  | b :: rest =>
    have hb : rest.length < bs.length := by
      have := length_skipBlanks_le bs
      rw [h] at this
      exact this
    if b = 0x6e then
      match hw : expect ull rest with
      | .error e => .error e
      | .ok rest' =>
        have := length_le_of_expect hw
        afterValue frames rest'
    else if b = 0x74 then
      match hw : expect rue rest with
      | .error e => .error e
      | .ok rest' =>
        have := length_le_of_expect hw
        afterValue frames rest'
    else if b = 0x66 then
      match hw : expect alse rest with
      | .error e => .error e
      | .ok rest' =>
        have := length_le_of_expect hw
        afterValue frames rest'
    else if b = 0x2d then
      match hw : skipNumber rest with
      | .error e => .error e
      | .ok rest' =>
        have := length_lt_of_skipNumber hw
        afterValue frames rest'
    else if (digit? b).isSome then
      match hw : skipNumber (b :: rest) with
      | .error e => .error e
      | .ok rest' =>
        have : rest'.length < rest.length + 1 := length_lt_of_skipNumber hw
        afterValue frames rest'
    else if b = 0x22 then
      match hw : skipString rest with
      | .error e => .error e
      | .ok rest' =>
        have := length_lt_of_skipString hw
        afterValue frames rest'
    else if b = 0x5b then
      match hw : skipBlanks rest with
      | [] => .error .ended
      | c :: rest' =>
        have : rest'.length < rest.length := by
          have := length_skipBlanks_le rest
          rw [hw] at this
          exact this
        if c = 0x5d then afterValue frames rest' else skipValue (.list :: frames) (c :: rest')
    else if b = 0x7b then
      match hw : skipBlanks rest with
      | [] => .error .ended
      | c :: rest' =>
        have : rest'.length < rest.length := by
          have := length_skipBlanks_le rest
          rw [hw] at this
          exact this
        if c = 0x7d then afterValue frames rest'
        else
          match hk : skipKey (c :: rest') with
          | .error e => .error e
          | .ok rest'' =>
            have : rest''.length < rest'.length + 1 := length_lt_of_skipKey hk
            skipValue (.object :: frames) rest''
    else .error .malformed
termination_by bs.length
decreasing_by all_goals (try simp only [List.length_cons]); omega

/-- Pass over what follows a value: the ends of the frames around it and further values in them. -/
def afterValue (frames : List Frame) (bs : Bytes) : Except Fault Bytes :=
  match frames with
  | [] => .ok bs
  | frame :: frames =>
    match h : skipBlanks bs with
    | [] => .error .ended
    | b :: rest =>
      have hb : rest.length < bs.length := by
        have := length_skipBlanks_le bs
        rw [h] at this
        exact this
      match frame with
      | .list =>
        if b = 0x2c then skipValue (.list :: frames) rest
        else if b = 0x5d then afterValue frames rest
        else .error .malformed
      | .object =>
        if b = 0x2c then
          match hk : skipKey rest with
          | .error e => .error e
          | .ok rest' =>
            have := length_lt_of_skipKey hk
            skipValue (.object :: frames) rest'
        else if b = 0x7d then afterValue frames rest
        else .error .malformed
termination_by bs.length
decreasing_by all_goals omega

end

end ServiceRegistry.Json
