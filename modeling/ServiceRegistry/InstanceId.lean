import ServiceRegistry.Text.Bytes

/-! # Identities of service instances

An instance is identified by 128 bits, held as 32 hexadecimal digits. The written form is lower case
with hyphens after the 8th, 12th, 16th and 20th digit; `parse?_text` says that it reads back. Three
more forms are read: 32 digits alone, and the hyphenated form in braces or after `urn:uuid:`. Either
case of a letter is read. Identities are ordered as the numbers that their digits write. -/

namespace ServiceRegistry

/-- The identity of one instance of a service: 32 hexadecimal digits. -/
structure InstanceId where
  /-- The digits, the most significant first. -/
  digits : List (Fin 16)
  length_digits : digits.length = 32
deriving DecidableEq

namespace InstanceId

/-- Thirty-two digits: those beyond are dropped, missing ones are zero. -/
def pad (ds : List (Fin 16)) : List (Fin 16) := (ds ++ List.replicate 32 (Bytes.nibble 0)).take 32

theorem length_pad (ds : List (Fin 16)) : (pad ds).length = 32 := by simp [pad]

/-- An identity from as many digits as it needs. -/
def ofDigits (ds : List (Fin 16)) : InstanceId := ⟨pad ds, length_pad ds⟩

/-- The identity that has all digits 0. -/
instance : Inhabited InstanceId := ⟨ofDigits []⟩

/-! ### Order -/

/-- The order of lists of digits: the first digit in which they differ decides. -/
def digitsLe : List (Fin 16) → List (Fin 16) → Bool
  | [], _ => true
  | _ :: _, [] => false
  | x :: xs, y :: ys => x.val < y.val || (x.val = y.val && digitsLe xs ys)

theorem digitsLe_total (xs ys : List (Fin 16)) : (digitsLe xs ys || digitsLe ys xs) = true := by
  induction xs generalizing ys with
  | nil => rfl
  | cons x xs ih =>
    cases ys with
    | nil => rfl
    | cons y ys =>
      have hrest := ih ys
      simp only [digitsLe, Bool.or_eq_true, Bool.and_eq_true, decide_eq_true_eq] at hrest ⊢
      rcases Nat.lt_trichotomy x.val y.val with h | h | h
      · exact Or.inl (Or.inl h)
      · rcases hrest with hrest | hrest
        · exact Or.inl (Or.inr ⟨h, hrest⟩)
        · exact Or.inr (Or.inr ⟨h.symm, hrest⟩)
      · exact Or.inr (Or.inl h)

theorem digitsLe_trans {xs ys zs : List (Fin 16)} (h₁ : digitsLe xs ys = true)
    (h₂ : digitsLe ys zs = true) : digitsLe xs zs = true := by
  induction xs generalizing ys zs with
  | nil => rfl
  | cons x xs ih =>
    cases ys with
    | nil => cases h₁
    | cons y ys =>
      cases zs with
      | nil => cases h₂
      | cons z zs =>
        simp only [digitsLe, Bool.or_eq_true, Bool.and_eq_true, decide_eq_true_eq] at h₁ h₂ ⊢
        rcases h₁ with h₁ | ⟨h₁, h₁'⟩
        · rcases h₂ with h₂ | ⟨h₂, _⟩ <;> exact Or.inl (by omega)
        · rcases h₂ with h₂ | ⟨h₂, h₂'⟩
          · exact Or.inl (by omega)
          · exact Or.inr ⟨by omega, ih h₁' h₂'⟩

theorem digitsLe_antisymm {xs ys : List (Fin 16)} (h₁ : digitsLe xs ys = true)
    (h₂ : digitsLe ys xs = true) : xs = ys := by
  induction xs generalizing ys with
  | nil =>
    cases ys with
    | nil => rfl
    | cons y ys => cases h₂
  | cons x xs ih =>
    cases ys with
    | nil => cases h₁
    | cons y ys =>
      simp only [digitsLe, Bool.or_eq_true, Bool.and_eq_true, decide_eq_true_eq] at h₁ h₂
      rcases h₁ with h₁ | ⟨h, h₁⟩
      · omega
      · rcases h₂ with h₂ | ⟨_, h₂⟩
        · omega
        · rw [Fin.ext h, ih h₁ h₂]

/-- The order by which instances stand on a ring. -/
def le (a b : InstanceId) : Bool := digitsLe a.digits b.digits

theorem le_total (a b : InstanceId) : (a.le b || b.le a) = true := digitsLe_total a.digits b.digits

theorem le_refl (a : InstanceId) : a.le a = true := by simpa using le_total a a

theorem le_trans {a b c : InstanceId} (h₁ : a.le b = true) (h₂ : b.le c = true) :
    a.le c = true :=
  digitsLe_trans h₁ h₂

theorem le_antisymm {a b : InstanceId} (h₁ : a.le b = true) (h₂ : b.le a = true) : a = b := by
  obtain ⟨a, ha⟩ := a
  obtain ⟨b, hb⟩ := b
  have : a = b := digitsLe_antisymm h₁ h₂
  subst this
  rfl

/-! ### Written form -/

/-- The hyphenated form of 32 digits. -/
def hyphenate (ds : List Char) : List Char :=
  ds.take 8 ++ '-' :: ((ds.drop 8).take 4 ++ '-' :: ((ds.drop 12).take 4 ++
    '-' :: ((ds.drop 16).take 4 ++ '-' :: ds.drop 20)))

/-- The 32 characters of a hyphenated form, if its hyphens are in place. -/
def unhyphenate? (cs : List Char) : Option (List Char) :=
  let part (from' len : Nat) := (cs.drop from').take len
  if cs.length = 36 ∧ part 8 1 = ['-'] ∧ part 13 1 = ['-'] ∧ part 18 1 = ['-'] ∧ part 23 1 = ['-']
  then some (part 0 8 ++ part 9 4 ++ part 14 4 ++ part 19 4 ++ part 24 12)
  else none

/-- The lower-case hyphenated form. -/
def text (id : InstanceId) : String := String.ofList (hyphenate (id.digits.map Bytes.hexDigit))

instance : ToString InstanceId := ⟨text⟩

/-! ### Reading -/

/-- Read 32 digits. -/
def ofHexDigits? (cs : List Char) : Option InstanceId := do
  let ds ← cs.mapM Bytes.hexValue?
  if h : ds.length = 32 then some ⟨ds, h⟩ else none

/-- Read any of the four forms. -/
def parse? (s : String) : Option InstanceId :=
  let cs := s.toList
  let urn := "urn:uuid:".toList
  if cs.length = 32 then ofHexDigits? cs
  else if cs.length = 36 then unhyphenate? cs >>= ofHexDigits?
  else if cs.length = 38 ∧ cs.head? = some '\x7b' ∧ cs.getLast? = some '\x7d' then
    unhyphenate? ((cs.drop 1).take 36) >>= ofHexDigits?
  else if cs.length = 45 ∧ (cs.take 9).map Char.toLower = urn then
    unhyphenate? (cs.drop 9) >>= ofHexDigits?
  else none

theorem ofHexDigits?_digits (id : InstanceId) :
    ofHexDigits? (id.digits.map Bytes.hexDigit) = some id := by
  have h : ∀ ds : List (Fin 16), (ds.map Bytes.hexDigit).mapM Bytes.hexValue? = some ds := by
    intro ds
    induction ds with
    | nil => rfl
    | cons d ds ih => simp [ih]
  simp [ofHexDigits?, h, id.length_digits]

/-- A hyphenated form loses nothing. -/
theorem unhyphenate?_hyphenate {ds : List Char} (h : ds.length = 32) :
    unhyphenate? (hyphenate ds) = some ds := by
  match ds, h with
  | [a₁, a₂, a₃, a₄, a₅, a₆, a₇, a₈, b₁, b₂, b₃, b₄, c₁, c₂, c₃, c₄, d₁, d₂, d₃, d₄,
      e₁, e₂, e₃, e₄, e₅, e₆, e₇, e₈, e₉, f₁, f₂, f₃], _ => rfl

/-- The written form reads back. -/
theorem parse?_text (id : InstanceId) : parse? id.text = some id := by
  have hlen : (id.digits.map Bytes.hexDigit).length = 32 := by simp [id.length_digits]
  have h36 : (hyphenate (id.digits.map Bytes.hexDigit)).length = 36 := by
    simp [hyphenate, id.length_digits]
  simp [parse?, text, h36, unhyphenate?_hyphenate hlen, ofHexDigits?_digits]

end InstanceId

end ServiceRegistry
