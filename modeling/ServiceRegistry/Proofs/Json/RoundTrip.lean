import Mathlib.Data.Fintype.Basic
import Mathlib.Tactic.FinCases
import Mathlib.Tactic.SplitIfs
import ServiceRegistry.Json.Quote
import ServiceRegistry.Json.Read

/-! # JSON strings, written and read back

A text that is written as a JSON string is read back byte for byte, whatever characters it has, and
what follows the string is left (`readString_escaped`).  The reader works on bytes and the writer on
characters: a character that stands for itself is written as bytes that the reader passes through
(`isPlain_utf8EncodeChar`), and each other one as an escape that the reader turns into its bytes
again (`stringBytes_escapeChar`). -/

namespace ServiceRegistry

namespace Bytes

theorem ofText_append (s t : String) : ofText (s ++ t) = ofText s ++ ofText t := by
  simp [ofText, String.toByteArray_append]

theorem ofText_ofList (cs : List Char) :
    ofText (.ofList cs) = cs.flatMap String.utf8EncodeChar := by
  simp [ofText, List.utf8Encode]

theorem ofText_eq (s : String) : ofText s = s.toList.flatMap String.utf8EncodeChar := by
  rw [← ofText_ofList, String.ofList_toList]

end Bytes

namespace Json

/-! ### Bytes that stand for themselves -/

/-- A byte that stands for itself in a string. -/
def IsPlain (b : UInt8) : Prop := b ≠ 0x22 ∧ b ≠ 0x5c ∧ ¬b < 0x20

theorem stringBytes_plain {b : UInt8} (hb : IsPlain b) (bs : Bytes) :
    stringBytes (b :: bs) = (stringBytes bs).map fun p => (b :: p.1, p.2) := by
  obtain ⟨h₁, h₂, h₃⟩ := hb
  rw [stringBytes, if_neg h₁, if_neg h₂, if_neg h₃]
  cases stringBytes bs <;> rfl

theorem isPlain_ofNat {n : ℕ} (h : 0x20 ≤ n) (h' : n < 256) (ha : n ≠ 0x22) (hb : n ≠ 0x5c) :
    IsPlain (UInt8.ofNat n) := by
  have hn : (UInt8.ofNat n).toNat = n := by simp; omega
  refine ⟨?_, ?_, ?_⟩
  · intro e
    rw [e] at hn
    exact ha hn.symm
  · intro e
    rw [e] at hn
    exact hb hn.symm
  · rw [UInt8.lt_iff_toNat_lt, hn]
    simpa using h

/-- Outside ASCII all bytes of a character are above 127, so only the character itself matters. -/
theorem isPlain_utf8EncodeChar {c : Char} (h₁ : c ≠ '"') (h₂ : c ≠ '\\') (h₃ : ¬c.toNat < 0x20) :
    ∀ b ∈ String.utf8EncodeChar c, IsPlain b := by
  have e₁ : c.val.toNat ≠ 0x22 := fun h => h₁ (Char.ext (UInt32.toNat_inj.mp h))
  have e₂ : c.val.toNat ≠ 0x5c := fun h => h₂ (Char.ext (UInt32.toNat_inj.mp h))
  have e₃ : ¬c.val.toNat < 0x20 := h₃
  intro b hb
  simp only [String.utf8EncodeChar] at hb
  split at hb
  · simp only [List.mem_singleton] at hb
    rw [hb]
    exact isPlain_ofNat (by omega) (by omega) e₁ e₂
  · split at hb
    · simp only [List.mem_cons, List.not_mem_nil, or_false] at hb
      rcases hb with rfl | rfl <;>
        exact isPlain_ofNat (by omega) (by omega) (by omega) (by omega)
    · split at hb
      · simp only [List.mem_cons, List.not_mem_nil, or_false] at hb
        rcases hb with rfl | rfl | rfl <;>
          exact isPlain_ofNat (by omega) (by omega) (by omega) (by omega)
      · simp only [List.mem_cons, List.not_mem_nil, or_false] at hb
        rcases hb with rfl | rfl | rfl | rfl <;>
          exact isPlain_ofNat (by omega) (by omega) (by omega) (by omega)

/-! ### Escapes -/

theorem stringBytes_escape {bs rest : Bytes} {c : Char} (h : escape bs = .ok (c, rest)) :
    stringBytes (0x5c :: bs) =
      (stringBytes rest).map fun p => (String.utf8EncodeChar c ++ p.1, p.2) := by
  rw [stringBytes, if_neg (by decide), if_pos rfl]
  split
  · next e he => rw [h] at he; cases he
  · next c' rest' he =>
      rw [h] at he
      cases he
      cases stringBytes rest <;> rfl

theorem escape_of_letter {b : UInt8} {c : Char} (h : letterEscape? b = some c) (rest : Bytes) :
    escape (b :: rest) = .ok (c, rest) := by
  simp [escape, h]

theorem stringBytes_hexEscape {c : Char} (h : c.toNat < 0x20) (rest : Bytes) :
    stringBytes ((hexEscape c.toNat).flatMap String.utf8EncodeChar ++ rest) =
      (stringBytes rest).map fun p => (String.utf8EncodeChar c ++ p.1, p.2) := by
  obtain ⟨n, rfl⟩ : ∃ n : Fin 32, c = Char.ofNat n := ⟨⟨c.toNat, h⟩, by simp⟩
  have hcode : escape (0x75 :: 0x30 :: 0x30 ::
      (String.utf8EncodeChar ((Char.ofNat n).toNat / 16).digitChar ++
        String.utf8EncodeChar ((Char.ofNat n).toNat % 16).digitChar) ++ rest) =
      .ok (Char.ofNat n, rest) := by
    revert n
    intro n h
    fin_cases n <;> rfl
  have hbytes (d e : Char) : [ '\\', 'u', '0', '0', d, e].flatMap String.utf8EncodeChar ++ rest =
      0x5c :: (0x75 :: 0x30 :: 0x30 ::
        (String.utf8EncodeChar d ++ String.utf8EncodeChar e) ++ rest) := by
    simp only [List.flatMap_cons, List.flatMap_nil, List.append_nil]
    rfl
  rw [hexEscape, hbytes]
  exact stringBytes_escape hcode

theorem stringBytes_escapeChar (c : Char) (rest : Bytes) :
    stringBytes ((escapeChar c).flatMap String.utf8EncodeChar ++ rest) =
      (stringBytes rest).map fun p => (String.utf8EncodeChar c ++ p.1, p.2) := by
  unfold escapeChar
  split_ifs with h₁ h₂ h₃ h₄ h₅ h₆ h₇ h₈
  · subst c
    exact stringBytes_escape (escape_of_letter (b := 0x22) rfl rest)
  · subst c
    exact stringBytes_escape (escape_of_letter (b := 0x5c) rfl rest)
  · subst c
    exact stringBytes_escape (escape_of_letter (b := 0x62) rfl rest)
  · subst c
    exact stringBytes_escape (escape_of_letter (b := 0x66) rfl rest)
  · subst c
    exact stringBytes_escape (escape_of_letter (b := 0x6e) rfl rest)
  · subst c
    exact stringBytes_escape (escape_of_letter (b := 0x72) rfl rest)
  · subst c
    exact stringBytes_escape (escape_of_letter (b := 0x74) rfl rest)
  · exact stringBytes_hexEscape h₈ rest
  · rw [List.flatMap_singleton]
    have hplain := isPlain_utf8EncodeChar h₁ h₂ h₈
    generalize String.utf8EncodeChar c = bs at hplain ⊢
    induction bs with
    | nil => simp; cases stringBytes rest <;> rfl
    | cons b bs ih =>
        rw [List.cons_append, stringBytes_plain (hplain b (by simp)),
          ih fun x hx => hplain x (by simp [hx])]
        cases stringBytes rest <;> rfl

/-! ### Strings -/

theorem stringBytes_escaped (cs : List Char) (rest : Bytes) :
    stringBytes ((cs.flatMap escapeChar).flatMap String.utf8EncodeChar ++ 0x22 :: rest) =
      .ok (cs.flatMap String.utf8EncodeChar, rest) := by
  induction cs with
  | nil => simp [stringBytes]
  | cons c cs ih =>
      rw [List.flatMap_cons, List.flatMap_append, List.append_assoc, stringBytes_escapeChar, ih]
      rfl

/-- What is written after the opening quote reads back as the text, and the rest is left. -/
theorem readString_escaped (s : String) (rest : Bytes) :
    readString ((s.toList.flatMap escapeChar).flatMap String.utf8EncodeChar ++ 0x22 :: rest) =
      .ok (s, rest) := by
  rw [readString, stringBytes_escaped, ← Bytes.ofText_eq]
  simp [Bytes.text?_ofText]

/-- A byte at which a value can begin is no blank. -/
theorem skipBlanks_of_not_isBlank {b : UInt8} (hb : isBlank b = false) (bs : Bytes) :
    skipBlanks (b :: bs) = b :: bs := by
  simp [skipBlanks, hb]

end Json

end ServiceRegistry
