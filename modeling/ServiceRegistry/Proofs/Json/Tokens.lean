import Mathlib.Data.List.DropRight
import ServiceRegistry.Proofs.Json.RoundTrip

/-! # Blanks, numbers and strings of JSON

The grammar of numbers (`Json.IsNumber`) and of strings (`Json.IsTail`), and that the readers pass
over just these. A number ends where a byte stands that can not go on with it; a value of an array
or an object ends at a blank, a comma or a bracket (`Json.Ends`).

A string that is kept is read in the same way whatever follows it (`Json.Spells`), and a reader that
only passes over it ends where the one that keeps it ends (`exists_of_readString`). -/

namespace ServiceRegistry.Json

/-! ### Results -/

theorem bind_eq_ok {ε α β : Type} {x : Except ε α} {f : α → Except ε β} {b : β}
    (h : x.bind f = .ok b) : ∃ a, x = .ok a ∧ f a = .ok b := by
  cases x with
  | error e => cases h
  | ok a => exact ⟨a, rfl, h⟩

theorem map_eq_ok {ε α β : Type} {x : Except ε α} {f : α → β} {b : β} (h : x.map f = .ok b) :
    ∃ a, x = .ok a ∧ f a = b := by
  cases x with
  | error e => cases h
  | ok a => exact ⟨a, rfl, Except.ok.inj h⟩

/-! ### Blanks -/

/-- There is nothing but blanks. -/
def AllBlank (w : Bytes) : Prop := ∀ b ∈ w, isBlank b = true

instance (w : Bytes) : Decidable (AllBlank w) := List.decidableBAll _ w

theorem allBlank_nil : AllBlank [] := by decide

theorem AllBlank.append {w w' : Bytes} (h : AllBlank w) (h' : AllBlank w') :
    AllBlank (w ++ w') := fun b hb => (List.mem_append.mp hb).elim (h b) (h' b)

theorem skipBlanks_append {w : Bytes} (hw : AllBlank w) (bs : Bytes) :
    skipBlanks (w ++ bs) = skipBlanks bs := List.dropWhile_append_of_pos hw

theorem skipBlanks_eq_nil_iff {bs : Bytes} : skipBlanks bs = [] ↔ AllBlank bs :=
  List.dropWhile_eq_nil_iff

theorem exists_blanks (bs : Bytes) : ∃ w, AllBlank w ∧ bs = w ++ skipBlanks bs :=
  ⟨bs.takeWhile isBlank, fun _ hb => List.mem_takeWhile_imp hb,
    (List.takeWhile_append_dropWhile ..).symm⟩

theorem skipBlanks_skipBlanks (bs : Bytes) : skipBlanks (skipBlanks bs) = skipBlanks bs :=
  List.dropWhile_idempotent ..

theorem isBlank_of_skipBlanks {bs rest : Bytes} {b : UInt8} (h : skipBlanks bs = b :: rest) :
    isBlank b = false := by
  have hhead := List.head?_dropWhile_not isBlank bs
  rw [show bs.dropWhile isBlank = b :: rest from h] at hhead
  simpa using hhead

/-- A byte at which a value of an array or an object has ended. -/
def IsBound (b : UInt8) : Prop := isBlank b = true ∨ b = 0x2c ∨ b = 0x5d ∨ b = 0x7d

/-- A value that stands before these bytes has ended. -/
def Ends (bs : Bytes) : Prop := ∀ b, bs.head? = some b → IsBound b

theorem ends_cons {b : UInt8} (h : IsBound b) (bs : Bytes) : Ends (b :: bs) := by
  intro b' hb'
  obtain rfl := Option.some.inj hb'
  exact h

theorem ends_append {w : Bytes} (hw : AllBlank w) {bs : Bytes} (h : Ends bs) : Ends (w ++ bs) := by
  cases w with
  | nil => exact h
  | cons b w => exact ends_cons (.inl (hw b (by simp))) _

theorem IsBound.cases {b : UInt8} (h : IsBound b) :
    b = 0x20 ∨ b = 0x09 ∨ b = 0x0a ∨ b = 0x0d ∨ b = 0x2c ∨ b = 0x5d ∨ b = 0x7d := by
  rcases h with h | h
  · simp only [isBlank, Bool.or_eq_true, beq_iff_eq] at h
    tauto
  · tauto

/-! ### Numbers -/

/-- A decimal digit. -/
def IsDigit (b : UInt8) : Prop := (digit? b).isSome = true

instance (b : UInt8) : Decidable (IsDigit b) := inferInstanceAs (Decidable (_ = true))

/-- There is a digit, and nothing but digits. -/
def IsDigits (ds : Bytes) : Prop := ds ≠ [] ∧ ∀ d ∈ ds, IsDigit d

/-- An integer without a sign; only zero begins with a zero. -/
inductive IsInteger : Bytes → Prop
  | zero : IsInteger [0x30]
  | digits {d : UInt8} {ds : Bytes} (first : IsDigit d) (ne : d ≠ 0x30)
      (others : ∀ d ∈ ds, IsDigit d) : IsInteger (d :: ds)

/-- The fraction of a number, if it has one. -/
inductive IsFraction : Bytes → Prop
  | none : IsFraction []
  | some {ds : Bytes} (digits : IsDigits ds) : IsFraction (0x2e :: ds)

/-- The exponent of a number, if it has one. -/
inductive IsExponent : Bytes → Prop
  | none : IsExponent []
  | some {e : UInt8} {sign ds : Bytes} (letter : e = 0x65 ∨ e = 0x45)
      (sign_cases : sign = [] ∨ sign = [0x2b] ∨ sign = [0x2d]) (digits : IsDigits ds) :
      IsExponent (e :: (sign ++ ds))

/-- A number without a sign. -/
inductive IsNumber : Bytes → Prop
  | parts {i f e : Bytes} (integer : IsInteger i) (fraction : IsFraction f)
      (exponent : IsExponent e) : IsNumber (i ++ (f ++ e))

/-- No digit comes next. -/
def NoDigit (bs : Bytes) : Prop := ∀ b, bs.head? = some b → ¬ IsDigit b

theorem digits_append {ds : Bytes} (hds : ∀ d ∈ ds, IsDigit d) {rest : Bytes} (h : NoDigit rest)
    (acc : Nat) : (digits acc (ds ++ rest)).2 = (ds.length, rest) := by
  induction ds generalizing acc with
  | nil =>
      cases rest with
      | nil => rfl
      | cons b rest =>
          have hb : digit? b = none := by simpa [IsDigit] using h b rfl
          simp [digits, hb]
  | cons d ds ih =>
      obtain ⟨n, hn⟩ := Option.isSome_iff_exists.mp (hds d (by simp))
      have hmore := ih (fun x hx => hds x (by simp [hx])) (acc * 10 + n)
      simp only [List.cons_append, digits, hn, hmore, List.length_cons]

theorem exists_of_digits (acc : Nat) (bs : Bytes) :
    ∃ ds, bs = ds ++ (digits acc bs).2.2 ∧ (∀ d ∈ ds, IsDigit d) ∧
      (digits acc bs).2.1 = ds.length := by
  induction bs generalizing acc with
  | nil => exact ⟨[], rfl, by simp, rfl⟩
  | cons b bs ih =>
      cases hb : digit? b with
      | none => exact ⟨[], by simp [digits, hb], by simp, by simp [digits, hb]⟩
      | some n =>
          obtain ⟨ds, heq, hds, hlen⟩ := ih (acc * 10 + n)
          refine ⟨b :: ds, ?_, fun d hd => ?_, ?_⟩
          · simpa [digits, hb] using heq
          · rcases List.mem_cons.mp hd with rfl | hd
            · simp [IsDigit, hb]
            · exact hds d hd
          · simp [digits, hb, hlen]

theorem IsBound.not_isDigit {b : UInt8} (h : IsBound b) : ¬ IsDigit b := by
  rcases h.cases with rfl | rfl | rfl | rfl | rfl | rfl | rfl <;> decide

theorem Ends.noDigit {bs : Bytes} (h : Ends bs) : NoDigit bs := fun b hb => (h b hb).not_isDigit

theorem IsDigits.exists_cons {ds : Bytes} (h : IsDigits ds) :
    ∃ d ds', ds = d :: ds' ∧ IsDigit d := by
  obtain ⟨d, ds', rfl⟩ := List.exists_cons_of_ne_nil h.1
  exact ⟨d, ds', rfl, h.2 d (by simp)⟩

theorem digits_of_isDigits {ds : Bytes} (hds : IsDigits ds) {rest : Bytes} (h : NoDigit rest)
    (acc : Nat) : ∃ n k, digits acc (ds ++ rest) = (n, k + 1, rest) := by
  obtain ⟨d, ds', rfl, -⟩ := hds.exists_cons
  have h' := digits_append hds.2 h acc
  exact ⟨_, ds'.length, Prod.ext rfl h'⟩

theorem isDigits_of_digits {acc n k : Nat} {bs rest : Bytes}
    (h : digits acc bs = (n, k + 1, rest)) : ∃ ds, IsDigits ds ∧ bs = ds ++ rest := by
  obtain ⟨ds, heq, hds, hlen⟩ := exists_of_digits acc bs
  rw [h] at heq hlen
  refine ⟨ds, ⟨fun hnil => ?_, hds⟩, heq⟩
  rw [hnil] at hlen
  cases hlen

/-- A digit is no sign. -/
theorem IsDigit.ne_sign {d : UInt8} (h : IsDigit d) : d ≠ 0x2b ∧ d ≠ 0x2d :=
  ⟨fun hd => by subst hd; exact absurd h (by decide), fun hd => by
    subst hd; exact absurd h (by decide)⟩

theorem scanExponent_append {e : Bytes} (he : IsExponent e) {rest : Bytes} (h : Ends rest)
    (d : Decimal) : ∃ d', scanExponent d (e ++ rest) = .ok (d', rest) := by
  cases he with
  | none =>
      cases rest with
      | nil => exact ⟨d, rfl⟩
      | cons b rest =>
          have hb : ¬ ((b = 0x65 || b = 0x45) = true) := by
            rcases (h b rfl).cases with rfl | rfl | rfl | rfl | rfl | rfl | rfl <;> decide
          exact ⟨d, by unfold scanExponent; exact if_neg hb⟩
  | @some e sign ds letter sign_cases hds =>
      have hletter : (e = 0x65 || e = 0x45) = true := by simpa using letter
      obtain ⟨x, xs, hcons, hx⟩ := hds.exists_cons
      have hne := hx.ne_sign
      obtain ⟨n, k, hread⟩ := digits_of_isDigits hds h.noDigit 0
      unfold scanExponent
      dsimp only [List.cons_append]
      rw [if_pos hletter]
      rcases sign_cases with rfl | rfl | rfl
      · rw [hcons] at hread ⊢
        simp only [List.nil_append, List.cons_append, hne.1, hne.2, ↓reduceIte] at hread ⊢
        rw [hread]
        exact ⟨_, rfl⟩
      · simp only [List.cons_append, List.nil_append, ↓reduceIte]
        rw [hread]
        exact ⟨_, rfl⟩
      · simp only [List.cons_append, List.nil_append]
        rw [if_neg (by decide), if_pos trivial, hread]
        exact ⟨_, rfl⟩

theorem exists_of_scanExponent {d d' : Decimal} {bs rest : Bytes}
    (h : scanExponent d bs = .ok (d', rest)) : ∃ e, IsExponent e ∧ bs = e ++ rest := by
  unfold scanExponent at h
  split at h
  · cases h
    exact ⟨[], .none, rfl⟩
  · next b bs =>
      split at h
      · next hletter =>
          have hletter' : b = 0x65 ∨ b = 0x45 := by simpa using hletter
          split at h
          next sign r hsign =>
          have hr : ∃ s, (s = [] ∨ s = [0x2b] ∨ s = [0x2d]) ∧ bs = s ++ r := by
            split at hsign
            · cases hsign
              exact ⟨[], .inl rfl, rfl⟩
            · split at hsign
              · next s _ hs =>
                  cases hsign
                  exact ⟨[0x2b], .inr (.inl rfl), by rw [hs]; rfl⟩
              · split at hsign
                · next s _ _ hs =>
                    cases hsign
                    exact ⟨[0x2d], .inr (.inr rfl), by rw [hs]; rfl⟩
                · cases hsign
                  exact ⟨[], .inl rfl, rfl⟩
          obtain ⟨s, hs, rfl⟩ := hr
          split at h
          · cases h
          · next n k rest' hne hdigits =>
              cases h
              obtain ⟨k, rfl⟩ := Nat.exists_eq_succ_of_ne_zero hne
              obtain ⟨ds, hds, rfl⟩ := isDigits_of_digits hdigits
              exact ⟨b :: (s ++ ds), .some hletter' hs hds, by simp⟩
      · cases h
        exact ⟨[], .none, rfl⟩

/-- An exponent can not be taken for a fraction or for further digits. -/
theorem head?_exponent {e : Bytes} (he : IsExponent e) {rest : Bytes} (h : Ends rest) {b : UInt8}
    (hb : (e ++ rest).head? = some b) : b ≠ 0x2e ∧ ¬ IsDigit b := by
  cases he with
  | none => rcases (h b hb).cases with rfl | rfl | rfl | rfl | rfl | rfl | rfl <;> decide
  | some letter =>
      obtain rfl := Option.some.inj hb
      rcases letter with rfl | rfl <;> decide

theorem scanFraction_append {f e : Bytes} (hf : IsFraction f) (he : IsExponent e) {rest : Bytes}
    (h : Ends rest) (d : Decimal) : ∃ d', scanFraction d (f ++ (e ++ rest)) = .ok (d', rest) := by
  have hhead := fun b => head?_exponent he h (b := b)
  have hexponent := scanExponent_append he h
  cases hf with
  | none =>
      rw [List.nil_append]
      cases hbs : e ++ rest with
      | nil =>
          obtain ⟨-, rfl⟩ := List.append_eq_nil_iff.mp hbs
          exact ⟨d, rfl⟩
      | cons b bs =>
          obtain ⟨hpoint, -⟩ := hhead b (by rw [hbs]; rfl)
          obtain ⟨d', hd'⟩ := hexponent d
          refine ⟨d', ?_⟩
          unfold scanFraction
          dsimp only
          rw [if_neg hpoint, ← hbs, hd']
  | @some ds hds =>
      obtain ⟨n, k, hread⟩ := digits_of_isDigits hds (fun b hb => (hhead b hb).2) 0
      unfold scanFraction
      dsimp only [List.cons_append]
      rw [if_pos rfl, hread]
      exact hexponent _

theorem exists_of_scanFraction {d d' : Decimal} {bs rest : Bytes}
    (h : scanFraction d bs = .ok (d', rest)) :
    ∃ f e, IsFraction f ∧ IsExponent e ∧ bs = f ++ (e ++ rest) := by
  unfold scanFraction at h
  split at h
  · cases h
    exact ⟨[], [], .none, .none, rfl⟩
  · next b bs =>
      split at h
      · next hb =>
          split at h
          · cases h
          · next n k rest' hne hdigits =>
              obtain ⟨k, rfl⟩ := Nat.exists_eq_succ_of_ne_zero hne
              obtain ⟨ds, hds, rfl⟩ := isDigits_of_digits hdigits
              obtain ⟨e, he, rfl⟩ := exists_of_scanExponent h
              exact ⟨_, e, .some hds, he, by rw [hb]; rfl⟩
      · obtain ⟨e, he, hbs⟩ := exists_of_scanExponent h
        exact ⟨[], e, .none, he, hbs⟩

theorem digit?_eq_zero_iff {b : UInt8} : digit? b = some 0 ↔ b = 0x30 := by
  unfold digit?
  constructor
  · intro h
    split at h
    · next hb =>
        simp only [Bool.and_eq_true, decide_eq_true_eq, UInt8.le_iff_toNat_le] at hb
        have hzero : b.toNat - 0x30 = 0 := Option.some.inj h
        apply UInt8.toNat_inj.mp
        have : (0x30 : UInt8).toNat = 0x30 := rfl
        omega
    · cases h
  · rintro rfl
    rfl

/-- A number is passed over up to where it ends. -/
theorem skipNumber_append {v : Bytes} (hv : IsNumber v) {rest : Bytes} (h : Ends rest) :
    skipNumber (v ++ rest) = .ok rest := by
  obtain ⟨hi, hf, he⟩ := hv
  next i f e =>
  have hhead : NoDigit (f ++ (e ++ rest)) := by
    intro b hb
    cases hf with
    | none => exact (head?_exponent he h hb).2
    | some =>
        obtain rfl := Option.some.inj hb
        decide
  have hscan : ∃ d, scanNumber (i ++ (f ++ (e ++ rest))) = .ok (d, rest) := by
    cases hi with
    | zero =>
        obtain ⟨d, hd⟩ := scanFraction_append hf he h ⟨0, 0⟩
        unfold scanNumber
        cases hbs : f ++ (e ++ rest) with
        | nil =>
            obtain ⟨-, hnil⟩ := List.append_eq_nil_iff.mp hbs
            obtain ⟨-, rfl⟩ := List.append_eq_nil_iff.mp hnil
            exact ⟨_, rfl⟩
        | cons b bs =>
            have hb : ¬ (digit? b).isSome = true := hhead b (by rw [hbs]; rfl)
            refine ⟨d, ?_⟩
            rw [hbs] at hd
            dsimp only [List.cons_append, List.nil_append]
            rw [show digit? 0x30 = some 0 from rfl, if_neg hb, hd]
            rfl
    | @digits d ds first ne others =>
        obtain ⟨n, hn⟩ := Option.isSome_iff_exists.mp first
        have hread := digits_append others hhead n
        unfold scanNumber
        dsimp only [List.cons_append]
        rw [hn]
        split
        · next hnone => cases hnone
        · next hzero => exact absurd (digit?_eq_zero_iff.mp (hn.trans hzero)) ne
        · next m _ hm =>
            obtain rfl := Option.some.inj hm
            rw [hread]
            exact scanFraction_append hf he h _
  obtain ⟨d, hd⟩ := hscan
  rw [skipNumber, List.append_assoc, List.append_assoc, hd]

/-- What is passed over as a number is one. -/
theorem exists_of_skipNumber {bs rest : Bytes} (h : skipNumber bs = .ok rest) :
    ∃ v, IsNumber v ∧ bs = v ++ rest := by
  unfold skipNumber at h
  split at h
  · cases h
  · next d rest' hscan =>
      cases h
      unfold scanNumber at hscan
      split at hscan
      · cases hscan
      · next b bs =>
          split at hscan
          · cases hscan
          · next hzero =>
              obtain rfl := digit?_eq_zero_iff.mp hzero
              split at hscan
              · cases hscan
                exact ⟨_, .parts .zero .none .none, rfl⟩
              · split at hscan
                · cases hscan
                · obtain ⟨f, e, hf, he, hbs⟩ := exists_of_scanFraction hscan
                  exact ⟨_, .parts .zero hf he, by simp [hbs]⟩
          · next n hne hn =>
              obtain ⟨ds, heq, hds, -⟩ := exists_of_digits n bs
              obtain ⟨f, e, hf, he, hbs⟩ := exists_of_scanFraction hscan
              have hfirst : IsDigit b := by simp [IsDigit, hn]
              have hb : b ≠ 0x30 := fun hb => hne (Option.some.inj
                (hn.symm.trans (digit?_eq_zero_iff.mpr hb)))
              refine ⟨_, .parts (.digits hfirst hb hds) hf he, ?_⟩
              rw [heq, hbs]
              simp

/-! ### Strings -/

/-- Four hexadecimal digits. -/
def IsCode (ds : Bytes) : Prop :=
  ds.length = 4 ∧ ∀ b ∈ ds, (Bytes.hexValue? (Char.ofNat b.toNat)).isSome = true

/-- A string after its opening quote, with its closing quote. What characters the bytes and the
escapes stand for does not matter. -/
inductive IsTail : Bytes → Prop
  | close : IsTail [0x22]
  | plain {b : UInt8} {t : Bytes} (hb : IsPlain b) (more : IsTail t) : IsTail (b :: t)
  | letter {b : UInt8} {t : Bytes} (hb : (letterEscape? b).isSome = true) (more : IsTail t) :
      IsTail (0x5c :: b :: t)
  | code {ds t : Bytes} (hds : IsCode ds) (more : IsTail t) : IsTail (0x5c :: 0x75 :: (ds ++ t))

theorem hexCode_append {ds : Bytes} (hds : IsCode ds) :
    ∃ n, ∀ rest, hexCode (ds ++ rest) = .ok (n, rest) := by
  obtain ⟨hlen, hall⟩ := hds
  match ds with
  | [a, b, c, d] =>
      obtain ⟨x, hx⟩ := Option.isSome_iff_exists.mp (hall a (by simp))
      obtain ⟨y, hy⟩ := Option.isSome_iff_exists.mp (hall b (by simp))
      obtain ⟨z, hz⟩ := Option.isSome_iff_exists.mp (hall c (by simp))
      obtain ⟨w, hw⟩ := Option.isSome_iff_exists.mp (hall d (by simp))
      exact ⟨((x.val * 16 + y.val) * 16 + z.val) * 16 + w.val, fun rest => by
        simp [hexCode, hx, hy, hz, hw]⟩

theorem exists_of_hexCode {bs rest : Bytes} {n : Nat} (h : hexCode bs = .ok (n, rest)) :
    ∃ ds, IsCode ds ∧ bs = ds ++ rest ∧ ∀ rest', hexCode (ds ++ rest') = .ok (n, rest') := by
  unfold hexCode at h
  split at h
  · next a b c d rest' =>
      split at h
      · next ds hds =>
          cases h
          have hcode : IsCode [a, b, c, d] := by
            refine ⟨rfl, fun x hx => ?_⟩
            by_contra hnone
            rw [Bool.not_eq_true, Option.isSome_eq_false_iff, Option.isNone_iff_eq_none] at hnone
            simp only [List.mem_cons, List.not_mem_nil, or_false] at hx
            rcases hx with rfl | rfl | rfl | rfl <;> simp [hnone] at hds
          exact ⟨[a, b, c, d], hcode, rfl, fun rest' => by simp [hexCode, hds]⟩
      · cases h
  · cases h

theorem skipEscape_letter {b : UInt8} (hb : (letterEscape? b).isSome = true) (rest : Bytes) :
    skipEscape (b :: rest) = .ok rest := by simp [skipEscape, hb]

theorem skipEscape_code {ds : Bytes} (hds : IsCode ds) (rest : Bytes) :
    skipEscape (0x75 :: (ds ++ rest)) = .ok rest := by
  obtain ⟨n, hn⟩ := hexCode_append hds
  rw [skipEscape, if_neg (by decide), if_pos rfl, hn]
  rfl

theorem skipString_escape {bs rest : Bytes} (h : skipEscape bs = .ok rest) :
    skipString (0x5c :: bs) = skipString rest := by
  rw [skipString, if_neg (by decide), if_pos rfl]
  split
  · next e he =>
      rw [h] at he
      cases he
  · next rest' he =>
      rw [h] at he
      cases he
      rfl

/-- A string is passed over up to its closing quote. -/
theorem skipString_append {t : Bytes} (ht : IsTail t) (rest : Bytes) :
    skipString (t ++ rest) = .ok rest := by
  induction ht with
  | close => simp [skipString]
  | plain hb _ ih =>
      obtain ⟨hquote, hescape, hcontrol⟩ := hb
      rw [List.cons_append, skipString, if_neg hquote, if_neg hescape, if_neg hcontrol, ih]
  | letter hb _ ih =>
      rw [List.cons_append, List.cons_append, skipString_escape (skipEscape_letter hb _), ih]
  | code hds _ ih =>
      rw [List.cons_append, List.cons_append, List.append_assoc,
        skipString_escape (skipEscape_code hds _), ih]

theorem exists_of_skipEscape {bs rest : Bytes} (h : skipEscape bs = .ok rest) :
    ∃ e, bs = e ++ rest ∧ ∀ t, IsTail t → IsTail (0x5c :: (e ++ t)) := by
  unfold skipEscape at h
  split at h
  · cases h
  · next b rest' =>
      split at h
      · next hb =>
          cases h
          exact ⟨[b], rfl, fun t ht => .letter hb ht⟩
      · split at h
        · next hb =>
            obtain ⟨⟨n, rest''⟩, hcode, heq⟩ := map_eq_ok h
            obtain ⟨ds, hds, rfl, -⟩ := exists_of_hexCode hcode
            subst heq hb
            exact ⟨0x75 :: ds, rfl, fun t ht => .code hds ht⟩
        · cases h

/-- What is passed over as a string is one. -/
theorem exists_of_skipString {bs rest : Bytes} (h : skipString bs = .ok rest) :
    ∃ t, IsTail t ∧ bs = t ++ rest := by
  fun_induction skipString bs with
  | case1 => cases h
  | case2 =>
      cases h
      exact ⟨_, .close, rfl⟩
  | case3 => cases h
  | case4 bs rest' he _ _ ih =>
      obtain ⟨e, rfl, htail⟩ := exists_of_skipEscape he
      obtain ⟨t, ht, rfl⟩ := ih h
      exact ⟨_, htail t ht, by simp⟩
  | case5 => cases h
  | case6 b bs hquote hescape hcontrol ih =>
      obtain ⟨t, ht, rfl⟩ := ih h
      exact ⟨_, .plain ⟨hquote, hescape, hcontrol⟩ ht, rfl⟩

/-! ### Strings that are kept -/

theorem exists_of_codeEscape {bs rest : Bytes} {c : Char} (h : codeEscape bs = .ok (c, rest)) :
    ∃ e, bs = e ++ rest ∧ (∀ rest', codeEscape (e ++ rest') = .ok (c, rest')) ∧
      ∀ t, IsTail t → IsTail (0x5c :: 0x75 :: (e ++ t)) := by
  unfold codeEscape at h
  obtain ⟨⟨n, rest₁⟩, hcode, hfirst⟩ := bind_eq_ok h
  obtain ⟨ds, hds, rfl, hread⟩ := exists_of_hexCode hcode
  dsimp only at hfirst
  split at hfirst
  · cases hfirst
  · next hlow =>
      split at hfirst
      · next hhigh =>
          split at hfirst
          · cases hfirst
          · cases hfirst
          · next rest₂ =>
              obtain ⟨⟨m, rest₃⟩, hcode', hsecond⟩ := bind_eq_ok hfirst
              obtain ⟨ds', hds', rfl, hread'⟩ := exists_of_hexCode hcode'
              dsimp only at hsecond
              split at hsecond
              · next hlow' =>
                  simp only [Except.ok.injEq, Prod.mk.injEq] at hsecond
                  obtain ⟨rfl, rfl⟩ := hsecond
                  refine ⟨ds ++ 0x5c :: 0x75 :: ds', by simp, fun rest' => ?_, fun t ht => ?_⟩
                  · simp [codeEscape, hread, hread', bind, Except.bind, hlow, hhigh, hlow']
                  · have htail := IsTail.code hds (.code hds' ht)
                    simpa using htail
              · cases hsecond
          · cases hfirst
      · next hhigh =>
          cases hfirst
          refine ⟨ds, rfl, fun rest' => ?_, fun t ht => .code hds ht⟩
          simp [codeEscape, hread, bind, Except.bind, hlow, hhigh]

theorem exists_of_escape {bs rest : Bytes} {c : Char} (h : escape bs = .ok (c, rest)) :
    ∃ e, bs = e ++ rest ∧ (∀ rest', escape (e ++ rest') = .ok (c, rest')) ∧
      ∀ t, IsTail t → IsTail (0x5c :: (e ++ t)) := by
  unfold escape at h
  split at h
  · cases h
  · next b rest₁ =>
      split at h
      · next c' hletter =>
          cases h
          exact ⟨[b], rfl, fun rest' => escape_of_letter hletter rest',
            fun t ht => .letter (by rw [hletter]; rfl) ht⟩
      · next hletter =>
          split at h
          · next hb =>
              obtain ⟨e, rfl, hread, htail⟩ := exists_of_codeEscape h
              subst hb
              refine ⟨0x75 :: e, rfl, fun rest' => ?_, htail⟩
              rw [List.cons_append, escape, hletter]
              exact hread rest'
          · cases h

theorem exists_of_stringBytes {bs rest text : Bytes} (h : stringBytes bs = .ok (text, rest)) :
    ∃ t, bs = t ++ rest ∧ IsTail t ∧ ∀ rest', stringBytes (t ++ rest') = .ok (text, rest') := by
  fun_induction stringBytes bs generalizing text rest with
  | case1 => cases h
  | case2 =>
      cases h
      exact ⟨[0x22], rfl, .close, fun rest' => by simp [stringBytes]⟩
  | case3 => cases h
  | case4 => cases h
  | case5 bs c rest₁ he _ text' rest' hs _ ih =>
      cases h
      obtain ⟨e, rfl, hread, htail⟩ := exists_of_escape he
      obtain ⟨t, rfl, ht, hmore⟩ := ih hs
      refine ⟨0x5c :: (e ++ t), by simp, htail t ht, fun rest' => ?_⟩
      rw [List.cons_append, List.append_assoc, stringBytes_escape (hread _), hmore]
      rfl
  | case6 => cases h
  | case7 => cases h
  | case8 b bs hquote hescape hcontrol text' rest' hs ih =>
      cases h
      obtain ⟨t, rfl, ht, hmore⟩ := ih hs
      have hplain : IsPlain b := ⟨hquote, hescape, hcontrol⟩
      refine ⟨b :: t, rfl, .plain hplain ht, fun rest' => ?_⟩
      rw [List.cons_append, stringBytes_plain hplain, hmore]
      rfl

/-- After its opening quote a string is spelled like this, and read as the text. -/
def Spells (t : Bytes) (s : String) : Prop := ∀ rest, readString (t ++ rest) = .ok (s, rest)

/-- A string that is kept has a spelling, and it is passed over up to where it ends. -/
theorem exists_of_readString {bs rest : Bytes} {s : String} (h : readString bs = .ok (s, rest)) :
    ∃ t, bs = t ++ rest ∧ IsTail t ∧ Spells t s := by
  unfold readString at h
  split at h
  · cases h
  · next text rest' hbytes =>
      split at h
      · next hs =>
          cases h
          obtain ⟨t, rfl, ht, hread⟩ := exists_of_stringBytes hbytes
          exact ⟨t, rfl, ht, fun rest' => by rw [readString, hread]; simp [hs]⟩
      · cases h

end ServiceRegistry.Json
