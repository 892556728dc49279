import Mathlib.Data.List.Basic
import ServiceRegistry.Url

/-! # What the text of a host is made of

A text that reads as a host, of either kind, is an address in brackets or holds none of the
characters at which a host ends in a URL or which count for nothing there (`Url.IsHostText`). So it
can be found again where it stands in a URL. -/

namespace ServiceRegistry.Url

/-! ### ASCII characters -/

/-- What holds of each of the first 128 characters holds of every ASCII character. -/
theorem of_ascii {p : Char → Prop} (h : ∀ n : Fin 128, p (Char.ofNat n)) {c : Char}
    (hc : c.toNat < 128) : p c := by
  have hchar := h ⟨c.toNat, hc⟩
  rwa [Char.ofNat_toNat] at hchar

/-- Is the character one at which a part of a URL ends, or one that counts for nothing? -/
def isBound (c : Char) : Bool :=
  ['/', '\\', '?', '#', '@', '\t', '\n', '\r'].contains c

/-- Is the character one at which a host ends, or one that is not of it? -/
def isHostBound (c : Char) : Bool := isBound c || [':', '[', ']'].contains c

theorem isForbiddenInText_of_isHostBound {c : Char} (h : isHostBound c = true) :
    Host.isForbiddenInText c = true := by
  simp only [isHostBound, isBound, List.contains_eq_mem, List.mem_cons, List.not_mem_nil,
    Bool.or_eq_true, decide_eq_true_eq, or_false] at h
  rcases h with (rfl | rfl | rfl | rfl | rfl | rfl | rfl | rfl) | rfl | rfl | rfl <;> rfl

theorem isForbiddenInDomain_of_isHostBound {c : Char} (h : isHostBound c = true) :
    Host.isForbiddenInDomain c = true := by
  simp only [isHostBound, isBound, List.contains_eq_mem, List.mem_cons, List.not_mem_nil,
    Bool.or_eq_true, decide_eq_true_eq, or_false] at h
  rcases h with (rfl | rfl | rfl | rfl | rfl | rfl | rfl | rfl) | rfl | rfl | rfl <;> rfl

namespace Host

theorem toNat_lt_of_isForbiddenInDomain {c : Char} (h : isForbiddenInDomain c = true) :
    c.toNat < 128 := by
  simp only [isForbiddenInDomain, List.contains_eq_mem, List.mem_cons, List.not_mem_nil,
    Bool.or_eq_true, decide_eq_true_eq, beq_iff_eq, or_false] at h
  rcases h with (h | h) | h
  · omega
  · omega
  · rcases h with rfl | rfl | rfl | rfl | rfl | rfl | rfl | rfl | rfl | rfl | rfl | rfl | rfl
    all_goals decide

/-! ### Addresses in brackets -/

/-- May the character stand in an IPv6 address? -/
def isAddressChar (c : Char) : Bool := (Bytes.hexValue? c).isSome || c == ':' || c == '.'

theorem hexValue?_of_number? {base n : Nat} {cs : List Char} (h : number? base cs = some n) :
    ∀ c ∈ cs, (Bytes.hexValue? c).isSome = true := by
  unfold number? at h
  generalize (0 : Nat) = m at h
  induction cs generalizing m with
  | nil => exact fun c hc => by cases hc
  | cons d ds ih =>
      rw [List.foldlM_cons, Option.bind_eq_bind, Option.bind_eq_some_iff] at h
      obtain ⟨m', hstep, hrest⟩ := h
      obtain ⟨v, hv, -⟩ := Option.bind_eq_some_iff.mp hstep
      intro c hc
      rcases List.mem_cons.mp hc with rfl | hc
      · rw [hv]
        rfl
      · exact ih m' hrest c hc

theorem isAddressChar_of_number? {base n : Nat} {cs : List Char} (h : number? base cs = some n) :
    ∀ c ∈ cs, isAddressChar c = true := by
  intro c hc
  simp [isAddressChar, hexValue?_of_number? h c hc]

theorem isAddressChar_of_piece? {p : Nat} {cs : List Char} (h : piece? cs = some p) :
    ∀ c ∈ cs, isAddressChar c = true := by
  unfold piece? at h
  split at h
  · exact isAddressChar_of_number? h
  · cases h

theorem isAddressChar_of_decimalByte? {b : Nat} {cs : List Char} (h : decimalByte? cs = some b) :
    ∀ c ∈ cs, isAddressChar c = true := by
  unfold decimalByte? at h
  split at h
  · cases h
  · obtain ⟨n, hn, -⟩ := Option.bind_eq_some_iff.mp h
    exact isAddressChar_of_number? hn

theorem isAddressChar_of_dottedPieces? {ps : List Nat} {cs : List Char}
    (h : dottedPieces? cs = some ps) : ∀ c ∈ cs, isAddressChar c = true := by
  have hparts : ∀ {parts : List (List Char)} {bytes : List Nat},
      parts.mapM decimalByte? = some bytes →
        ∀ part ∈ parts, ∀ c ∈ part, isAddressChar c = true := by
    intro parts
    induction parts with
    | nil => exact fun _ part hpart => by cases hpart
    | cons first parts ih =>
        intro bytes hbytes part hpart
        rw [List.mapM_cons] at hbytes
        obtain ⟨b, hfirst, hrest⟩ := Option.bind_eq_some_iff.mp hbytes
        obtain ⟨bs, hparts, -⟩ := Option.bind_eq_some_iff.mp hrest
        rcases List.mem_cons.mp hpart with rfl | hpart
        · exact isAddressChar_of_decimalByte? hfirst
        · exact ih hparts part hpart
  unfold dottedPieces? at h
  intro c hc
  split at h
  · next hbytes =>
    rcases Text.exists_mem_split '.' hc with rfl | ⟨part, hpart, hc⟩
    · rfl
    · exact hparts hbytes part hpart c hc
  · cases h

theorem isAddressChar_of_pieces? {dotted : Bool} {ps : List Nat} {parts : List (List Char)}
    (h : pieces? dotted parts = some ps) : ∀ part ∈ parts, ∀ c ∈ part, isAddressChar c = true := by
  induction parts generalizing ps with
  | nil => exact fun part hpart => by cases hpart
  | cons first parts ih =>
      cases parts with
      | nil =>
          intro part hpart
          obtain rfl := List.mem_singleton.mp hpart
          unfold pieces? at h
          split at h
          · next hp => exact isAddressChar_of_piece? hp
          · split at h
            · exact isAddressChar_of_dottedPieces? h
            · cases h
      | cons second parts =>
          unfold pieces? at h
          obtain ⟨p, hfirst, hrest⟩ := Option.bind_eq_some_iff.mp h
          obtain ⟨qs, hparts, -⟩ := Option.bind_eq_some_iff.mp hrest
          intro part hpart
          rcases List.mem_cons.mp hpart with rfl | hpart
          · exact isAddressChar_of_piece? hfirst
          · exact ih hparts part hpart

/-- The text is the parts around the two colons, if they stand there. -/
theorem mem_cutAtGap {cs : List Char} {c : Char} (h : c ∈ cs) :
    c ∈ (cutAtGap cs).1 ∨ c = ':' ∨ ∃ after ∈ (cutAtGap cs).2, c ∈ after := by
  induction cs using cutAtGap.induct with
  | case1 rest =>
      rw [cutAtGap]
      rcases List.mem_cons.mp h with rfl | h
      · exact .inr (.inl rfl)
      · rcases List.mem_cons.mp h with rfl | h
        · exact .inr (.inl rfl)
        · exact .inr (.inr ⟨rest, rfl, h⟩)
  | case2 d rest hgap _ _ _ ih =>
      rw [cutAtGap]
      · rcases List.mem_cons.mp h with rfl | h
        · exact .inl List.mem_cons_self
        · exact (ih h).imp_left (List.mem_cons_of_mem _)
      · exact hgap
  | case3 => cases h

theorem exists_mem_colonParts {cs : List Char} {c : Char} (h : c ∈ cs) :
    c = ':' ∨ ∃ part ∈ colonParts cs, c ∈ part := by
  unfold colonParts
  cases cs with
  | nil => cases h
  | cons d ds => exact Text.exists_mem_split ':' h

/-- An IPv6 address is written with hexadecimal digits, colons and dots. -/
theorem isAddressChar_of_ipv6? {cs : List Char} {ps : List Nat} (h : ipv6? cs = some ps) :
    ∀ c ∈ cs, isAddressChar c = true := by
  intro c hc
  have hcut := mem_cutAtGap hc
  unfold ipv6? at h
  split at h
  · next all hgap =>
    rw [hgap] at hcut
    obtain ⟨qs, hpieces, -⟩ := Option.bind_eq_some_iff.mp h
    rcases hcut with hall | rfl | ⟨after, hafter, -⟩
    · rcases Text.exists_mem_split ':' hall with rfl | ⟨part, hpart, hc⟩
      · rfl
      · exact isAddressChar_of_pieces? hpieces part hpart c hc
    · rfl
    · cases hafter
  · next before after hgap =>
    rw [hgap] at hcut
    obtain ⟨front, hfront, hrest⟩ := Option.bind_eq_some_iff.mp h
    obtain ⟨back, hback, -⟩ := Option.bind_eq_some_iff.mp hrest
    rcases hcut with hbefore | rfl | ⟨after', hafter, hc⟩
    · rcases exists_mem_colonParts hbefore with rfl | ⟨part, hpart, hc⟩
      · rfl
      · exact isAddressChar_of_pieces? hfront part hpart c hc
    · rfl
    · cases hafter
      rcases exists_mem_colonParts hc with rfl | ⟨part, hpart, hc⟩
      · rfl
      · exact isAddressChar_of_pieces? hback part hpart c hc

/-! ### Domains and texts -/

/-- An ASCII character that is not part of a code stands for its own byte. -/
theorem mem_decodeBytes {cs : List Char} {c : Char} (h : c ∈ cs) (hc : c.toNat < 128) :
    c = '%' ∨ (Bytes.hexValue? c).isSome = true ∨ c.val.toUInt8 ∈ decodeBytes cs := by
  induction cs using decodeBytes.induct with
  | case1 a b rest hi lo hb ha ih =>
      rw [decodeBytes, ha, hb]
      simp only [List.mem_cons] at h
      rcases h with rfl | rfl | rfl | h
      · exact .inl rfl
      · exact .inr (.inl (by rw [ha]; rfl))
      · exact .inr (.inl (by rw [hb]; rfl))
      · exact (ih h).imp_right fun h => h.imp_right (List.mem_cons_of_mem _)
  | case2 a b rest hcode ih =>
      have hdecode : decodeBytes ('%' :: a :: b :: rest) =
          0x25 :: decodeBytes (a :: b :: rest) := by
        rw [decodeBytes]
        split
        · next hi lo ha hb => exact absurd hb (hcode hi lo ha)
        · rfl
      rw [hdecode]
      rcases List.mem_cons.mp h with rfl | h
      · exact .inl rfl
      · exact (ih h).imp_right fun h => h.imp_right (List.mem_cons_of_mem _)
  | case3 d rest hcode ih =>
      rw [decodeBytes]
      · rcases List.mem_cons.mp h with rfl | h
        · have hsize : c.utf8Size = 1 := Char.utf8Size_eq_one_iff.mpr (by
            have hval : c.val.toNat < 128 := hc
            rw [UInt32.le_iff_toNat_le]
            exact Nat.le_of_lt_succ hval)
          rw [String.utf8EncodeChar_eq_singleton hsize]
          exact .inr (.inr (List.mem_append_left _ (List.mem_singleton_self _)))
        · exact (ih h).imp_right fun h => h.imp_right (List.mem_append_right _)
      · exact hcode
  | case4 => cases h

theorem isForbiddenInDomain_ascii : ∀ n : Fin 128, isForbiddenInDomain (Char.ofNat n) = true →
    Bytes.hexValue? (Char.ofNat n) = none ∧
      (Char.ofNat (Char.ofNat n).val.toUInt8.toNat).toLower = Char.ofNat n := by
  decide

/-- Nothing but a percent sign stands in the text of a domain that may not stand in the domain. -/
theorem isForbiddenInDomain_of_read {cs : List Char} {h : Host} (hread : read cs = .ok h)
    (hhead : cs.head? ≠ some '[') : ∀ c ∈ cs, c = '%' ∨ isForbiddenInDomain c = false := by
  intro c hc
  by_contra hother
  rw [not_or, Bool.not_eq_false] at hother
  have hascii := toNat_lt_of_isForbiddenInDomain hother.2
  obtain ⟨hhex, hlower⟩ := of_ascii (p := fun c => isForbiddenInDomain c = true →
    Bytes.hexValue? c = none ∧ (Char.ofNat c.val.toUInt8.toNat).toLower = c)
    isForbiddenInDomain_ascii hascii hother.2
  rcases mem_decodeBytes hc hascii with hpercent | hhex' | hbyte
  · exact hother.1 hpercent
  · rw [hhex] at hhex'
    cases hhex'
  · unfold read at hread
    rw [if_neg hhead] at hread
    dsimp only at hread
    split at hread
    · cases hread
    · rw [if_pos] at hread
      · cases hread
      · rw [List.any_map, List.any_eq_true]
        exact ⟨_, hbyte, by simpa only [Function.comp_apply, hlower] using hother.2⟩

end Host

/-! ### Texts of hosts -/

/-- The text has no character at which a host ends, unless it stands in brackets, or which counts
for nothing. -/
inductive IsHostText : List Char → Prop
  | plain {cs : List Char} (ne : cs ≠ []) (free : ∀ c ∈ cs, isHostBound c = false) :
      IsHostText cs
  | bracketed {cs : List Char} (free : ∀ c ∈ cs, c = ':' ∨ isHostBound c = false) :
      IsHostText ('[' :: (cs ++ [']']))

theorem isHostBound_of_isAddressChar {c : Char} (h : Host.isAddressChar c = true) :
    c = ':' ∨ isHostBound c = false := by
  by_contra hother
  rw [not_or, Bool.not_eq_false] at hother
  have hbound := hother.2
  simp only [isHostBound, isBound, List.contains_eq_mem, List.mem_cons, List.not_mem_nil,
    Bool.or_eq_true, decide_eq_true_eq, or_false] at hbound
  rcases hbound with (rfl | rfl | rfl | rfl | rfl | rfl | rfl | rfl) | rfl | rfl | rfl
  all_goals first | exact hother.1 rfl | cases h

theorem exists_of_readBracketed {cs : List Char} {h : Host} (hhead : cs.head? = some '[')
    (hread : Host.readBracketed cs = .ok h) :
    ∃ ds, cs = '[' :: (ds ++ [']']) ∧ ∀ c ∈ ds, Host.isAddressChar c = true := by
  unfold Host.readBracketed at hread
  split at hread
  · next hlast =>
    split at hread
    · next ps hps =>
      cases cs with
      | nil => cases hhead
      | cons c cs =>
          cases hhead
          rw [List.drop_one, List.tail_cons] at hps
          have hne : cs ≠ [] := fun hnil => by
            rw [hnil] at hlast
            cases hlast
          rw [List.getLast?_cons_of_ne_nil hne] at hlast
          refine ⟨cs.dropLast, ?_, Host.isAddressChar_of_ipv6? hps⟩
          rw [List.dropLast_append_getLast? _ hlast]
    · cases hread
  · cases hread

theorem isHostText_of_readBracketed {cs : List Char} {h : Host} (hhead : cs.head? = some '[')
    (hread : Host.readBracketed cs = .ok h) : IsHostText cs := by
  obtain ⟨ds, rfl, hchars⟩ := exists_of_readBracketed hhead hread
  exact .bracketed fun c hc => isHostBound_of_isAddressChar (hchars c hc)

theorem isHostText_of_read {cs : List Char} {h : Host} (hread : Host.read cs = .ok h) :
    IsHostText cs := by
  by_cases hhead : cs.head? = some '['
  · rw [Host.read, if_pos hhead] at hread
    exact isHostText_of_readBracketed hhead hread
  · refine .plain (fun hnil => ?_) fun c hc => ?_
    · subst hnil
      cases hread
    · have hallowed := Host.isForbiddenInDomain_of_read hread hhead c hc
      by_contra hbound
      rw [Bool.not_eq_false] at hbound
      rcases hallowed with rfl | hallowed
      · cases hbound
      · rw [isForbiddenInDomain_of_isHostBound hbound] at hallowed
        cases hallowed

theorem isAddressChar_ascii : ∀ n : Fin 128, isEdge (Char.ofNat n) = true →
    Host.isAddressChar (Char.ofNat n) = false := by
  decide

/-- No control and no space stands in the text of a domain or an address. -/
theorem isEdge_of_read {cs : List Char} {h : Host} (hread : Host.read cs = .ok h) :
    ∀ c ∈ cs, isEdge c = false := by
  intro c hc
  by_contra hedge
  rw [Bool.not_eq_false] at hedge
  have hle : c.toNat ≤ 0x20 := by simpa [isEdge] using hedge
  by_cases hhead : cs.head? = some '['
  · rw [Host.read, if_pos hhead] at hread
    obtain ⟨ds, rfl, hchars⟩ := exists_of_readBracketed hhead hread
    rcases List.mem_cons.mp hc with rfl | hc
    · cases hedge
    · rcases List.mem_append.mp hc with hc | hc
      · have hno := of_ascii (p := fun c => isEdge c = true → Host.isAddressChar c = false)
          isAddressChar_ascii (by omega) hedge
        rw [hchars c hc] at hno
        cases hno
      · obtain rfl := List.mem_singleton.mp hc
        cases hedge
  · rcases Host.isForbiddenInDomain_of_read hread hhead c hc with rfl | hallowed
    · cases hedge
    · simp [Host.isForbiddenInDomain, hle] at hallowed

theorem isHostText_of_readText {cs : List Char} {h : Host} (hne : cs ≠ [])
    (hread : Host.readText cs = .ok h) : IsHostText cs := by
  unfold Host.readText at hread
  split at hread
  · next hhead => exact isHostText_of_readBracketed hhead hread
  · split at hread
    · cases hread
    · next hallowed =>
      refine .plain hne fun c hc => ?_
      by_contra hbound
      rw [Bool.not_eq_false] at hbound
      exact hallowed (List.any_eq_true.mpr ⟨c, hc, isForbiddenInText_of_isHostBound hbound⟩)

end ServiceRegistry.Url
