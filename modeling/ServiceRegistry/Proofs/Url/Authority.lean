import ServiceRegistry.Proofs.Url.Hosts

/-! # URLs put together from a scheme, a host and a port

A text of a scheme, two slashes, the text of a host, perhaps a port and perhaps more after a slash
reads as a URL of just that scheme, host and port with no user (`Url.exists_parse_eq_ok`), unless
the scheme is `file`: then the host and the port are read as one host, which there is not
(`Url.exists_parse_eq_error`). -/

namespace ServiceRegistry.Url

variable {kind : SchemeKind} {s text : String} {H A T cs ds : List Char} {h : Host}
  {port : Option Nat}

/-! ### Schemes -/

/-- A letter, and then letters, digits and three signs. -/
def IsScheme (s : String) : Prop :=
  s.toList.head?.any Char.isAlpha = true ∧ ∀ c ∈ s.toList, isSchemeChar c = true

instance (s : String) : Decidable (IsScheme s) :=
  @instDecidableAnd _ _ inferInstance (List.decidableBAll _ _)

theorem toLower_of_not_ascii {c : Char} (hc : ¬c.toNat < 128) : c.toLower = c := by
  have hval : ¬c.val.toNat < 128 := hc
  unfold Char.toLower
  refine dif_neg fun hupper => hval ?_
  have hle : c.val.toNat ≤ 'Z'.val.toNat := UInt32.le_iff_toNat_le.mp hupper.2
  exact Nat.lt_of_le_of_lt hle (by decide)

theorem isSchemeChar_toLower (c : Char) : isSchemeChar c.toLower = isSchemeChar c := by
  by_cases hc : c.toNat < 128
  · exact of_ascii (p := fun c => isSchemeChar c.toLower = isSchemeChar c) (by decide) hc
  · rw [toLower_of_not_ascii hc]

theorem isAlpha_toLower (c : Char) : c.toLower.isAlpha = c.isAlpha := by
  by_cases hc : c.toNat < 128
  · exact of_ascii (p := fun c => c.toLower.isAlpha = c.isAlpha) (by decide) hc
  · rw [toLower_of_not_ascii hc]

theorem toLower_eq (s : String) : s.toLower = .ofList (s.toList.map Char.toLower) := by
  rw [← String.toList_inj, String.toList_ofList]
  exact String.toList_map

theorem isScheme_toLower_iff : IsScheme s.toLower ↔ IsScheme s := by
  unfold IsScheme
  simp only [toLower_eq, String.toList_ofList, List.head?_map, Option.any_map,
    List.forall_mem_map, isAlpha_toLower, isSchemeChar_toLower]

theorem isSchemeChar_ascii : ∀ n : Fin 128, isSchemeChar (Char.ofNat n) = true →
    isBound (Char.ofNat n) = false ∧ Char.ofNat n ≠ ':' ∧ isEdge (Char.ofNat n) = false := by
  decide

theorem toNat_lt_of_isSchemeChar {c : Char} (hc : isSchemeChar c = true) : c.toNat < 128 := by
  simp only [isSchemeChar, Bool.or_eq_true, beq_iff_eq] at hc
  rcases hc with ((hc | rfl) | rfl) | rfl
  · unfold Char.isAlphanum Char.isAlpha Char.isUpper Char.isLower Char.isDigit at hc
    simp only [Bool.or_eq_true, Bool.and_eq_true, decide_eq_true_eq, UInt32.le_iff_toNat_le,
      ge_iff_le] at hc
    have : c.toNat = c.val.toNat := rfl
    have : 'Z'.val.toNat = 90 := rfl
    have : 'z'.val.toNat = 122 := rfl
    have : '9'.val.toNat = 57 := rfl
    omega
  all_goals decide

theorem of_isSchemeChar {c : Char} (hc : isSchemeChar c = true) :
    isBound c = false ∧ c ≠ ':' ∧ isEdge c = false :=
  of_ascii (p := fun c => isSchemeChar c = true → isBound c = false ∧ c ≠ ':' ∧ isEdge c = false)
    isSchemeChar_ascii (toNat_lt_of_isSchemeChar hc) hc

namespace IsScheme

theorem exists_cons (hs : IsScheme s) : ∃ c cs, s.toList = c :: cs ∧ c.isAlpha = true := by
  obtain ⟨halpha, -⟩ := hs
  cases hlist : s.toList with
  | nil => simp [hlist] at halpha
  | cons c cs => exact ⟨c, cs, rfl, by simpa [hlist] using halpha⟩

/-- A scheme is read up to its colon. -/
theorem cutScheme? (hs : IsScheme s) (rest : List Char) :
    Url.cutScheme? (s.toList ++ ':' :: rest) = some (s.toLower, rest) := by
  have htake : (s.toList ++ ':' :: rest).takeWhile isSchemeChar = s.toList := by
    rw [List.takeWhile_append_of_pos hs.2]
    simp [isSchemeChar]
  have hdrop : (s.toList ++ ':' :: rest).dropWhile isSchemeChar = ':' :: rest := by
    rw [List.dropWhile_append_of_pos hs.2]
    simp [isSchemeChar]
  obtain ⟨c, cs, hlist, halpha⟩ := hs.exists_cons
  unfold Url.cutScheme?
  rw [htake, hdrop, ← toLower_eq]
  simp [hlist, halpha]

end IsScheme

theorem isScheme_of_cutScheme? {rest : List Char} (hcut : cutScheme? cs = some (s, rest)) :
    IsScheme s := by
  unfold cutScheme? at hcut
  split at hcut
  · cases hcut
  · next c cs =>
    split at hcut
    · cases hcut
    · next halpha =>
      split at hcut
      · cases hcut
        rw [Bool.not_eq_true, Bool.not_eq_false'] at halpha
        have hscheme : isSchemeChar c = true := by simp [isSchemeChar, Char.isAlphanum, halpha]
        refine ⟨?_, fun d hd => ?_⟩
        · rw [String.toList_ofList, List.takeWhile_cons_of_pos hscheme]
          exact (isAlpha_toLower c).trans halpha
        · rw [String.toList_ofList] at hd
          obtain ⟨e, he, rfl⟩ := List.mem_map.mp hd
          rw [isSchemeChar_toLower]
          exact List.all_eq_true.mp List.all_takeWhile e he
      · cases hcut

/-! ### What follows an authority -/

/-- What follows is nothing, or it begins with a slash. -/
def AtSlash (cs : List Char) : Prop := ∀ c ∈ cs.head?, c = '/'

namespace AtSlash

theorem of_prefix (hcs : AtSlash cs) (hds : ds <+: cs) : AtSlash ds := by
  obtain ⟨rest, rfl⟩ := hds
  cases ds with
  | nil => exact fun c hc => by cases hc
  | cons d ds => exact hcs

theorem dropGaps (hcs : AtSlash cs) : AtSlash (dropGaps cs) := by
  cases cs with
  | nil => exact hcs
  | cons c cs =>
      obtain rfl := hcs c rfl
      exact hcs

theorem takeWhile_eq_nil (hcs : AtSlash cs) : (cs.takeWhile fun c => !isSlash kind c) = [] := by
  cases cs with
  | nil => rfl
  | cons c cs =>
      obtain rfl := hcs c rfl
      simp [isSlash]

end AtSlash

theorem isSlash_of_isBound {c : Char} (hc : isBound c = false) : isSlash kind c = false := by
  by_contra hslash
  rw [Bool.not_eq_false, isSlash, Bool.or_eq_true, Bool.and_eq_true, beq_iff_eq, beq_iff_eq]
    at hslash
  rcases hslash with rfl | ⟨-, rfl⟩ <;> cases hc

theorem dropGaps_of_isBound (hA : ∀ c ∈ A, isBound c = false) : dropGaps A = A := by
  refine List.filter_eq_self.mpr fun c hc => ?_
  have hbound := hA c hc
  simp only [isBound, List.contains_eq_mem, List.mem_cons, decide_eq_false_iff_not, not_or]
    at hbound
  simp [isGap, hbound]

theorem dropGaps_append (hA : ∀ c ∈ A, isBound c = false) (cs : List Char) :
    dropGaps (A ++ cs) = A ++ dropGaps cs := by
  rw [dropGaps, List.filter_append, ← dropGaps, ← dropGaps, dropGaps_of_isBound hA]

/-- Only what follows is trimmed off at the end. -/
theorem trim_append (hne : cs ≠ []) (hhead : ∀ c ∈ cs.head?, isEdge c = false)
    (hlast : ∀ c ∈ cs.getLast?, isEdge c = false) (ds : List Char) :
    ∃ rest, rest <+: ds ∧ trim (cs ++ ds) = cs ++ rest := by
  have hfront : (cs ++ ds).dropWhile isEdge = cs ++ ds := by
    cases cs with
    | nil => exact absurd rfl hne
    | cons c cs => simp [hhead c rfl]
  have hback : cs.reverse.dropWhile isEdge = cs.reverse := by
    cases hrev : cs.reverse with
    | nil => rfl
    | cons c rest =>
        have hc : c ∈ cs.getLast? := by rw [← List.head?_reverse, hrev]; rfl
        simp [hlast c hc]
  refine ⟨(ds.reverse.dropWhile isEdge).reverse, ?_, ?_⟩
  · have hsuffix := List.dropWhile_suffix (p := isEdge) (l := ds.reverse)
    simpa using List.reverse_prefix.mpr hsuffix
  · rw [trim, hfront, List.reverse_append, List.dropWhile_append]
    split
    · next hempty =>
      rw [List.isEmpty_iff.mp hempty, hback, List.reverse_reverse, List.reverse_nil,
        List.append_nil]
    · rw [List.reverse_append, List.reverse_reverse]

/-- The scheme is read off, and the query and the fragment are cut off what follows. -/
theorem exists_parse_eq (hs : IsScheme s) (hne : A ≠ []) (hA : ∀ c ∈ A, isBound c = false)
    (hlast : ∀ c ∈ A.getLast?, isEdge c = false) (hT : AtSlash T)
    (htext : text.toList = s.toList ++ ':' :: '/' :: '/' :: (A ++ T)) :
    ∃ rest tail, AtSlash rest ∧ parse text =
      if .of s.toLower = SchemeKind.file then readFile tail ('/' :: '/' :: (A ++ rest))
      else readAuthority s.toLower (.of s.toLower) tail (A ++ rest) := by
  have hcolon : ∀ c ∈ s.toList, (decide (c ≠ ':')) = true := fun c hc => by
    simpa using (of_isSchemeChar (hs.2 c hc)).2.1
  have hsfree : ∀ c ∈ s.toList, isBound c = false := fun c hc => (of_isSchemeChar (hs.2 c hc)).1
  -- Trimming takes something off what follows the authority, and nothing else.
  obtain ⟨T₁, hT₁, htrim⟩ : ∃ rest, rest <+: T ∧
      trim text.toList = s.toList ++ ':' :: '/' :: '/' :: (A ++ rest) := by
    have hcons : ∀ rest, s.toList ++ ':' :: '/' :: '/' :: (A ++ rest) =
        (s.toList ++ ':' :: '/' :: '/' :: A) ++ rest := by simp
    simp only [htext, hcons]
    obtain ⟨c, cs, hlist, -⟩ := hs.exists_cons
    refine trim_append (by simp) (fun d hd => ?_) (fun d hd => hlast d ?_) T
    · rw [hlist] at hd
      cases hd
      exact (of_isSchemeChar (hs.2 c (by simp [hlist]))).2.2
    · have hsame : (s.toList ++ ':' :: '/' :: '/' :: A) = (s.toList ++ [':', '/', '/']) ++ A := by
        simp
      rwa [hsame, List.getLast?_append_of_ne_nil _ hne] at hd
  have hfront : ∀ c, isBound c = true → c ≠ '/' → c ∉ '/' :: '/' :: A := by
    intro c hc hslash hmem
    simp only [List.mem_cons, hslash, false_or] at hmem
    exact absurd (hA c hmem) (by simp [hc])
  have hscheme : cutScheme? (dropGaps (trim text.toList)) =
      some (s.toLower, dropGaps ('/' :: '/' :: (A ++ T₁))) := by
    rw [htrim, dropGaps_append hsfree]
    exact hs.cutScheme? _
  have hgaps : ∀ rest, dropGaps ('/' :: '/' :: A ++ rest) = '/' :: '/' :: (A ++ dropGaps rest) :=
    fun rest => congrArg (fun cs => '/' :: '/' :: cs) (dropGaps_append hA rest)
  have hdrop : ((trim text.toList).dropWhile (· ≠ ':')).drop 1 = ('/' :: '/' :: A) ++ T₁ := by
    rw [htrim, List.dropWhile_append_of_pos hcolon]
    rfl
  have hT₂ : (Text.cut '#' T₁).1 <+: T := by
    rw [Text.fst_cut]
    exact (List.takeWhile_prefix _).trans hT₁
  have hT₃ : (Text.cut '?' (Text.cut '#' T₁).1).1 <+: T := by
    rw [Text.fst_cut]
    exact (List.takeWhile_prefix _).trans hT₂
  unfold parse
  dsimp only
  rw [hscheme]
  dsimp only
  rw [hdrop, Text.cut_append_left '#' (hfront '#' rfl (by decide))]
  dsimp only
  rw [Text.cut_append_left '?' (hfront '?' rfl (by decide))]
  dsimp only
  rw [hgaps]
  have hslashes : ∀ rest, ('/' :: '/' :: (A ++ rest)).dropWhile (isSlash .special) = A ++ rest := by
    intro rest
    cases A with
    | nil => exact absurd rfl hne
    | cons c A =>
        have hc : ¬isSlash .special c = true := by
          rw [isSlash_of_isBound (hA c List.mem_cons_self)]
          exact Bool.false_ne_true
        exact List.dropWhile_cons_of_neg hc
  cases SchemeKind.of s.toLower with
  | file => exact ⟨_, _, hT.of_prefix hT₃, (if_pos rfl).symm⟩
  | special =>
      exact ⟨_, _, (hT.of_prefix hT₃).dropGaps,
        (congrArg (readAuthority _ _ _) (hslashes _)).trans (if_neg (by decide)).symm⟩
  | other => exact ⟨_, _, (hT.of_prefix hT₃).dropGaps, (if_neg (by decide)).symm⟩

/-! ### Reading the authority -/

/-- The text of a port after its colon, if there is one. -/
def portText : Option Nat → List Char
  | some p => ':' :: Nat.toDigits 10 p
  | none => []

/-- Read a host on its own, for a kind of schemes. -/
def readHost (kind : SchemeKind) (cs : List Char) : Except Error Host :=
  if kind.isSpecial then Host.read cs else Host.readText cs

theorem isHostText_of_readHost (hne : H ≠ []) (hread : readHost kind H = .ok h) :
    IsHostText H := by
  unfold readHost at hread
  split at hread
  · exact isHostText_of_read hread
  · exact isHostText_of_readText hne hread

theorem isBound_of_isHostText (hH : IsHostText H) : ∀ c ∈ H, isBound c = false := by
  have hbound : ∀ c, isHostBound c = false → isBound c = false := fun c hc => by
    simp only [isHostBound, Bool.or_eq_false_iff] at hc
    exact hc.1
  cases hH with
  | plain ne free => exact fun c hc => hbound c (free c hc)
  | bracketed free =>
      intro c hc
      simp only [List.mem_cons, List.mem_append, List.not_mem_nil, or_false] at hc
      rcases hc with rfl | hc | rfl
      · rfl
      · rcases free c hc with rfl | hc
        · rfl
        · exact hbound c hc
      · rfl

theorem isDigit_of_mem_portText {p : Nat} {c : Char} (hc : c ∈ Nat.toDigits 10 p) :
    c.isDigit = true := Nat.isDigit_of_mem_toDigits (by decide) (by decide) hc

theorem of_isDigit {c : Char} (hc : c.isDigit = true) : isBound c = false ∧ isEdge c = false := by
  have hscheme : isSchemeChar c = true := by simp [isSchemeChar, Char.isAlphanum, hc]
  exact ⟨(of_isSchemeChar hscheme).1, (of_isSchemeChar hscheme).2.2⟩

theorem isBound_of_mem_portText : ∀ c ∈ portText port, isBound c = false := by
  intro c hc
  cases port with
  | none => cases hc
  | some p =>
      rcases List.mem_cons.mp hc with rfl | hc
      · rfl
      · exact (of_isDigit (isDigit_of_mem_portText hc)).1

theorem isBound_of_mem_authority (hH : IsHostText H) :
    ∀ c ∈ H ++ portText port, isBound c = false := fun c hc =>
  (List.mem_append.mp hc).elim (isBound_of_isHostText hH c) (isBound_of_mem_portText c)

/-- The host ends at a colon or a slash outside brackets. -/
theorem cutHost_append (hH : IsHostText H) {rest : List Char}
    (hrest : ∀ c ∈ rest.head?, c = ':' ∨ c = '/') : cutHost kind false (H ++ rest) = (H, rest) := by
  have hend : cutHost kind false rest = ([], rest) := by
    cases rest with
    | nil => rfl
    | cons c rest =>
        rcases hrest c rfl with rfl | rfl
        · simp [cutHost]
        · simp [cutHost, isSlash]
  have hslash : ∀ c, isHostBound c = false → isSlash kind c = false ∧ c ≠ ':' ∧ c ≠ '[' ∧
      c ≠ ']' := by
    intro c hc
    simp only [isHostBound, Bool.or_eq_false_iff] at hc
    exact ⟨isSlash_of_isBound hc.1, by simpa using hc.2⟩
  cases hH with
  | plain ne free =>
      clear ne
      induction H with
      | nil => exact hend
      | cons c H ih =>
          obtain ⟨hc, hcolon, hopen, hclose⟩ := hslash c (free c List.mem_cons_self)
          have hrest := ih fun d hd => free d (List.mem_cons_of_mem _ hd)
          simp [cutHost, hc, hcolon, hopen, hclose, hrest]
  | @bracketed H free =>
      have hinside : cutHost kind true (H ++ ']' :: rest) = (H ++ [']'], rest) := by
        induction H with
        | nil => simp [cutHost, isSlash, hend]
        | cons c H ih =>
            have hrest := ih fun d hd => free d (List.mem_cons_of_mem _ hd)
            rcases free c List.mem_cons_self with rfl | hc
            · simp [cutHost, isSlash, hrest]
            · obtain ⟨hc, hcolon, hopen, hclose⟩ := hslash c hc
              simp [cutHost, hc, hopen, hclose, hrest]
      simp [cutHost, isSlash, hinside]

/-- Digits are read as the number that they stand for. -/
theorem readPort_append (hT : AtSlash T) {value : Nat} (hvalue : port.getD 0 = value)
    (hds : ∀ c ∈ ds, c.isDigit = true) (hle : Nat.ofDigitChars 10 ds value ≤ 65535) :
    readPort port (ds ++ T) =
      .ok (if ds = [] then port else some (Nat.ofDigitChars 10 ds value), T) := by
  induction ds generalizing port value with
  | nil =>
      cases T with
      | nil => rfl
      | cons c T =>
          obtain rfl := hT c rfl
          rfl
  | cons c ds ih =>
      have hc := hds c List.mem_cons_self
      have hsmall : value * 10 + (c.toNat - '0'.toNat) ≤ 65535 := by
        rw [Nat.ofDigitChars_cons, Nat.ofDigitChars_eq_ofDigitChars_zero] at hle
        have hpow : 1 ≤ 10 ^ ds.length := Nat.one_le_pow _ _ (by decide)
        have hmul := Nat.le_mul_of_pos_left (10 * value + (c.toNat - '0'.toNat)) hpow
        omega
      have hvalue' : (some (value * 10 + (c.toNat - '0'.toNat))).getD 0 =
          value * 10 + (c.toNat - '0'.toNat) := rfl
      have hrest := ih hvalue' (fun d hd => hds d (List.mem_cons_of_mem _ hd))
        (by rwa [Nat.ofDigitChars_cons, Nat.mul_comm] at hle)
      rw [List.cons_append, readPort, if_pos hc, hvalue]
      dsimp only
      rw [if_neg (by omega), hrest, Nat.ofDigitChars_cons, Nat.mul_comm 10 value]
      split
      · next hnil => simp [hnil]
      · simp

theorem cutUser_append (hA : ∀ c ∈ A, isBound c = false) (hT : AtSlash T) :
    cutUser kind (A ++ T) = none := by
  have htake : (A ++ T).takeWhile (fun c => !isSlash kind c) = A := by
    rw [List.takeWhile_append_of_pos fun c hc => by simp [isSlash_of_isBound (hA c hc)],
      hT.takeWhile_eq_nil, List.append_nil]
  have hat : '@' ∉ A := fun hmem => absurd (hA '@' hmem) (by decide)
  unfold cutUser
  dsimp only
  rw [htake, (Text.cutLast_eq_none_iff '@').mpr hat]
  rfl

theorem isEmpty_of_readBracketed (hread : Host.readBracketed H = .ok h) : h.isEmpty = false := by
  unfold Host.readBracketed at hread
  split at hread
  · split at hread
    · cases hread
      rfl
    · cases hread
  · cases hread

theorem isEmpty_of_read (hread : Host.read H = .ok h) : h.isEmpty = false := by
  have hipv4 : ∀ name, (Host.readIpv4 name).map Host.ipv4 = .ok h → h.isEmpty = false := by
    intro name hmap
    cases hname : Host.readIpv4 name with
    | error e => simp [hname, Except.map] at hmap
    | ok n =>
        simp only [hname, Except.map, Except.ok.injEq] at hmap
        rw [← hmap]
        rfl
  unfold Host.read at hread
  split at hread
  · exact isEmpty_of_readBracketed hread
  · dsimp only at hread
    -- All tests but the last, for an address, end in an error or go on.
    iterate 4
      split at hread
      · cases hread
    split at hread
    · exact hipv4 _ hread
    · cases hread
      rfl

/-- A host that was read is the host of something. -/
theorem isEmpty_of_readHost (hne : H ≠ []) (hread : readHost kind H = .ok h) :
    h.isEmpty = false := by
  unfold readHost at hread
  split at hread
  · exact isEmpty_of_read hread
  · unfold Host.readText at hread
    split at hread
    · exact isEmpty_of_readBracketed hread
    · split at hread
      · cases hread
      · cases hread
        obtain ⟨c, cs, rfl⟩ := List.exists_cons_of_ne_nil hne
        have hchar : encodeChar controlSet c ≠ [] := by
          unfold encodeChar
          split
          · obtain ⟨b, hb⟩ := List.exists_mem_of_ne_nil _ (String.utf8EncodeChar_ne_nil (c := c))
            simpa [encodeByte] using ⟨b, hb⟩
          · simp
        simp [Host.isEmpty, encode, hchar]

/-- An authority of a host and perhaps a port. -/
theorem readAuthority_append (hne : H ≠ []) (hread : readHost kind H = .ok h)
    (hport : ∀ p ∈ port, p ≤ 65535) (hT : AtSlash T) (scheme : String) (tail : Tail) :
    readAuthority scheme kind tail (H ++ portText port ++ T) = .ok
      { scheme, host := some h, port := if port = defaultPort? scheme then none else port
        path := readPath kind T, query := tail.query, fragment := tail.fragment } := by
  have hH := isHostText_of_readHost hne hread
  have hrest : ∀ c ∈ (portText port ++ T).head?, c = ':' ∨ c = '/' := by
    cases port with
    | none => exact fun c hc => .inr (hT c hc)
    | some p =>
        intro c hc
        cases hc
        exact .inl rfl
  have hempty := isEmpty_of_readHost hne hread
  have hdigits : ∀ p ∈ port, readPort none (Nat.toDigits 10 p ++ T) = .ok (some p, T) := by
    intro p hp
    have hvalue : Nat.ofDigitChars 10 (Nat.toDigits 10 p) 0 = p := Nat.ofDigitChars_ten_toDigits
    rw [readPort_append hT rfl (fun c hc => isDigit_of_mem_portText hc)
      (by rw [Option.getD_none, hvalue]; exact hport p hp), if_neg Nat.toDigits_ne_nil,
      Option.getD_none, hvalue]
  have hhost : H.isEmpty = false := List.isEmpty_eq_false_iff.mpr hne
  unfold readAuthority
  rw [cutUser_append (isBound_of_mem_authority hH) hT, List.append_assoc]
  simp only [pure_bind, cutHost_append hH hrest, hhost, Bool.and_false, Bool.false_eq_true,
    if_false]
  have hchoice : (if kind.isSpecial then Host.read H else Host.readText H) = .ok h := hread
  split at hchoice
  all_goals
    next hspecial =>
      simp only [hspecial, if_true, if_false, hchoice, bind, Except.bind, hempty, Bool.false_and,
        Bool.false_eq_true]
      cases port with
      | some p =>
          simp only [portText, List.cons_append, hdigits p rfl]
          rfl
      | none =>
          cases T with
          | nil => rfl
          | cons c T =>
              obtain rfl := hT c rfl
              rfl

/-! ### Whole URLs -/

/-- A text of a scheme, a host, perhaps a port and perhaps more after a slash. -/
structure IsAddressOf (text s : String) (H : List Char) (port : Option Nat) : Prop where
  scheme : IsScheme s
  ne : H ≠ []
  le : ∀ p ∈ port, p ≤ 65535
  text_eq : ∃ T, AtSlash T ∧
    text.toList = s.toList ++ ':' :: '/' :: '/' :: (H ++ portText port ++ T)

/-- The end of the authority is not trimmed off. -/
theorem isEdge_of_mem_getLast? (hread : readHost kind H = .ok h)
    (hport : port = none → kind.isSpecial = true) :
    ∀ c ∈ (H ++ portText port).getLast?, isEdge c = false := by
  intro c hc
  cases port with
  | some p =>
      have hne : portText (some p) ≠ [] := List.cons_ne_nil _ _
      rw [List.getLast?_append_of_ne_nil _ hne, portText,
        List.getLast?_cons_of_ne_nil Nat.toDigits_ne_nil] at hc
      exact (of_isDigit (isDigit_of_mem_portText (List.mem_of_mem_getLast? hc))).2
  | none =>
      rw [portText, List.append_nil] at hc
      rw [readHost, if_pos (hport rfl)] at hread
      exact isEdge_of_read hread c (List.mem_of_mem_getLast? hc)

theorem exists_parse_eq_ok (ha : IsAddressOf text s H port)
    (hkind : .of s.toLower ≠ SchemeKind.file) (hread : readHost (.of s.toLower) H = .ok h)
    (hport : port = none → (SchemeKind.of s.toLower).isSpecial = true) :
    ∃ url, parse text = .ok url ∧ url.scheme = s.toLower ∧ url.user = {} ∧ url.host = some h ∧
      url.port = if port = defaultPort? s.toLower then none else port := by
  obtain ⟨T, hT, htext⟩ := ha.text_eq
  obtain ⟨rest, tail, hrest, hparse⟩ := exists_parse_eq ha.scheme
    (List.append_ne_nil_of_left_ne_nil ha.ne _)
    (isBound_of_mem_authority (isHostText_of_readHost ha.ne hread))
    (isEdge_of_mem_getLast? hread hport) hT htext
  rw [if_neg hkind, readAuthority_append ha.ne hread ha.le hrest] at hparse
  exact ⟨_, hparse, rfl, rfl, rfl, rfl⟩

/-- A host with a port after it is no host. -/
theorem exists_read_eq_error (H : List Char) (p : Nat) :
    ∃ cause, Host.read (H ++ portText (some p)) = .error cause := by
  cases hread : Host.read (H ++ portText (some p)) with
  | error cause => exact ⟨cause, rfl⟩
  | ok h =>
      have htext := isHostText_of_read hread
      generalize hA : H ++ portText (some p) = A at htext
      cases htext with
      | plain ne free =>
          have hcolon : ':' ∈ A := by simp [← hA, portText]
          cases free ':' hcolon
      | @bracketed ds free =>
          have hlast : ']' ∈ (H ++ portText (some p)).getLast? := by
            rw [hA, ← List.cons_append, List.getLast?_append_of_ne_nil _ (by simp)]
            rfl
          rw [portText, List.getLast?_append_of_ne_nil _ (List.cons_ne_nil _ _),
            List.getLast?_cons_of_ne_nil Nat.toDigits_ne_nil] at hlast
          cases isDigit_of_mem_portText (List.mem_of_mem_getLast? hlast)

/-- After `file` a host does not end at a colon. -/
theorem exists_parse_eq_error {p : Nat} (ha : IsAddressOf text s H (some p))
    (hkind : .of s.toLower = SchemeKind.file) (hread : readHost kind H = .ok h) :
    ∃ cause, parse text = .error cause := by
  obtain ⟨T, hT, htext⟩ := ha.text_eq
  have hH := isHostText_of_readHost ha.ne hread
  have hbound : ∀ c ∈ H ++ portText (some p), isBound c = false := isBound_of_mem_authority hH
  obtain ⟨rest, tail, hrest, hparse⟩ := exists_parse_eq ha.scheme
    (List.append_ne_nil_of_left_ne_nil ha.ne _)
    hbound (isEdge_of_mem_getLast? hread fun hnone => by cases hnone) hT htext
  rw [if_pos hkind] at hparse
  obtain ⟨cause, herror⟩ := exists_read_eq_error H p
  generalize hA : H ++ portText (some p) = A at hbound herror hparse
  have htake : dropGaps ((A ++ rest).takeWhile fun c => !isSlash .file c) = A := by
    rw [List.takeWhile_append_of_pos fun c hc => by simp [isSlash_of_isBound (hbound c hc)],
      hrest.takeWhile_eq_nil, List.append_nil, dropGaps_of_isBound hbound]
  have hlength : 3 ≤ A.length := by
    have hhost := List.length_pos_iff.mpr ha.ne
    have hdigits := List.length_pos_iff.mpr (Nat.toDigits_ne_nil (n := p) (b := 10))
    rw [← hA, portText, List.length_append, List.length_cons]
    omega
  have hdrive : isDrive A = false := by
    unfold isDrive
    split
    · simp at hlength
    · rfl
  have hempty : A.isEmpty = false := by
    cases A with
    | nil => simp at hlength
    | cons => rfl
  refine ⟨cause, hparse.trans ?_⟩
  have hfirst : ∀ cs, afterSlash? ('/' :: cs) = some cs := fun _ => rfl
  unfold readFile
  simp only [hfirst, htake, hdrive, hempty, herror, Bool.false_eq_true, if_false]
  rfl

/-! ### The scheme of what is read -/

/-- All that can come of a computation has a property. -/
def Yields {ε α : Type} (p : α → Prop) (x : Except ε α) : Prop := ∀ a, x = .ok a → p a

theorem yields_error {ε α : Type} {p : α → Prop} (e : ε) : Yields p (.error e) :=
  fun _ h => by cases h

theorem yields_ok {ε α : Type} {p : α → Prop} {a : α} (h : p a) : Yields p (.ok a : Except ε α) :=
  fun _ heq => by cases heq; exact h

theorem yields_bind {ε α β : Type} {p : β → Prop} {x : Except ε α} {f : α → Except ε β}
    (h : ∀ a, Yields p (f a)) : Yields p (x >>= f) := by
  cases x with
  | error e => exact yields_error e
  | ok a => exact h a

theorem yields_ite {ε α : Type} {p : α → Prop} {c : Prop} [Decidable c] {x y : Except ε α}
    (hx : Yields p x) (hy : Yields p y) : Yields p (if c then x else y) := by
  split
  · exact hx
  · exact hy

/-- Whatever the authority is, the scheme stays. -/
theorem yields_readAuthority (scheme : String) (tail : Tail) (cs : List Char) :
    Yields (·.scheme = scheme) (readAuthority scheme kind tail cs) := by
  unfold readAuthority
  extract_lets ended afterUser
  -- From the inside out: all that is read after a part yields the scheme.
  have huser : ∀ x, Yields (·.scheme = scheme) (afterUser x) := by
    rintro ⟨user, rest⟩
    unfold afterUser
    dsimp -zeta only
    cases cutHost kind false rest
    dsimp -zeta only
    extract_lets afterHost afterText
    have hhost : ∀ host, Yields (·.scheme = scheme) (afterHost host) := by
      intro host
      unfold afterHost
      extract_lets afterPort afterName
      have hport : ∀ x, Yields (·.scheme = scheme) (afterPort x) := fun x =>
        yields_ite (yields_bind fun _ => yields_ok rfl) (yields_ok rfl)
      have hname : ∀ r, Yields (·.scheme = scheme) (afterName r) := by
        intro r
        unfold afterName
        split <;> exact yields_bind hport
      exact yields_ite (yields_bind hname) (hname ())
    have htext : ∀ r, Yields (·.scheme = scheme) (afterText r) := fun r =>
      yields_ite (yields_bind hhost) (yields_bind hhost)
    exact yields_ite (yields_bind htext) (htext ())
  split
  · exact yields_bind huser
  · exact yields_ite (yields_bind fun _ => yields_bind huser) (yields_bind huser)
  · exact yields_bind huser

theorem yields_readFile (tail : Tail) (cs : List Char) :
    Yields (·.scheme = "file") (readFile tail cs) := by
  unfold readFile
  extract_lets url
  split
  · exact yields_ok rfl
  · split
    · exact yields_ok rfl
    · extract_lets hostText path
      exact yields_ite (yields_ok rfl) (yields_ite (yields_ok rfl)
        (yields_bind fun _ => yields_ite (yields_ok rfl) (yields_ok rfl)))

theorem SchemeKind.of_eq_file {scheme : String} (hkind : SchemeKind.of scheme = .file) :
    scheme = "file" := by
  unfold SchemeKind.of at hkind
  split at hkind
  · assumption
  · split at hkind <;> cases hkind

/-- What is read has a scheme that is one. -/
theorem isScheme_of_parse {url : Url} (hparse : parse text = .ok url) : IsScheme url.scheme := by
  unfold parse at hparse
  dsimp only at hparse
  split at hparse
  · cases hparse
  · next scheme rest hcut =>
    have hscheme := isScheme_of_cutScheme? hcut
    suffices hsame : url.scheme = scheme by rwa [hsame]
    split at hparse
    · next hkind =>
      exact (yields_readFile _ _ url hparse).trans (SchemeKind.of_eq_file hkind).symm
    · exact yields_readAuthority _ _ _ url hparse
    · exact yields_readAuthority _ _ _ url hparse
    · cases hparse
      rfl
    · cases hparse
      rfl

end ServiceRegistry.Url
