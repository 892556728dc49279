import ServiceRegistry.Announcing.Publisher
import ServiceRegistry.Proofs.Script.Steps

/-! # What a visit of a publisher asks for

A visit makes nodes of the desired records, and deletes those of the stale names and of the records
that should be removed. It asks for nothing else, whatever the answers are and whatever happens to
the roster in the meantime (`Publisher.keeps_visit`). -/

namespace ServiceRegistry

namespace Publisher

/-! ### Confirmations -/

theorem root_confirm (p : Publisher) (r : Record) (generation : Nat) :
    (p.confirm r generation).root = p.root := by
  unfold confirm
  split <;> rfl

theorem find?_confirm (p : Publisher) (r : Record) (generation : Nat) (name : String) :
    (p.confirm r generation).confirmed.find? name =
      if r.isStatic = false ∧ r.nodeName = name then some generation
      else p.confirmed.find? name := by
  unfold confirm
  cases r.isStatic <;> simp

/-- The publisher after records were confirmed. -/
def confirmAll (p : Publisher) (rs : List Record) (generation : Nat) : Publisher :=
  rs.foldl (fun p r => p.confirm r generation) p

theorem root_confirmAll (p : Publisher) (rs : List Record) (generation : Nat) :
    (p.confirmAll rs generation).root = p.root := by
  induction rs generalizing p with
  | nil => rfl
  | cons r rs ih => exact (ih _).trans (p.root_confirm r generation)

theorem find?_confirmAll (p : Publisher) (rs : List Record) (generation : Nat) (name : String) :
    (p.confirmAll rs generation).confirmed.find? name =
      if ∃ r ∈ rs, r.isStatic = false ∧ r.nodeName = name then some generation
      else p.confirmed.find? name := by
  induction rs generalizing p with
  | nil => simp [confirmAll]
  | cons r rs ih =>
      have hcons : p.confirmAll (r :: rs) generation =
          (p.confirm r generation).confirmAll rs generation := rfl
      rw [hcons, ih, find?_confirm]
      by_cases hrest : ∃ r ∈ rs, r.isStatic = false ∧ r.nodeName = name
      · rw [if_pos hrest, if_pos]
        obtain ⟨r', hr', hname⟩ := hrest
        exact ⟨r', List.mem_cons_of_mem r hr', hname⟩
      · rw [if_neg hrest]
        refine if_congr ?_ rfl rfl
        simp [hrest]

theorem mem_stale_iff {p : Publisher} {generation : Nat} {name : String} :
    name ∈ p.stale generation ↔
      ∃ seen, p.confirmed.find? name = some seen ∧ seen ≠ generation := by
  simp only [stale, Dict.keys, Dict.filter, List.mem_map, List.mem_filter, decide_eq_true_eq,
    Prod.exists]
  constructor
  · rintro ⟨name, seen, ⟨hmem, hne⟩, rfl⟩
    exact ⟨seen, p.confirmed.mem_entries_iff.mp hmem, hne⟩
  · rintro ⟨seen, hfind, hne⟩
    exact ⟨name, seen, ⟨p.confirmed.mem_entries_iff.mpr hfind, hne⟩, rfl⟩

/-- What is stale after records were confirmed: names confirmed before that none of them renews. -/
theorem mem_stale_confirmAll_iff {p : Publisher} {rs : List Record} {generation : Nat}
    {name : String} :
    name ∈ (p.confirmAll rs generation).stale generation ↔
      ∃ seen, p.confirmed.find? name = some seen ∧ seen ≠ generation ∧
        ∀ r ∈ rs, r.nodeName = name → r.isStatic = true := by
  rw [mem_stale_iff, find?_confirmAll]
  by_cases hnew : ∃ r ∈ rs, r.isStatic = false ∧ r.nodeName = name
  · rw [if_pos hnew]
    obtain ⟨r, hr, hs, hname⟩ := hnew
    constructor
    · rintro ⟨seen, hseen, hne⟩
      exact absurd (Option.some.inj hseen).symm hne
    · rintro ⟨-, -, -, hstatic⟩
      exact Bool.noConfusion (hs.symm.trans (hstatic r hr hname))
  · rw [if_neg hnew]
    have hstatic : ∀ r ∈ rs, r.nodeName = name → r.isStatic = true := by
      intro r hr hname
      cases hs : r.isStatic with
      | true => rfl
      | false => exact absurd ⟨r, hr, hs, hname⟩ hnew
    exact exists_congr fun seen => and_congr_right fun _ => (and_iff_left hstatic).symm

/-! ### The parts of a visit -/

/-- What comes after all nodes were made. -/
def afterMaking (p : Publisher) (generation : Nat) :
    Script Roster (Publisher × Except StoreError Unit) := do
  let (p, result) ← sweep (p.stale generation) p
  match result with
  | .error e => return (p, .error e)
  | .ok () => .look fun roster => do
    removeStatic p.root roster.removals
    return (p, .ok ())

/-- What comes after a visit has looked at the roster: it makes the nodes that are missing, and goes
on if none of that failed. -/
def afterLook (p : Publisher) (children : List String) (generation : Nat) (roster : Roster) :
    Script Roster (Publisher × Except StoreError Unit) :=
  (makeMissing children generation roster.desired p).bind fun out =>
    match out.2 with
    | .error e => .done (out.1, .error e)
    | .ok () => out.1.afterMaking generation

theorem visit_eq (p : Publisher) (children : List String) (generation : Nat) :
    p.visit children generation = .look (p.afterLook children generation) := rfl

section Keeping

variable {t : Script.Terms Roster} {inv : Publisher → Prop} {generation : Nat}

theorem keeps_makeMissing (children : List String) {rs : List Record} {p : Publisher} (h : inv p)
    (hconfirm : ∀ q r, r ∈ rs → inv q → inv (q.confirm r generation))
    (hasks : ∀ r ∈ rs, t.asks (.create (Path.child p.root r.nodeName) r.encode (mode r))) :
    (makeMissing children generation rs p).Keeps t fun out =>
      inv out.1 ∧ out.1.root = p.root ∧ (out.2 = .ok () → out.1 = p.confirmAll rs generation) := by
  induction rs generalizing p with
  | nil => exact ⟨h, rfl, fun _ => rfl⟩
  | cons r rs ih =>
      have hroot := p.root_confirm r generation
      have hinv := hconfirm p r (by simp) h
      have hrest : (makeMissing children generation rs (p.confirm r generation)).Keeps t
          fun out => inv out.1 ∧ out.1.root = p.root ∧
            (out.2 = .ok () → out.1 = p.confirmAll (r :: rs) generation) := by
        refine (ih hinv (fun q r' hr' => hconfirm q r' (List.mem_cons_of_mem r hr'))
          fun r' hr' => ?_).mono fun out hout => ⟨hout.1, hout.2.1.trans hroot, hout.2.2⟩
        rw [hroot]
        exact hasks r' (List.mem_cons_of_mem r hr')
      unfold makeMissing
      dsimp only
      split
      · exact hrest
      · refine ⟨?_, fun answer _ => ?_⟩
        · rw [hroot]
          exact hasks r (by simp)
        · cases answer with
          | ok _ => exact hrest
          | error e =>
              dsimp only
              split
              · exact hrest
              · exact ⟨hinv, hroot, fun hok => by cases hok⟩

theorem keeps_sweep {names : List String} {p : Publisher} (h : inv p)
    (herase : ∀ q name, inv q → inv { q with confirmed := q.confirmed.erase name })
    (hasks : ∀ name ∈ names, t.asks (.delete (Path.child p.root name))) :
    (sweep names p).Keeps t fun out => inv out.1 ∧ out.1.root = p.root := by
  induction names generalizing p with
  | nil => exact ⟨h, rfl⟩
  | cons name names ih =>
      have hrest : (sweep names { p with confirmed := p.confirmed.erase name }).Keeps t
          fun out => inv out.1 ∧ out.1.root = p.root :=
        ih (herase p name h) fun n hn => hasks n (List.mem_cons_of_mem name hn)
      refine ⟨hasks name (by simp), fun answer _ => ?_⟩
      cases answer with
      | ok _ => exact hrest
      | error e =>
          dsimp only
          split
          · exact hrest
          · exact ⟨h, rfl⟩

theorem keeps_removeStatic (hremoved : ∀ roster r, t.shared roster →
      t.shared (roster.unqueue r) ∧ t.changes roster (roster.unqueue r)) {root : String}
    {rs : List Record} (hasks : ∀ r ∈ rs, t.asks (.delete (Path.child root r.nodeName))) :
    (removeStatic root rs).Keeps t fun _ => True := by
  induction rs with
  | nil => trivial
  | cons r rs ih =>
      have hrest := ih fun r' hr' => hasks r' (List.mem_cons_of_mem r hr')
      have hremove : (Script.change (·.unqueue r) (removeStatic root rs)).Keeps t fun _ => True :=
        ⟨fun roster h => hremoved roster r h, hrest⟩
      refine ⟨hasks r (by simp), fun answer _ => ?_⟩
      cases answer with
      | ok _ => exact hremove
      | error e =>
          dsimp only
          split
          · exact hremove
          · exact hrest

/-! ### A whole visit -/

theorem keeps_afterMaking (inv : Publisher → Prop) {p : Publisher} (generation : Nat) (h : inv p)
    (herase : ∀ q name, inv q → inv { q with confirmed := q.confirmed.erase name })
    (hsweep : ∀ name ∈ p.stale generation, t.asks (.delete (Path.child p.root name)))
    (hremoved : ∀ roster r, t.shared roster →
      t.shared (roster.unqueue r) ∧ t.changes roster (roster.unqueue r))
    (hremove : ∀ roster, t.shared roster → ∀ r ∈ roster.removals,
      t.asks (.delete (Path.child p.root r.nodeName))) :
    (p.afterMaking generation).Keeps t fun out => inv out.1 := by
  refine Script.keeps_bind ((keeps_sweep h herase hsweep).mono fun out hout => ?_)
  obtain ⟨q, result⟩ := out
  cases result with
  | error e => exact hout.1
  | ok u =>
      refine fun roster hroster => Script.keeps_bind ?_
      refine (keeps_removeStatic hremoved fun r hr => ?_).mono fun _ _ => hout.1
      rw [hout.2]
      exact hremove roster hroster r hr

theorem keeps_afterLook (inv : Publisher → Prop) {p : Publisher} (children : List String)
    (generation : Nat) {roster : Roster} (h : inv p)
    (hconfirm : ∀ q, ∀ r ∈ roster.desired, inv q → inv (q.confirm r generation))
    (herase : ∀ q name, inv q → inv { q with confirmed := q.confirmed.erase name })
    (hmake : ∀ r ∈ roster.desired,
      t.asks (.create (Path.child p.root r.nodeName) r.encode (mode r)))
    (hsweep : ∀ name ∈ (p.confirmAll roster.desired generation).stale generation,
      t.asks (.delete (Path.child p.root name)))
    (hremoved : ∀ roster r, t.shared roster →
      t.shared (roster.unqueue r) ∧ t.changes roster (roster.unqueue r))
    (hremove : ∀ roster, t.shared roster → ∀ r ∈ roster.removals,
      t.asks (.delete (Path.child p.root r.nodeName))) :
    (p.afterLook children generation roster).Keeps t fun out => inv out.1 := by
  refine Script.keeps_bind ((keeps_makeMissing children h hconfirm hmake).mono fun out hout => ?_)
  obtain ⟨q, result⟩ := out
  obtain ⟨hinv, hroot, hall⟩ := hout
  cases result with
  | error e => exact hinv
  | ok u =>
      obtain rfl : q = p.confirmAll roster.desired generation := hall rfl
      refine keeps_afterMaking inv generation hinv herase ?_ hremoved ?_
      · rw [hroot]
        exact hsweep
      · rw [hroot]
        exact hremove

theorem keeps_visit (inv : Publisher → Prop) {p : Publisher} (children : List String)
    (generation : Nat) (h : inv p)
    (hconfirm : ∀ roster, t.shared roster → ∀ q, ∀ r ∈ roster.desired, inv q →
      inv (q.confirm r generation))
    (herase : ∀ q name, inv q → inv { q with confirmed := q.confirmed.erase name })
    (hmake : ∀ roster, t.shared roster → ∀ r ∈ roster.desired,
      t.asks (.create (Path.child p.root r.nodeName) r.encode (mode r)))
    (hsweep : ∀ roster, t.shared roster →
      ∀ name ∈ (p.confirmAll roster.desired generation).stale generation,
        t.asks (.delete (Path.child p.root name)))
    (hremoved : ∀ roster r, t.shared roster →
      t.shared (roster.unqueue r) ∧ t.changes roster (roster.unqueue r))
    (hremove : ∀ roster, t.shared roster → ∀ r ∈ roster.removals,
      t.asks (.delete (Path.child p.root r.nodeName))) :
    (p.visit children generation).Keeps t fun out => inv out.1 := by
  rw [visit_eq]
  exact fun roster hroster => keeps_afterLook inv children generation h (hconfirm roster hroster)
    herase (hmake roster hroster) (hsweep roster hroster) hremoved hremove

end Keeping

end Publisher

end ServiceRegistry
