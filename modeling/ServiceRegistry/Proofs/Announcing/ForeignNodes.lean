import ServiceRegistry.Proofs.Announcing.Replacement
import ServiceRegistry.Proofs.Script.Amid

/-! # Nodes that are not the publisher's

A publisher deletes under names that it remembers from earlier visits, possibly of other sessions,
and under names of records that should be removed. All names that it remembers are those of records
that were desired at one of its visits (`Career.confirms`), so a visit writes to no other node
(`keeps_afterLook_nodes`). Whatever happens to the roster and to other nodes in the meantime, and
however far a visit comes, every node that has none of these names stays what it is
(`visit_leaves_foreign_nodes`). -/

namespace ServiceRegistry

namespace Publisher

open Relation (ReflTransGen)
open Store

variable {root path : String} {wanted wanted' pending : Record → Prop} {p : Publisher} {t : Roster}
  {names : List String} {generation : Nat} {id : SessionId} {looked : List Roster}
  {acts : Store × Roster → Store × Roster → Prop} {c c' : Store × Roster}
  {x : Script Roster (Publisher × Except StoreError Unit)}

/-! ### What a publisher remembers -/

/-- The record was desired when a visit began, which looked at these rosters. -/
def IsDesiredAt (looked : List Roster) (r : Record) : Prop := ∃ t ∈ looked.head?, r ∈ t.desired

/-- The record was to be removed when a visit looked. -/
def IsPendingAt (looked : List Roster) (r : Record) : Prop := ∃ t ∈ looked, r ∈ t.removals

/-- What can become of a publisher: its visits run for any sessions and end well or not, and in
between and meanwhile the store and the roster become whatever they may. The records are those that
were desired when one of its visits began. -/
inductive Career (root : String) : (Record → Prop) → Publisher → Prop
  | start : Career root (fun _ => False) { root }
  | request {wanted : Record → Prop} {p : Publisher} (h : Career root wanted p) (roster : Roster)
      (generation : Nat) : Career root wanted (p.request roster generation).1
  | visit {wanted : Record → Prop} {p q : Publisher} {names : List String} {generation : Nat}
      {acts : Store × Roster → Store × Roster → Prop} {id : SessionId} {c c' : Store × Roster}
      {looked : List Roster} {result : Except StoreError Unit} (h : Career root wanted p)
      (ends : (p.visit names generation).StepsAmid acts id c looked (.done (q, result)) c') :
      Career root (fun r => wanted r ∨ IsDesiredAt looked r) q

theorem Confirms.mono (h : Confirms wanted p) (himp : ∀ r, wanted r → wanted' r) :
    Confirms wanted' p := by
  intro name seen hseen
  obtain ⟨r, hr, hname⟩ := h name seen hseen
  exact ⟨r, himp r hr, hname⟩

/-- The terms of a visit: it makes and deletes nodes of wanted records and of records to be
removed. -/
def nodeTerms (root : String) (wanted pending : Record → Prop) : Script.Terms Roster where
  shared t := ∀ r ∈ t.removals, pending r
  asks r := ∀ path ∈ r.target?, ∃ x, (wanted x ∨ pending x) ∧ path = Path.child root x.nodeName

theorem keeps_afterLook_nodes (names : List String) (generation : Nat) (hp : p.root = root)
    (h : Confirms wanted p) (hdesired : ∀ r ∈ t.desired, wanted r) :
    (p.afterLook names generation t).Keeps (nodeTerms root wanted pending)
      fun out => out.1.root = root ∧ Confirms wanted out.1 := by
  have hwrites : ∀ (r : Request) (x : Record), wanted x ∨ pending x →
      r.target? = some (Path.child p.root x.nodeName) →
      (nodeTerms root wanted pending).asks r := by
    rintro r x hx htarget path hpath
    rw [htarget] at hpath
    obtain rfl := Option.some.inj hpath
    exact ⟨x, hx, by rw [hp]⟩
  refine keeps_afterLook (fun q => q.root = root ∧ Confirms wanted q) names generation ⟨hp, h⟩
    (fun q r hr hq => ?_) (fun q name hq => ⟨hq.1, hq.2.erase name⟩)
    (fun r hr => hwrites _ r (.inl (hdesired r hr)) rfl) (fun name hname => ?_)
    (fun x r hx => ⟨fun r' hr' => ?_, trivial⟩) fun x hx r hr => hwrites _ r (.inr (hx r hr)) rfl
  · exact ⟨(q.root_confirm r generation).trans hq.1, hq.2.confirm (hdesired r hr)⟩
  · obtain ⟨seen, hseen, -⟩ := mem_stale_confirmAll_iff.mp hname
    obtain ⟨x, hx, -, rfl⟩ := h name seen hseen
    exact hwrites _ x (.inl hx) rfl
  · exact hx r' (Roster.mem_drop.mp hr').1

/-- A visit has not begun, or it looked at the roster and goes on within its terms. -/
theorem visit_cases (hp : p.root = root) (h : Confirms wanted p)
    (visits : (p.visit names generation).StepsAmid acts id c looked x c') :
    (x = p.visit names generation ∧ ReflTransGen acts c c') ∨
      ∃ c₁ looked', ∃ rest : Script Roster (Publisher × Except StoreError Unit),
        ReflTransGen acts c c₁ ∧ rest.StepsAmid acts id c₁ looked' x c' ∧
        rest.Keeps (nodeTerms root (fun r => wanted r ∨ IsDesiredAt looked r) (IsPendingAt looked))
          (fun out => out.1.root = root ∧
            Confirms (fun r => wanted r ∨ IsDesiredAt looked r) out.1) ∧
        ∀ t ∈ looked', t ∈ looked := by
  rw [visit_eq] at visits ⊢
  rcases visits.of_look with ⟨hx, -, hdrift⟩ | ⟨⟨s, t⟩, looked', hdrift, rfl, hrest⟩
  · exact .inl ⟨hx, hdrift⟩
  · refine .inr ⟨_, looked', _, hdrift, hrest, ?_, fun t' => List.mem_cons_of_mem t⟩
    exact keeps_afterLook_nodes names generation hp (h.mono fun _ => Or.inl)
      fun r hr => Or.inr ⟨t, rfl, hr⟩

/-- All that a publisher remembers are names of records that were desired at its visits. -/
theorem Career.confirms (h : Career root wanted p) : p.root = root ∧ Confirms wanted p := by
  induction h with
  | start => exact ⟨rfl, fun _ _ hseen => by cases hseen⟩
  | @request _ q _ roster generation ih =>
      obtain ⟨hroot, hconfirms⟩ := ih
      have hsame : (q.request roster generation).1.root = q.root ∧
          (q.request roster generation).1.confirmed = q.confirmed := by
        unfold Publisher.request
        split
        · exact ⟨rfl, rfl⟩
        · exact ⟨rfl, rfl⟩
      refine ⟨hsame.1.trans hroot, fun name seen hseen => hconfirms name seen ?_⟩
      rwa [hsame.2] at hseen
  | visit _ ends ih =>
      rcases visit_cases ih.1 ih.2 ends with ⟨hnot, -⟩ | ⟨_, _, _, -, hrest, hkeeps, hlooked⟩
      · cases hnot
      · exact (hkeeps.stepsAmid (P := fun _ => True) hrest
          (fun t ht r hr => ⟨t, hlooked t ht, hr⟩) (fun _ _ => trivial) (fun _ _ _ _ => trivial)
          (fun _ _ _ _ => trivial) trivial).1

/-! ### What a visit leaves alone -/

/-- However far a visit comes and whatever it is answered, and whatever others do meanwhile to the
roster and to other nodes, every node stays what it is whose path is not that of a record that was
desired at this or an earlier visit of the publisher, or is to be removed at this one. -/
theorem visit_leaves_foreign_nodes (h : Career root wanted p)
    (visits : (p.visit names generation).StepsAmid acts id c looked x c')
    (foreign : ∀ r, wanted r ∨ IsDesiredAt looked r ∨ IsPendingAt looked r →
      path ≠ Path.child root r.nodeName)
    (others : ∀ c₁ c₂, acts c₁ c₂ → c₂.1.nodes.find? path = c₁.1.nodes.find? path) :
    c'.1.nodes.find? path = c.1.nodes.find? path := by
  have hacts : ∀ c₁ c₂, c₁.1.nodes.find? path = c.1.nodes.find? path → acts c₁ c₂ →
      c₂.1.nodes.find? path = c.1.nodes.find? path :=
    fun c₁ c₂ hsame hact => (others c₁ c₂ hact).trans hsame
  rcases visit_cases h.confirms.1 h.confirms.2 visits with
    ⟨-, hdrift⟩ | ⟨c₁, _, _, hdrift, hrest, hkeeps, hlooked⟩
  · exact Script.stable_drift hacts rfl hdrift
  · have hbegun : c₁.1.nodes.find? path = c.1.nodes.find? path :=
      Script.stable_drift hacts rfl hdrift
    refine (hkeeps.stepsAmid (P := fun s => s.nodes.find? path = c.1.nodes.find? path) hrest
      (fun t ht r hr => ⟨t, hlooked t ht, hr⟩) (fun _ _ => trivial) hacts
      (fun s r hasks hsame => ?_) hbegun).2
    refine (s.find?_serve_of_ne id fun hpath => ?_).trans hsame
    obtain ⟨r', hr', hchild⟩ := hasks path hpath
    exact foreign r' (or_assoc.mp hr') hchild

/-- A visit that nobody disturbs sees no records but those of the roster at its beginning. -/
theorem exists_stepsAmid_of_run (acts : Store × Roster → Store × Roster → Prop) {s : Store}
    {now : Nat} {ids : IdSource} {out : Publisher × Except StoreError Unit}
    {scene : Script.Scene Roster}
    (run : (p.visit names generation).run id now ⟨s, t, ids⟩ = (.finished out, scene)) :
    ∃ looked, (p.visit names generation).StepsAmid acts id (s, t) looked (.done out)
        (scene.store, scene.shared) ∧
      ∀ t' ∈ looked, t'.desired = t.desired ∧ ∀ r ∈ t'.removals, r ∈ t.removals := by
  have hkeeps : (p.visit names generation).Keeps
      { shared := fun t' => t'.desired = t.desired ∧ ∀ r ∈ t'.removals, r ∈ t.removals }
      fun _ => True :=
    keeps_visit (fun _ => True) names generation trivial (fun _ _ _ _ _ _ => trivial)
      (fun _ _ _ => trivial) (fun _ _ _ _ => trivial) (fun _ _ _ _ => trivial)
      (fun t' r ht' => ⟨⟨ht'.1, fun r' hr' => ht'.2 r' (Roster.mem_drop.mp hr').1⟩, trivial⟩)
      fun _ _ _ _ => trivial
  exact hkeeps.exists_stepsAmid (Script.steps_run run) ⟨rfl, fun _ hr => hr⟩ fun _ _ => trivial

/-- A directory in which somebody else keeps a node, and a record that is announced. -/
def besideNotes : Season where
  publisher := { root := "/srv" }
  roster := ({} : Roster).announce webRecord
  store := ((({} : Store).put "/srv" []).put "/srv/notes" [1]).perform .connect

/-- The node of the record was made, and the record was withdrawn. -/
def withdrawnBesideNotes : Season :=
  let c := besideNotes.visited "/srv" 1 1
  { c with roster := c.roster.withdraw webRecord }

/-- The next visit deletes the node of the record, and not the other one. -/
theorem visit_leaves_foreign_nodes_of_sweep : ∃ p scene,
    (withdrawnBesideNotes.publisher.visit (withdrawnBesideNotes.store.children "/srv") 2).run 1 0
      ⟨withdrawnBesideNotes.store, withdrawnBesideNotes.roster, {}⟩ =
        (.finished (p, .ok ()), scene) ∧
    scene.store.has (Path.child "/srv" webRecord.nodeName) = false ∧
    scene.store.nodes.find? "/srv/notes" = some ⟨[1], none⟩ := by
  obtain ⟨made, hmade⟩ : ∃ made, (besideNotes.publisher.visit
      (besideNotes.store.children "/srv") 1).run 1 0 ⟨besideNotes.store, besideNotes.roster, {}⟩ =
        (.finished (withdrawnBesideNotes.publisher, .ok ()), made) := ⟨_, rfl⟩
  obtain ⟨p, scene, hrun, hswept⟩ : ∃ p scene,
      (withdrawnBesideNotes.publisher.visit (withdrawnBesideNotes.store.children "/srv") 2).run 1 0
        ⟨withdrawnBesideNotes.store, withdrawnBesideNotes.roster, {}⟩ =
          (.finished (p, .ok ()), scene) ∧
      scene.store.has (Path.child "/srv" webRecord.nodeName) = false := ⟨_, _, rfl, rfl⟩
  obtain ⟨looked₁, hfirst, hlooked₁⟩ := exists_stepsAmid_of_run (fun _ _ => False) hmade
  obtain ⟨looked₂, hsecond, hlooked₂⟩ := exists_stepsAmid_of_run (fun _ _ => False) hrun
  have hforeign : ∀ r, (False ∨ IsDesiredAt looked₁ r) ∨
      IsDesiredAt looked₂ r ∨ IsPendingAt looked₂ r →
      "/srv/notes" ≠ Path.child "/srv" r.nodeName := by
    rintro r ((hnone | ⟨t, ht, hr⟩) | ⟨t, ht, hr⟩ | ⟨t, ht, hr⟩)
    · exact hnone.elim
    · rw [(hlooked₁ t (List.mem_of_mem_head? ht)).1] at hr
      obtain rfl : r = webRecord := List.mem_singleton.mp hr
      decide
    · rw [(hlooked₂ t (List.mem_of_mem_head? ht)).1] at hr
      cases hr
    · cases (hlooked₂ t ht).2 r hr
  have hleft := visit_leaves_foreign_nodes (Career.start.visit hfirst) hsecond hforeign
    fun _ _ hact => hact.elim
  exact ⟨p, scene, hrun, hswept, hleft.trans rfl⟩

end Publisher

end ServiceRegistry
