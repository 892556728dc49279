import ServiceRegistry.Proofs.Store.Lifetimes
import ServiceRegistry.Proofs.Worker.Ownership

/-! # Workers that only read

If the passes of a task make no call that asks for a change of the tree, its worker leaves the tree
as it is (`Worker.Course.IsReader.act`). It still closes sessions, and the end of a session takes
nodes away; but these sessions never made any, and nobody else makes nodes for them
(`Worker.OwnsNothing`). -/

namespace ServiceRegistry

/-! ### Deeds that do not write -/

/-- Is the deed a change of the tree that is asked for? The end of a session is none, though its
nodes go. -/
def Store.Deed.isWrite : Deed → Bool
  | .put _ _ => true
  | .remove _ => true
  | .serve _ r => r.isWrite
  | _ => false

namespace Store

variable {s : Store} {id : SessionId}

theorem nodes_serve (s : Store) (id : SessionId) {r : Request} (h : r.isWrite = false) :
    (s.serve id r).2.nodes = s.nodes := by
  refine Dict.ext_find? fun path => s.find?_serve_of_ne id ?_
  cases r with
  | create | delete => cases h
  | list | beginRead | finishRead | probe => exact fun hpath => by cases hpath

/-- When a session that owns nothing is closed, nothing goes. -/
theorem nodes_close (h : ∀ path, s.ownerAt? path ≠ some id) : (s.close id).nodes = s.nodes := by
  unfold close
  split
  · refine Dict.ext_find? fun path => ?_
    rw [find?_endSession]
    have howner := h path
    rw [ownerAt?] at howner
    cases hfind : s.nodes.find? path with
    | none => rfl
    | some node =>
        have hne : node.owner ≠ some id := by simpa [hfind] using howner
        simp [Option.filter, hne]
  · rfl

theorem nodes_connect (s : Store) : s.connect.2.nodes = s.nodes := by
  rcases s.connect_cases with ⟨_, s', hc, ha, -⟩ | hc
  · rw [hc, ha.nodes_eq]
  · rw [hc]
    rfl

end Store

/-! ### Scripts that do not write -/

namespace Script

variable {σ α : Type}

/-- The terms of reading, whatever others do. -/
def reading : Terms σ := { asks := fun r => r.isWrite = false }

/-- What every call of a script is makes terms for it. -/
theorem Calls.keeps {p : Request → Prop} {x : Script σ α} (h : x.Calls p) :
    x.Keeps { asks := p } fun _ => True := by
  induction x with
  | done a => trivial
  | call r next ih => exact ⟨h.1, fun answer _ => ih answer (h.2 answer)⟩
  | look next ih => exact fun y _ => ih y (h y)
  | change f next ih => exact ⟨fun _ _ => ⟨trivial, trivial⟩, ih h⟩
  | clock next ih => exact fun now => ih now (h now)
  | fresh next ih => exact fun id => ih id (h id)
  | wait ms next ih => exact ih h

end Script

namespace Worker

open Store

variable {τ σ : Type}

/-! ### The deeds of a worker besides its calls -/

section Deeds

variable (w : Worker τ)

theorem isWrite_of_mem_closeDeeds {d : Deed} (h : d ∈ w.closeDeeds) : d.isWrite = false := by
  unfold closeDeeds at h
  split at h
  · rcases List.mem_pair.mp h with rfl | rfl <;> rfl
  · cases h

theorem isWrite_of_mem_heedDeeds {es : List Store.Event} {d : Deed} (h : d ∈ w.heedDeeds es) :
    d.isWrite = false := by
  induction es generalizing w with
  | nil => cases h
  | cons e es ih =>
      unfold heedDeeds at h
      split at h
      · exact w.isWrite_of_mem_closeDeeds h
      · exact ih _ h

theorem isWrite_of_mem_receiveDeeds {s : Store} {d : Deed} (h : d ∈ w.receiveDeeds s) :
    d.isWrite = false := by
  unfold receiveDeeds at h
  split at h
  · cases h
  · rcases List.mem_cons.mp h with rfl | h
    · rfl
    · exact w.isWrite_of_mem_heedDeeds h

theorem isWrite_of_mem_settleDeeds {s : Store} {d : Deed} (h : d ∈ w.settleDeeds s) :
    d.isWrite = false := by
  unfold settleDeeds at h
  dsimp only at h
  rcases List.mem_append.mp h with h | h
  · exact w.isWrite_of_mem_receiveDeeds h
  · split at h
    · cases h
    · rcases List.mem_append.mp h with h | h
      · unfold openDeeds at h
        split at h
        · cases h
        · rw [List.mem_singleton.mp h]
          rfl
      · exact isWrite_of_mem_receiveDeeds _ h

theorem isWrite_of_mem_endPassDeeds {result : Except StoreError Bool} {d : Deed}
    (h : d ∈ w.endPassDeeds result) : d.isWrite = false := by
  unfold endPassDeeds at h
  split at h
  · cases h
  · split at h
    · cases h
    · split at h
      · exact w.isWrite_of_mem_closeDeeds h
      · cases h

end Deeds

/-! ### Silent deeds -/

/-- The worker's own deeds are no writes, and none of them changes the tree. -/
def Silent (s : Store) : List Entry → Prop
  | [] => True
  | e :: es =>
    (e.isOwn = true → e.deed.isWrite = false ∧ (s.perform e.deed).nodes = s.nodes) ∧
      Silent (s.perform e.deed) es

theorem silent_append {s : Store} {es es' : List Entry} :
    Silent s (es ++ es') ↔ Silent s es ∧ Silent (replay s es) es' := by
  induction es generalizing s with
  | nil => exact (iff_of_eq (true_and _)).symm
  | cons e es ih =>
      rw [List.cons_append, Silent, ih, Silent, and_assoc]
      rfl

/-- The session that is held owns no node of a store that was reached by deeds. -/
structure OwnsNothing (s : Store) (held : Option SessionId) : Prop where
  reached : ByDeeds (fun _ => True) {} s
  unowned : ∀ id path, held = some id → s.ownerAt? path ≠ some id

namespace OwnsNothing

variable {s s' : Store} {held held' : Option SessionId}

/-- A deed that makes no node for the session that is held. -/
theorem perform (h : OwnsNothing s held) {d : Deed}
    (hd : ∀ id path, held = some id → ¬s.Makes id path d) : OwnsNothing (s.perform d) held where
  reached := .step h.reached trivial
  unowned id path hid howner := by
    rcases ownerAt?_of_perform howner with hmakes | howner
    · exact hd id path hid hmakes
    · exact h.unowned id path hid howner

theorem foreign (h : OwnsNothing s held) {d : Deed} (hd : Foreign held d) :
    OwnsNothing (s.perform d) held := by
  refine h.perform fun id path hid hmakes => ?_
  obtain ⟨data, rfl, -⟩ := hmakes
  exact hd hid

/-- A session that was just opened owns nothing: the owners of nodes are live, and no live session
had its number before. -/
theorem connect (h : OwnsNothing s none) : OwnsNothing s.connect.2 s.connect.1.toOption where
  reached := .step (d := .connect) h.reached trivial
  unowned id path hid howner := by
    obtain ⟨rfl, -⟩ := eq_of_grants (d := .connect) hid
    rcases ownerAt?_of_perform (d := .connect) howner with ⟨data, hd, -⟩ | howner
    · cases hd
    · obtain ⟨node, hfind, howner⟩ := ownerAt?_eq_some.mp howner
      have hlive := areOwned_of_byDeeds h.reached path node _ hfind howner
      exact Nat.not_succ_le_self _ (hlive.le_opened h.reached)

/-- Whoever holds one session after the other and only reads leaves the tree, and its sessions own
nothing. -/
theorem handles (h : OwnsNothing s held) {ds : List Deed} (hds : Handles s held ds s' held')
    (hreads : ∀ d ∈ ds, d.isWrite = false) :
    Silent s (ds.map (⟨true, ·⟩)) ∧ replay s (ds.map (⟨true, ·⟩)) = s' ∧ OwnsNothing s' held' := by
  induction hds with
  | done => exact ⟨trivial, rfl, h⟩
  | @connect s _ _ _ _ ih =>
      obtain ⟨hsilent, hreplay, hrest⟩ := ih h.connect fun d hd => hreads d (by simp [hd])
      exact ⟨⟨fun _ => ⟨rfl, s.nodes_connect⟩, hsilent⟩, hreplay, hrest⟩
  | @close s _ id _ _ _ ih =>
      have hclosed : OwnsNothing (s.close id) none :=
        ⟨.step (d := .close id) h.reached trivial, fun _ _ hid => by cases hid⟩
      obtain ⟨hsilent, hreplay, hrest⟩ := ih hclosed fun d hd => hreads d (by simp [hd])
      have hnodes : (s.close id).nodes = s.nodes := nodes_close fun path => h.unowned id path rfl
      exact ⟨⟨fun _ => ⟨rfl, hnodes⟩, hsilent⟩, hreplay, hrest⟩
  | @serve s _ id _ _ r _ ih =>
      have hr : r.isWrite = false := hreads (.serve id r) (by simp)
      have hserved : OwnsNothing (s.serve id r).2 (some id) := by
        refine h.perform (d := .serve id r) fun _ _ _ hmakes => ?_
        obtain ⟨data, hcreate, -⟩ := hmakes
        cases hcreate
        cases hr
      obtain ⟨hsilent, hreplay, hrest⟩ := ih hserved fun d hd => hreads d (by simp [hd])
      exact ⟨⟨fun _ => ⟨hr, s.nodes_serve id hr⟩, hsilent⟩, hreplay, hrest⟩
  | @takeEvents s _ _ _ _ id _ ih =>
      have htaken : OwnsNothing (s.clearInbox id) _ :=
        h.perform (d := .takeEvents id) fun _ _ _ hmakes => by
          obtain ⟨_, hcreate, -⟩ := hmakes
          cases hcreate
      obtain ⟨hsilent, hreplay, hrest⟩ := ih htaken fun d hd => hreads d (by simp [hd])
      exact ⟨⟨fun _ => ⟨rfl, rfl⟩, hsilent⟩, hreplay, hrest⟩

end OwnsNothing

/-! ### Tasks that only read -/

/-- Tasks of a kind only read, and stay of that kind. -/
structure OnlyReads [Task τ σ] (kind : τ → Prop) : Prop where
  request : ∀ t x tick generation, kind t → kind (Task.request t x tick generation).1
  work : ∀ t id pass, kind t → (Task.work t id pass).Keeps Script.reading fun out => kind out.1

theorem OnlyReads.decide [Task τ σ] {kind : τ → Prop} (hkind : OnlyReads kind) {w : Worker τ}
    (h : kind w.task) (x : σ) (tick : Nat) : kind (w.decide x tick).2.task := by
  unfold Worker.decide
  split
  · exact h
  · dsimp only
    split
    all_goals exact hkind.request _ _ _ _ h

namespace Course

/-- The task is of a kind, and a pass that is under way only reads and leaves it so. -/
structure IsReader (kind : τ → Prop) (b : Bench τ σ) : Prop where
  task : kind b.worker.task
  session : ∀ a x, b.underway = some (a, x) → b.worker.session = some a.session
  underway : ∀ a x, b.underway = some (a, x) → x.Keeps Script.reading fun out => kind out.1

variable {kind : τ → Prop} {c d : Course τ σ}

namespace IsReader

theorem start {t : τ} (h : kind t) : IsReader kind ({ worker := { task := t } } : Bench τ σ) where
  task := h
  session a x hu := by cases hu
  underway a x hu := by cases hu

theorem task_act [Task τ σ] (hkind : OnlyReads kind) (h : IsReader kind c.bench) {ds : List Deed}
    (act : Act c ds d) : kind d.bench.worker.task := by
  cases act with
  | trigger => exact h.task
  | tick idle =>
      let begun : Worker τ := { c.bench.worker with ticks := c.bench.worker.ticks + 1 }
      have hsettled : kind (begun.settle c.store receive receive).1.task :=
        (begun.settle_task c.store).symm ▸ h.task
      exact hkind.decide hsettled c.shared _
  | work underway step => exact h.task
  | @finish a task result underway =>
      have htask : (c.finish a task result).bench.worker.task = task := endPass_task _ _ _ _ _
      rw [htask]
      exact h.underway _ _ underway
  | stop idle =>
      have htask : c.stop.bench.worker.task = c.bench.worker.task :=
        c.bench.worker.close_task c.store
      rw [htask]
      exact h.task

/-- Whatever a worker with such a task does, it only reads. -/
theorem act [Task τ σ] (hkind : OnlyReads kind) (h : IsReader kind c.bench) {ds : List Deed}
    (act : Act c ds d) : IsReader kind d.bench ∧ ∀ deed ∈ ds, deed.isWrite = false := by
  have htask := h.task_act hkind act
  refine ⟨⟨htask, act.underway h.session, fun a x hu => ?_⟩, fun deed hdeed => ?_⟩
  · cases act with
    | trigger => exact h.underway a x hu
    | tick idle =>
        obtain ⟨due, -, heq⟩ := Option.map_eq_some_iff.mp hu
        cases heq
        exact hkind.work _ _ _ htask
    | work underway step =>
        cases hu
        exact ((h.underway _ _ underway).step step trivial fun _ _ _ => trivial).1
    | finish underway => cases hu
    | stop idle => cases idle.1.symm.trans hu
  · cases act with
    | trigger => cases hdeed
    | tick idle => exact isWrite_of_mem_settleDeeds _ hdeed
    | work underway step =>
        obtain ⟨exchange, hmem, rfl⟩ := List.mem_map.mp hdeed
        obtain rfl := Option.mem_toList.mp hmem
        exact (h.underway _ _ underway).asks_of_step step
    | finish underway => exact isWrite_of_mem_endPassDeeds _ hdeed
    | stop idle => exact isWrite_of_mem_closeDeeds _ hdeed

end IsReader

end Course

end Worker

end ServiceRegistry
