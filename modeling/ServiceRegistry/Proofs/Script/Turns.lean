import ServiceRegistry.Proofs.Script.Amid
import ServiceRegistry.Proofs.Store.Calls

/-! # Turns

A turn is a call with its answer and with the store that it finds. `Script.Turns` tells a run amid
others by its turns; the run may be cut off anywhere. What the turns preserve and others preserve
is preserved by the run (`Script.Turns.invariant`). What a run ends in is where the script leads in
a `Script.Company` (`Script.Leads.turns`), and if the script never waits, a run that was cut off can
be brought to an end (`Script.Turns.exists_end`). -/

namespace ServiceRegistry

/-- A call with its answer, and the store that it finds. -/
structure Turn where
  store : Store
  exchange : Exchange

/-- The store that a turn of a session leaves. -/
def Turn.result (t : Turn) (id : SessionId) : Store := (t.store.serve id t.exchange.request).2

namespace Script

open Relation

variable {σ α β : Type}

/-- Any number of steps of a script, between which others act on the store and the shared state,
with the turns that the script took. -/
inductive Turns (acts : Store × σ → Store × σ → Prop) (id : SessionId) :
    Script σ α → Store × σ → List Turn → Script σ α → Store × σ → Prop
  | refl (x : Script σ α) (c : Store × σ) : Turns acts id x c [] x c
  | own {x x' x'' : Script σ α} {s s' : Store} {y y' : σ} {e : Option Exchange} {ts : List Turn}
      {c : Store × σ} (first : Step id x s y e x' s' y')
      (rest : Turns acts id x' (s', y') ts x'' c) :
      Turns acts id x (s, y) (e.toList.map (Turn.mk s) ++ ts) x'' c
  | others {x x' : Script σ α} {c c' c'' : Store × σ} {ts : List Turn} (act : acts c c')
      (rest : Turns acts id x c' ts x' c'') : Turns acts id x c ts x' c''

variable {acts : Store × σ → Store × σ → Prop} {id : SessionId} {x x' x'' : Script σ α}
  {c c' c'' : Store × σ} {ts ts' : List Turn}

namespace Turns

theorem trans (h : x.Turns acts id c ts x' c') (h' : x'.Turns acts id c' ts' x'' c'') :
    x.Turns acts id c (ts ++ ts') x'' c'' := by
  induction h with
  | refl => exact h'
  | own first _ ih =>
      rw [List.append_assoc]
      exact .own first (ih h')
  | others act _ ih => exact .others act (ih h')

/-- A single call. -/
theorem call (r : Request) (next : Except StoreError r.Answer → Script σ α) (s : Store) (y : σ) :
    (Script.call r next).Turns acts id (s, y) [⟨s, ⟨r, (s.serve id r).1⟩⟩] (next (s.serve id r).1)
      ((s.serve id r).2, y) :=
  .own (.call r next s y) (.refl _ _)

/-! ### Where a script begins -/

/-- At the end of a script only others act. -/
theorem of_done {a : α} (h : (done a).Turns acts id c ts x' c') :
    x' = done a ∧ ts = [] ∧ ReflTransGen acts c c' := by
  generalize hx : done a = x at h
  induction h with
  | refl => exact ⟨rfl, rfl, .refl⟩
  | own first _ =>
      subst hx
      cases first
  | others act _ ih =>
      obtain ⟨hx', hts, hrest⟩ := ih hx
      exact ⟨hx', hts, .head act hrest⟩

theorem of_look {next : σ → Script σ α} {b : α}
    (h : (look next).Turns acts id c ts (done b) c') :
    ∃ c₁, ReflTransGen acts c c₁ ∧ (next c₁.2).Turns acts id c₁ ts (done b) c' := by
  generalize hx : look next = x at h
  generalize hx' : done b = x' at h
  induction h with
  | refl =>
      subst hx
      cases hx'
  | own first rest =>
      subst hx
      cases first with
      | look => exact ⟨_, .refl, rest⟩
  | others act _ ih =>
      obtain ⟨c₁, hbefore, hrest⟩ := ih hx hx'
      exact ⟨c₁, .head act hbefore, hrest⟩

theorem of_change {f : σ → σ} {next : Script σ α} {b : α}
    (h : (change f next).Turns acts id c ts (done b) c') :
    ∃ c₁, ReflTransGen acts c c₁ ∧ next.Turns acts id (c₁.1, f c₁.2) ts (done b) c' := by
  generalize hx : change f next = x at h
  generalize hx' : done b = x' at h
  induction h with
  | refl =>
      subst hx
      cases hx'
  | own first rest =>
      subst hx
      cases first with
      | change => exact ⟨_, .refl, rest⟩
  | others act _ ih =>
      obtain ⟨c₁, hbefore, hrest⟩ := ih hx hx'
      exact ⟨c₁, .head act hbefore, hrest⟩

/-- A run of one script after another is a run of the one and then one of the other. -/
theorem of_bind {f : α → Script σ β} {b : β}
    (h : (x.bind f).Turns acts id c ts (done b) c') :
    ∃ a c₁ ts₁ ts₂, ts = ts₁ ++ ts₂ ∧ x.Turns acts id c ts₁ (done a) c₁ ∧
      (f a).Turns acts id c₁ ts₂ (done b) c' := by
  generalize hz : x.bind f = z at h
  generalize hz' : done b = z' at h
  induction h generalizing x with
  | refl z c =>
      subst hz'
      cases x with
      | done a => exact ⟨a, c, [], [], rfl, .refl _ _, hz ▸ .refl _ _⟩
      | _ => cases hz
  | @own z _ _ s _ y _ e _ _ first rest ih =>
      cases x with
      | done a => exact ⟨a, (s, y), [], _, rfl, .refl _ _, (show f a = z from hz) ▸ .own first rest⟩
      | call r next =>
          subst hz
          cases first
          obtain ⟨a, c₁, ts₁, ts₂, rfl, hx, hf⟩ := ih rfl hz'
          exact ⟨a, c₁, _, ts₂, (List.append_assoc ..).symm, .own (.call r next s y) hx, hf⟩
      | look next =>
          subst hz
          cases first
          obtain ⟨a, c₁, ts₁, ts₂, rfl, hx, hf⟩ := ih rfl hz'
          exact ⟨a, c₁, _, ts₂, (List.append_assoc ..).symm, .own (.look next s y) hx, hf⟩
      | change g next =>
          subst hz
          cases first
          obtain ⟨a, c₁, ts₁, ts₂, rfl, hx, hf⟩ := ih rfl hz'
          exact ⟨a, c₁, _, ts₂, (List.append_assoc ..).symm, .own (.change g next s y) hx, hf⟩
      | clock next =>
          subst hz
          cases first with
          | clock now =>
              obtain ⟨a, c₁, ts₁, ts₂, rfl, hx, hf⟩ := ih rfl hz'
              exact ⟨a, c₁, _, ts₂, (List.append_assoc ..).symm, .own (.clock now next s y) hx, hf⟩
      | fresh next =>
          subst hz
          cases first with
          | fresh drawn =>
              obtain ⟨a, c₁, ts₁, ts₂, rfl, hx, hf⟩ := ih rfl hz'
              have hfirst : Step id _ s y _ _ s y := .fresh drawn next s y
              exact ⟨a, c₁, _, ts₂, (List.append_assoc ..).symm, .own hfirst hx, hf⟩
      | wait ms next =>
          subst hz
          cases first
          obtain ⟨a, c₁, ts₁, ts₂, rfl, hx, hf⟩ := ih rfl hz'
          exact ⟨a, c₁, _, ts₂, (List.append_assoc ..).symm, .own (.wait ms next s y) hx, hf⟩
  | others act _ ih =>
      obtain ⟨a, c₁, ts₁, ts₂, hts, hx, hf⟩ := ih hz hz'
      exact ⟨a, c₁, ts₁, ts₂, hts, .others act hx, hf⟩

/-! ### What the turns tell -/

/-- The answers are those of the store. -/
theorem answer_eq (h : x.Turns acts id c ts x' c') {s : Store} {r : Request}
    {answer : Except StoreError r.Answer} (ht : ⟨s, ⟨r, answer⟩⟩ ∈ ts) :
    answer = (s.serve id r).1 := by
  induction h with
  | refl => cases ht
  | others act _ ih => exact ih ht
  | own first _ ih =>
      rcases List.mem_append.mp ht with ht | ht
      · rcases first.store_cases with ⟨r, rfl, -⟩ | ⟨rfl, -⟩
        · cases List.mem_singleton.mp ht
          rfl
        · cases ht
      · exact ih ht

/-- What others and the turns preserve is preserved. -/
theorem invariant {P : Store → Prop} (h : x.Turns acts id c ts x' c')
    (hothers : ∀ c c', acts c c' → P c.1 → P c'.1) (hturns : ∀ t ∈ ts, P t.store → P (t.result id))
    (hP : P c.1) : P c'.1 := by
  induction h with
  | refl => exact hP
  | others act _ ih => exact ih hturns (hothers _ _ act hP)
  | own first _ ih =>
      refine ih (fun t ht => hturns t (List.mem_append_right _ ht)) ?_
      rcases first.store_cases with ⟨r, rfl, rfl⟩ | ⟨rfl, rfl⟩
      · exact hturns ⟨_, ⟨r, _⟩⟩ (List.mem_append_left _ (List.mem_singleton.mpr rfl)) hP
      · exact hP

/-- The run before a turn, and the run after it. -/
theorem split {t : Turn} {ts₁ ts₂ : List Turn} (h : x.Turns acts id c (ts₁ ++ t :: ts₂) x' c') :
    ∃ (x₁ x₂ : Script σ α) (y : σ), x.Turns acts id c ts₁ x₁ (t.store, y) ∧
      x₂.Turns acts id (t.result id, y) ts₂ x' c' := by
  generalize hts : ts₁ ++ t :: ts₂ = ts at h
  induction h generalizing ts₁ with
  | refl => cases List.append_eq_nil_iff.mp hts |>.2
  | others act _ ih =>
      obtain ⟨x₁, x₂, y, hbefore, hafter⟩ := ih hts
      exact ⟨x₁, x₂, y, .others act hbefore, hafter⟩
  | own first rest ih =>
      rcases first.store_cases with ⟨r, rfl, rfl⟩ | ⟨rfl, rfl⟩
      · cases ts₁ with
        | nil =>
            cases first
            obtain ⟨rfl, rfl⟩ := List.cons.inj hts
            exact ⟨_, _, _, .refl _ _, rest⟩
        | cons t₁ ts₁ =>
            obtain ⟨rfl, hrest⟩ := List.cons.inj hts
            obtain ⟨x₁, x₂, y, hbefore, hafter⟩ := ih hrest
            exact ⟨x₁, x₂, y, .own first hbefore, hafter⟩
      · obtain ⟨x₁, x₂, y, hbefore, hafter⟩ := ih hts
        exact ⟨x₁, x₂, y, .own first hbefore, hafter⟩

/-- The paths at which turns are to make or delete a node, in order. -/
def targets (ts : List Turn) : List String := ts.filterMap (·.exchange.request.target?)

theorem mem_targets {ts : List Turn} {t : Turn} {path : String} (ht : t ∈ ts)
    (h : t.exchange.request.target? = some path) : path ∈ targets ts :=
  List.mem_filterMap.mpr ⟨t, ht, h⟩

/-- If others leave the nodes alone, each node stays but those that the turns are at. -/
theorem find?_eq (h : x.Turns acts id c ts x' c')
    (hacts : ∀ c c', acts c c' → c'.1.nodes = c.1.nodes) {path : String}
    (hpath : path ∉ targets ts) : c'.1.nodes.find? path = c.1.nodes.find? path := by
  refine h.invariant (P := fun s => s.nodes.find? path = c.1.nodes.find? path) ?_ ?_ rfl
  · intro c₁ c₂ hact hc₁
    rw [hacts c₁ c₂ hact, hc₁]
  · intro t ht hstore
    rw [Turn.result, t.store.find?_serve_of_ne id fun hmem => hpath (mem_targets ht hmem), hstore]

end Turns

/-- Every turn is a call of the script. -/
theorem Calls.turns {p : Request → Prop} (h : x.Calls p) (hrun : x.Turns acts id c ts x' c') :
    ∀ t ∈ ts, p t.exchange.request := by
  induction hrun with
  | refl => simp
  | others act _ ih => exact ih h
  | own first _ ih =>
      cases first with
      | call r next =>
          intro t ht
          rcases List.mem_cons.mp ht with rfl | ht
          · exact h.1
          · exact ih (h.2 _) t ht
      | look next => exact ih (h _)
      | change f => exact ih h
      | clock now next => exact ih (h now)
      | fresh drawn next => exact ih (h drawn)
      | wait ms => exact ih h

/-! ### Ends of runs -/

/-- Steps with nothing in between. -/
theorem Steps.exists_turns {s s' : Store} {y y' : σ} {es : List Exchange}
    (h : x.Steps id s y es x' s' y') :
    ∃ ts, ts.map (·.exchange) = es ∧ x.Turns acts id (s, y) ts x' (s', y') := by
  induction h with
  | refl x s y => exact ⟨[], rfl, .refl x (s, y)⟩
  | @step _ _ _ s _ _ _ _ _ e es first _ ih =>
      obtain ⟨ts, rfl, hrest⟩ := ih
      refine ⟨e.toList.map (Turn.mk s) ++ ts, ?_, .own first hrest⟩
      cases e <;> rfl

/-- A store and a shared state that others act on too, with the turns that a script took. -/
structure Company (σ : Type) where
  store : Store
  shared : σ
  turns : List Turn := []

/-- The store answers the calls of a session, and others act in between. -/
def Company.party (acts : Store × σ → Store × σ → Prop) (id : SessionId) : Party (Company σ) σ where
  get := Company.shared
  set y m := { m with shared := y }
  answers m r answer m' :=
    answer = (m.store.serve id r).1 ∧
      m' = ⟨(m.store.serve id r).2, m.shared, m.turns ++ [⟨m.store, ⟨r, answer⟩⟩]⟩
  drift m m' := ReflTransGen acts (m.store, m.shared) (m'.store, m'.shared) ∧ m'.turns = m.turns
  drift_refl _ := ⟨.refl, rfl⟩
  drift_trans h h' := ⟨h.1.trans h'.1, h'.2.trans h.2⟩

/-- Where a script leads is where a run of it ends. -/
theorem Leads.turns {post : α → Company σ → Prop} {a : α} {ts₀ : List Turn}
    (h : x.Leads (Company.party acts id) post ⟨c.1, c.2, ts₀⟩)
    (hrun : x.Turns acts id c ts x' c') (hx : x' = done a) : post a ⟨c'.1, c'.2, ts₀ ++ ts⟩ := by
  induction hrun generalizing ts₀ with
  | refl x c =>
      subst hx
      rw [List.append_nil]
      exact h _ (Party.drift_refl _ _)
  | others act _ ih => exact ih (h.drift ⟨.single act, rfl⟩) hx
  | own first _ ih =>
      have hnow := fun m => (Company.party (σ := σ) acts id).drift_refl m
      cases first with
      | call r next =>
          rw [← List.append_assoc]
          exact ih (h _ (hnow _) _ _ ⟨rfl, rfl⟩) hx
      | look next => exact ih (h _ (hnow _)) hx
      | change f => exact ih (h _ (hnow _)) hx
      | clock now next => exact ih (h now) hx
      | fresh drawn next => exact ih (h drawn) hx
      | wait ms => exact ih h hx

theorem Prompt.turns (h : x.Prompt) (hrun : x.Turns acts id c ts x' c') : x'.Prompt := by
  induction hrun with
  | refl => exact h
  | others act _ ih => exact ih h
  | own first _ ih =>
      cases first with
      | call r next => exact ih (h _)
      | look next => exact ih (h _)
      | change f => exact ih h
      | clock now next => exact ih (h now)
      | fresh drawn next => exact ih (h drawn)
      | wait ms => exact h.elim

/-- A script that never waits can be brought to its end. -/
theorem Turns.exists_end (h : x.Turns acts id c ts x' c') (hx : x.Prompt) :
    ∃ a ts' c'', x'.Turns acts id c' ts' (done a) c'' := by
  obtain ⟨a, scene, hrun⟩ := (hx.turns h).exists_run id 0 ⟨c'.1, c'.2, {}⟩
  obtain ⟨ts', -, hrest⟩ := (steps_run hrun).exists_turns
  exact ⟨a, ts', _, hrest⟩

end Script

end ServiceRegistry
