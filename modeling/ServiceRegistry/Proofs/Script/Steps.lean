import Mathlib.Tactic.Common
import ServiceRegistry.Script

/-! # Reasoning about scripts

`Script.Step` takes a script one step further, so that others may act between two steps;
`Script.run` is the case where nobody does (`Script.steps_run`). `Script.Ends` leaves the store
aside and takes any answers.

Two predicates follow the tree of a script. `Script.Keeps` says what calls a script makes and what
it ends in, whatever others do to the state that it shares, as long as they keep to some terms.
`Script.Leads` tracks the state of a party from call to call; it is the weakest condition under
which the end of the script has a property, where the state may drift between steps as others act.
Both pass through `bind` and `zoom`. -/

namespace ServiceRegistry

/-- A call and its answer. -/
structure Exchange where
  request : Request
  answer : Except StoreError request.Answer

namespace Script

variable {σ τ α β : Type}

/-! ### Steps -/

/-- One step of a script that runs for a session, with the call that it makes if it makes one. -/
inductive Step (id : SessionId) :
    Script σ α → Store → σ → Option Exchange → Script σ α → Store → σ → Prop
  | call (r : Request) (next : Except StoreError r.Answer → Script σ α) (s : Store) (x : σ) :
      Step id (.call r next) s x (some ⟨r, (s.serve id r).1⟩)
        (next (s.serve id r).1) (s.serve id r).2 x
  | look (next : σ → Script σ α) (s : Store) (x : σ) :
      Step id (.look next) s x none (next x) s x
  | change (f : σ → σ) (next : Script σ α) (s : Store) (x : σ) :
      Step id (.change f next) s x none next s (f x)
  | clock (now : Nat) (next : Nat → Script σ α) (s : Store) (x : σ) :
      Step id (.clock next) s x none (next now) s x
  | fresh (drawn : InstanceId) (next : InstanceId → Script σ α) (s : Store) (x : σ) :
      Step id (.fresh next) s x none (next drawn) s x
  | wait (ms : Nat) (next : Script σ α) (s : Store) (x : σ) :
      Step id (.wait ms next) s x none next s x

/-- A step makes a call on the store, or leaves the store as it is. -/
theorem Step.store_cases {id : SessionId} {x x' : Script σ α} {s s' : Store} {y y' : σ}
    {e : Option Exchange} (h : Step id x s y e x' s' y') :
    (∃ r, e = some ⟨r, (s.serve id r).1⟩ ∧ s' = (s.serve id r).2) ∨ (e = none ∧ s' = s) := by
  cases h with
  | call r next => exact .inl ⟨r, rfl, rfl⟩
  | look next => exact .inr ⟨rfl, rfl⟩
  | change f next => exact .inr ⟨rfl, rfl⟩
  | clock now next => exact .inr ⟨rfl, rfl⟩
  | fresh drawn next => exact .inr ⟨rfl, rfl⟩
  | wait ms next => exact .inr ⟨rfl, rfl⟩

/-- Any number of steps, with the calls in the order in which they are made. -/
inductive Steps (id : SessionId) :
    Script σ α → Store → σ → List Exchange → Script σ α → Store → σ → Prop
  | refl (x : Script σ α) (s : Store) (y : σ) : Steps id x s y [] x s y
  | step {x x' x'' : Script σ α} {s s' s'' : Store} {y y' y'' : σ} {e : Option Exchange}
      {es : List Exchange} (first : Step id x s y e x' s' y')
      (others : Steps id x' s' y' es x'' s'' y'') : Steps id x s y (e.toList ++ es) x'' s'' y''

/-- The calls that a script makes until it ends or waits, with nothing in between its steps. -/
def heard (id : SessionId) (now : Nat) : Script σ α → Scene σ → List Exchange
  | done _, _ => []
  | call r next, scene =>
    let (answer, store) := scene.store.serve id r
    ⟨r, answer⟩ :: (next answer).heard id now { scene with store }
  | look next, scene => (next scene.shared).heard id now scene
  | change f next, scene => next.heard id now { scene with shared := f scene.shared }
  | clock next, scene => (next now).heard id now scene
  | fresh next, scene =>
    let (drawn, ids) := scene.ids.draw
    (next drawn).heard id now { scene with ids }
  | wait ms next, scene => if ms = 0 then next.heard id now scene else []

/-- A run that ends is made of steps. -/
theorem steps_run {id : SessionId} {now : Nat} {x : Script σ α} {scene scene' : Scene σ} {a : α}
    (h : x.run id now scene = (.finished a, scene')) :
    x.Steps id scene.store scene.shared (x.heard id now scene) (.done a) scene'.store
      scene'.shared := by
  induction x generalizing scene with
  | done b =>
      simp only [run, Prod.mk.injEq, Progress.finished.injEq] at h
      obtain ⟨rfl, rfl⟩ := h
      exact .refl _ _ _
  | call r next ih => exact .step (.call r next _ _) (ih _ h)
  | look next ih => exact .step (.look next _ _) (ih _ h)
  | change f next ih => exact .step (.change f next _ _) (ih h)
  | clock next ih => exact .step (.clock now next _ _) (ih _ h)
  | fresh next ih => exact .step (.fresh _ next _ _) (ih _ h)
  | wait ms next ih =>
      by_cases hms : ms = 0
      · simp only [run, heard, hms, ↓reduceIte] at h ⊢
        exact .step (.wait 0 next _ _) (ih h)
      · simp [run, hms] at h

/-! ### What a script ends in -/

/-- A script ends in a value, with the calls that it made. The answers can be any; only the script
changes the shared state. -/
inductive Ends : Script σ α → σ → List Exchange → α → σ → Prop
  | done (a : α) (y : σ) : Ends (.done a) y [] a y
  | call (r : Request) (next : Except StoreError r.Answer → Script σ α)
      (answer : Except StoreError r.Answer) {y y' : σ} {es : List Exchange} {a : α}
      (rest : Ends (next answer) y es a y') : Ends (.call r next) y (⟨r, answer⟩ :: es) a y'
  | look (next : σ → Script σ α) {y y' : σ} {es : List Exchange} {a : α}
      (rest : Ends (next y) y es a y') : Ends (.look next) y es a y'
  | change (f : σ → σ) (next : Script σ α) {y y' : σ} {es : List Exchange} {a : α}
      (rest : Ends next (f y) es a y') : Ends (.change f next) y es a y'
  | clock (now : Nat) (next : Nat → Script σ α) {y y' : σ} {es : List Exchange} {a : α}
      (rest : Ends (next now) y es a y') : Ends (.clock next) y es a y'
  | fresh (drawn : InstanceId) (next : InstanceId → Script σ α) {y y' : σ} {es : List Exchange}
      {a : α} (rest : Ends (next drawn) y es a y') : Ends (.fresh next) y es a y'
  | wait (ms : Nat) (next : Script σ α) {y y' : σ} {es : List Exchange} {a : α}
      (rest : Ends next y es a y') : Ends (.wait ms next) y es a y'

/-- What a script ends in that is taken step by step. -/
theorem Steps.ends {id : SessionId} {x x' : Script σ α} {s s' : Store} {y y' : σ}
    {es : List Exchange} (h : Steps id x s y es x' s' y') {a : α} (hx : x' = .done a) :
    x.Ends y es a y' := by
  induction h with
  | refl x s y =>
      subst hx
      exact .done a y
  | step first _ ih =>
      cases first with
      | call r next => exact .call r next _ (ih hx)
      | look next => exact .look next (ih hx)
      | change f => exact .change f _ (ih hx)
      | clock now next => exact .clock now next (ih hx)
      | fresh drawn next => exact .fresh drawn next (ih hx)
      | wait ms => exact .wait ms _ (ih hx)

theorem Ends.bind {x : Script σ α} {f : α → Script σ β} {y y' y'' : σ} {es es' : List Exchange}
    {a : α} {b : β} (h : x.Ends y es a y') (h' : (f a).Ends y' es' b y'') :
    (x.bind f).Ends y (es ++ es') b y'' := by
  induction h with
  | done a y => exact h'
  | call r next answer _ ih => exact .call r _ answer (ih h')
  | look next _ ih => exact .look _ (ih h')
  | change g next _ ih => exact .change g _ (ih h')
  | clock now next _ ih => exact .clock now _ (ih h')
  | fresh drawn next _ ih => exact .fresh drawn _ (ih h')
  | wait ms next _ ih => exact .wait ms _ (ih h')

/-- One script after another ends where the second one does. -/
theorem ends_bind {x : Script σ α} {f : α → Script σ β} {y y'' : σ} {es : List Exchange} {b : β}
    (h : (x.bind f).Ends y es b y'') : ∃ es₁ a y' es₂, es = es₁ ++ es₂ ∧ x.Ends y es₁ a y' ∧
      (f a).Ends y' es₂ b y'' := by
  induction x generalizing y es with
  | done a => exact ⟨[], a, y, es, rfl, .done a y, h⟩
  | call r next ih =>
      cases h with
      | call _ _ answer rest =>
          obtain ⟨es₁, a, y', es₂, rfl, hx, hf⟩ := ih answer rest
          exact ⟨_ :: es₁, a, y', es₂, rfl, .call r next answer hx, hf⟩
  | look next ih =>
      cases h with
      | look _ rest =>
          obtain ⟨es₁, a, y', es₂, rfl, hx, hf⟩ := ih y rest
          exact ⟨es₁, a, y', es₂, rfl, .look next hx, hf⟩
  | change g next ih =>
      cases h with
      | change _ _ rest =>
          obtain ⟨es₁, a, y', es₂, rfl, hx, hf⟩ := ih rest
          exact ⟨es₁, a, y', es₂, rfl, .change g next hx, hf⟩
  | clock next ih =>
      cases h with
      | clock now _ rest =>
          obtain ⟨es₁, a, y', es₂, rfl, hx, hf⟩ := ih now rest
          exact ⟨es₁, a, y', es₂, rfl, .clock now next hx, hf⟩
  | fresh next ih =>
      cases h with
      | fresh drawn _ rest =>
          obtain ⟨es₁, a, y', es₂, rfl, hx, hf⟩ := ih drawn rest
          exact ⟨es₁, a, y', es₂, rfl, .fresh drawn next hx, hf⟩
  | wait ms next ih =>
      cases h with
      | wait _ _ rest =>
          obtain ⟨es₁, a, y', es₂, rfl, hx, hf⟩ := ih rest
          exact ⟨es₁, a, y', es₂, rfl, .wait ms next hx, hf⟩

/-! ### What a script keeps to -/

/-- What others keep to while a script runs, and what the script itself keeps to. -/
structure Terms (σ : Type) where
  /-- What holds of the shared state all the time. -/
  shared : σ → Prop := fun _ => True
  /-- What the script changes in the shared state. -/
  changes : σ → σ → Prop := fun _ _ => True
  /-- The calls that are made. -/
  asks : Request → Prop := fun _ => True
  /-- The answers that are given. -/
  hears : (r : Request) → Except StoreError r.Answer → Prop := fun _ _ => True

/-- The script keeps to the terms if others do, and what it ends in has a property. -/
def Keeps (t : Terms σ) (ends : α → Prop) : Script σ α → Prop
  | done a => ends a
  | call r next => t.asks r ∧ ∀ answer, t.hears r answer → (next answer).Keeps t ends
  | look next => ∀ x, t.shared x → (next x).Keeps t ends
  | change f next => (∀ x, t.shared x → t.shared (f x) ∧ t.changes x (f x)) ∧ next.Keeps t ends
  | clock next => ∀ now, (next now).Keeps t ends
  | fresh next => ∀ id, (next id).Keeps t ends
  | wait _ next => next.Keeps t ends

theorem keeps_bind {t : Terms σ} {ends : β → Prop} {x : Script σ α} {f : α → Script σ β}
    (h : x.Keeps t fun a => (f a).Keeps t ends) : (x.bind f).Keeps t ends := by
  induction x with
  | done a => exact h
  | call r next ih => exact ⟨h.1, fun answer ha => ih answer (h.2 answer ha)⟩
  | look next ih => exact fun x hx => ih x (h x hx)
  | change g next ih => exact ⟨h.1, ih h.2⟩
  | clock next ih => exact fun now => ih now (h now)
  | fresh next ih => exact fun id => ih id (h id)
  | wait ms next ih => exact ih h

theorem Keeps.mono {t : Terms σ} {ends ends' : α → Prop} {x : Script σ α} (h : x.Keeps t ends)
    (himp : ∀ a, ends a → ends' a) : x.Keeps t ends' := by
  induction x with
  | done a => exact himp a h
  | call r next ih => exact ⟨h.1, fun answer ha => ih answer (h.2 answer ha)⟩
  | look next ih => exact fun x hx => ih x (h x hx)
  | change g next ih => exact ⟨h.1, ih h.2⟩
  | clock next ih => exact fun now => ih now (h now)
  | fresh next ih => exact fun id => ih id (h id)
  | wait ms next ih => exact ih h

theorem Keeps.and {t : Terms σ} {ends ends' : α → Prop} {x : Script σ α} (h : x.Keeps t ends)
    (h' : x.Keeps t ends') : x.Keeps t fun a => ends a ∧ ends' a := by
  induction x with
  | done a => exact ⟨h, h'⟩
  | call r next ih => exact ⟨h.1, fun answer ha => ih answer (h.2 answer ha) (h'.2 answer ha)⟩
  | look next ih => exact fun x hx => ih x (h x hx) (h' x hx)
  | change g next ih => exact ⟨h.1, ih h.2 h'.2⟩
  | clock next ih => exact fun now => ih now (h now) (h' now)
  | fresh next ih => exact fun id => ih id (h id) (h' id)
  | wait ms next ih => exact ih h h'

/-- Terms over a part of the shared state, seen from the whole. -/
theorem keeps_zoom {t : Terms τ} {u : Terms σ} {get : σ → τ} {set : τ → σ → σ}
    {ends : α → Prop} {x : Script τ α} (h : x.Keeps t ends)
    (hget : ∀ y, u.shared y → t.shared (get y))
    (hset : ∀ y z, u.shared y → t.shared z → t.changes (get y) z →
      u.shared (set z y) ∧ u.changes y (set z y))
    (hasks : ∀ r, t.asks r → u.asks r) (hhears : ∀ r answer, u.hears r answer → t.hears r answer) :
    (x.zoom get set).Keeps u ends := by
  induction x with
  | done a => exact h
  | call r next ih =>
      exact ⟨hasks r h.1, fun answer ha => ih answer (h.2 answer (hhears r answer ha))⟩
  | look next ih => exact fun y hy => ih (get y) (h (get y) (hget y hy))
  | change g next ih =>
      refine ⟨fun y hy => ?_, ih h.2⟩
      obtain ⟨hshared, hchanges⟩ := h.1 _ (hget y hy)
      exact hset y _ hy hshared hchanges
  | clock next ih => exact fun now => ih now (h now)
  | fresh next ih => exact fun id => ih id (h id)
  | wait ms next ih => exact ih h

/-- A script without terms of its own keeps to the weakest ones. -/
theorem keeps_trivial (x : Script σ α) : x.Keeps {} fun _ => True := by
  induction x with
  | done a => trivial
  | call r next ih => exact ⟨trivial, fun answer _ => ih answer⟩
  | look next ih => exact fun x _ => ih x
  | change g next ih => exact ⟨fun _ _ => ⟨trivial, trivial⟩, ih⟩
  | clock next ih => exact fun now => ih now
  | fresh next ih => exact fun id => ih id
  | wait ms next ih => exact ih

/-- One step keeps to the terms. -/
theorem Keeps.step {t : Terms σ} {ends : α → Prop} {id : SessionId} {x x' : Script σ α}
    {s s' : Store} {y y' : σ} {e : Option Exchange} (h : x.Keeps t ends)
    (hstep : Step id x s y e x' s' y') (hy : t.shared y)
    (hears : ∀ r, e = some ⟨r, (s.serve id r).1⟩ → t.asks r → t.hears r (s.serve id r).1) :
    x'.Keeps t ends ∧ t.shared y' ∧ (y' = y ∨ t.changes y y') := by
  cases hstep with
  | call r next => exact ⟨h.2 _ (hears r rfl h.1), hy, .inl rfl⟩
  | look next => exact ⟨h _ hy, hy, .inl rfl⟩
  | change f => exact ⟨h.2, (h.1 _ hy).1, .inr (h.1 _ hy).2⟩
  | clock now next => exact ⟨h now, hy, .inl rfl⟩
  | fresh drawn next => exact ⟨h drawn, hy, .inl rfl⟩
  | wait ms => exact ⟨h, hy, .inl rfl⟩

/-- Every call of a step is one that the terms allow. -/
theorem Keeps.asks_of_step {t : Terms σ} {ends : α → Prop} {id : SessionId} {x x' : Script σ α}
    {s s' : Store} {y y' : σ} {e : Exchange} (h : x.Keeps t ends)
    (hstep : Step id x s y (some e) x' s' y') : t.asks e.request := by
  cases hstep with
  | call r next => exact h.1

/-! ### Where a script leads -/

/-- A party with states `S` that has scripts over `σ` run: its calls are answered in some of a
number of ways, and before every step its state may drift. -/
structure Party (S σ : Type) where
  get : S → σ
  set : σ → S → S
  answers : S → (r : Request) → Except StoreError r.Answer → S → Prop
  drift : S → S → Prop
  drift_refl : ∀ s, drift s s
  drift_trans : ∀ {s s' s''}, drift s s' → drift s' s'' → drift s s''

/-- However the calls are answered and the state drifts, the end has a property. -/
def Leads {S : Type} (p : Party S σ) (post : α → S → Prop) : Script σ α → S → Prop
  | done a, s => ∀ s', p.drift s s' → post a s'
  | call r next, s => ∀ s', p.drift s s' → ∀ answer s'', p.answers s' r answer s'' →
      (next answer).Leads p post s''
  | look next, s => ∀ s', p.drift s s' → (next (p.get s')).Leads p post s'
  | change f next, s => ∀ s', p.drift s s' → next.Leads p post (p.set (f (p.get s')) s')
  | clock next, s => ∀ now, (next now).Leads p post s
  | fresh next, s => ∀ id, (next id).Leads p post s
  | wait _ next, s => next.Leads p post s

variable {S : Type} {p : Party S σ}

theorem leads_bind {post : β → S → Prop} {x : Script σ α} {f : α → Script σ β} {s : S}
    (h : x.Leads p (fun a s => (f a).Leads p post s) s) : (x.bind f).Leads p post s := by
  induction x generalizing s with
  | done a => exact h s (p.drift_refl s)
  | call r next ih => exact fun s' hs answer s'' ha => ih answer (h s' hs answer s'' ha)
  | look next ih => exact fun s' hs => ih _ (h s' hs)
  | change g next ih => exact fun s' hs => ih (h s' hs)
  | clock next ih => exact fun now => ih now (h now)
  | fresh next ih => exact fun id => ih id (h id)
  | wait ms next ih => exact ih h

theorem Leads.mono {post post' : α → S → Prop} {x : Script σ α} {s : S} (h : x.Leads p post s)
    (himp : ∀ a s, post a s → post' a s) : x.Leads p post' s := by
  induction x generalizing s with
  | done a => exact fun s' hs => himp a s' (h s' hs)
  | call r next ih => exact fun s' hs answer s'' ha => ih answer (h s' hs answer s'' ha)
  | look next ih => exact fun s' hs => ih _ (h s' hs)
  | change g next ih => exact fun s' hs => ih (h s' hs)
  | clock next ih => exact fun now => ih now (h now)
  | fresh next ih => exact fun id => ih id (h id)
  | wait ms next ih => exact ih h

theorem Leads.and {post post' : α → S → Prop} {x : Script σ α} {s : S} (h : x.Leads p post s)
    (h' : x.Leads p post' s) : x.Leads p (fun a s => post a s ∧ post' a s) s := by
  induction x generalizing s with
  | done a => exact fun s' hs => ⟨h s' hs, h' s' hs⟩
  | call r next ih =>
      exact fun s' hs answer s'' ha => ih answer (h s' hs answer s'' ha) (h' s' hs answer s'' ha)
  | look next ih => exact fun s' hs => ih _ (h s' hs) (h' s' hs)
  | change f next ih => exact fun s' hs => ih (h s' hs) (h' s' hs)
  | clock next ih => exact fun now => ih now (h now) (h' now)
  | fresh next ih => exact fun id => ih id (h id) (h' id)
  | wait ms next ih => exact ih h h'

/-- A script that leads to a property does so from a state that has drifted. -/
theorem Leads.drift {post : α → S → Prop} {x : Script σ α} {s s' : S} (h : x.Leads p post s)
    (hs : p.drift s s') : x.Leads p post s' := by
  induction x generalizing s s' with
  | done a => exact fun s'' hs' => h s'' (p.drift_trans hs hs')
  | call r next ih => exact fun s'' hs' => h s'' (p.drift_trans hs hs')
  | look next ih => exact fun s'' hs' => h s'' (p.drift_trans hs hs')
  | change g next ih => exact fun s'' hs' => h s'' (p.drift_trans hs hs')
  | clock next ih => exact fun now => ih now (h now) hs
  | fresh next ih => exact fun id => ih id (h id) hs
  | wait ms next ih => exact ih h hs

/-- One step leads where the script leads, for a party to which the step belongs. -/
theorem Leads.step {post : α → S → Prop} {st st' : S} {id : SessionId} {x x' : Script σ α}
    {s s' : Store} {y y' : σ} {e : Option Exchange} (h : x.Leads p post st)
    (hstep : Step id x s y e x' s' y') (hget : p.get st = y) (hset : p.set y st = st)
    (hcall : ∀ r, e = some ⟨r, (s.serve id r).1⟩ → s' = (s.serve id r).2 → y' = y →
      p.answers st r (s.serve id r).1 st')
    (hquiet : e = none → st' = p.set y' st) : x'.Leads p post st' := by
  subst hget
  have hrefl := p.drift_refl st
  cases hstep with
  | call r next => exact h st hrefl _ st' (hcall r rfl rfl rfl)
  | look next =>
      rw [hquiet rfl, hset]
      exact h st hrefl
  | change f next =>
      rw [hquiet rfl]
      exact h st hrefl
  | clock now next =>
      rw [hquiet rfl, hset]
      exact h now
  | fresh drawn next =>
      rw [hquiet rfl, hset]
      exact h drawn
  | wait ms =>
      rw [hquiet rfl, hset]
      exact h

/-- A script that keeps to terms leads to what it ends in, and what the party keeps to stays so. -/
theorem Keeps.leads {t : Terms σ} {ends : α → Prop} (inv : S → Prop)
    (hshared : ∀ s, inv s → t.shared (p.get s)) (hdrift : ∀ s s', inv s → p.drift s s' → inv s')
    (hanswers : ∀ s r answer s', inv s → t.asks r → p.answers s r answer s' →
      t.hears r answer ∧ inv s')
    (hset : ∀ s y, inv s → t.shared y → inv (p.set y s)) {x : Script σ α} {s : S}
    (h : x.Keeps t ends) (hs : inv s) : x.Leads p (fun a s => ends a ∧ inv s) s := by
  induction x generalizing s with
  | done a => exact fun s' hs' => ⟨h, hdrift s s' hs hs'⟩
  | call r next ih =>
      intro s' hs' answer s'' ha
      obtain ⟨hhears, hinv⟩ := hanswers s' r answer s'' (hdrift s s' hs hs') h.1 ha
      exact ih answer (h.2 answer hhears) hinv
  | look next ih =>
      intro s' hs'
      have hinv := hdrift s s' hs hs'
      exact ih _ (h _ (hshared s' hinv)) hinv
  | change f next ih =>
      intro s' hs'
      have hinv := hdrift s s' hs hs'
      exact ih h.2 (hset s' _ hinv (h.1 _ (hshared s' hinv)).1)
  | clock next ih => exact fun now => ih now (h now) hs
  | fresh next ih => exact fun id => ih id (h id) hs
  | wait ms next ih => exact ih h hs

/-- What a script ends in on the weakest terms, it ends in for every party. -/
theorem Keeps.leads_ends {ends : α → Prop} {x : Script σ α} (h : x.Keeps {} ends) (s : S) :
    x.Leads p (fun a _ => ends a) s :=
  (h.leads (fun _ => True) (fun _ _ => trivial) (fun _ _ _ _ => trivial)
    (fun _ _ _ _ _ _ _ => ⟨trivial, trivial⟩) (fun _ _ _ _ => trivial) trivial).mono
      fun _ _ hends => hends.1

theorem leads_trivial (x : Script σ α) (s : S) : x.Leads p (fun _ _ => True) s :=
  (keeps_trivial x).leads_ends s

/-- The party as it is seen by a script over a part of the shared state. -/
def Party.zoom (p : Party S σ) (get : σ → τ) (set : τ → σ → σ) : Party S τ where
  get s := get (p.get s)
  set t s := p.set (set t (p.get s)) s
  answers := p.answers
  drift := p.drift
  drift_refl := p.drift_refl
  drift_trans := p.drift_trans

theorem leads_zoom {post : α → S → Prop} {get : σ → τ} {set : τ → σ → σ} {x : Script τ α} {s : S}
    (h : x.Leads (p.zoom get set) post s) : (x.zoom get set).Leads p post s := by
  induction x generalizing s with
  | done a => exact h
  | call r next ih => exact fun s' hs answer s'' ha => ih answer (h s' hs answer s'' ha)
  | look next ih => exact fun s' hs => ih _ (h s' hs)
  | change g next ih => exact fun s' hs => ih (h s' hs)
  | clock next ih => exact fun now => ih now (h now)
  | fresh next ih => exact fun id => ih id (h id)
  | wait ms next ih => exact ih h

/-! ### With nothing in between -/

/-- A store and a shared state that only one script acts on, with the calls that it made. -/
structure Sitting (σ : Type) where
  store : Store
  shared : σ
  heard : List Exchange := []

/-- The store answers the calls of a session, and nothing drifts. -/
def Sitting.party (id : SessionId) : Party (Sitting σ) σ where
  get := Sitting.shared
  set y s := { s with shared := y }
  answers s r answer s' :=
    answer = (s.store.serve id r).1 ∧
      s' = ⟨(s.store.serve id r).2, s.shared, s.heard ++ [⟨r, answer⟩]⟩
  drift s s' := s' = s
  drift_refl _ := rfl
  drift_trans h h' := h'.trans h

section Sittings

variable {post : α → Sitting σ → Prop} {id : SessionId} {s : Sitting σ}

theorem leads_done {a : α} (h : post a s) : (done a).Leads (Sitting.party id) post s := by
  rintro s' rfl
  exact h

theorem leads_call {r : Request} {next : Except StoreError r.Answer → Script σ α}
    (h : (next (s.store.serve id r).1).Leads (Sitting.party id) post
      ⟨(s.store.serve id r).2, s.shared, s.heard ++ [⟨r, (s.store.serve id r).1⟩]⟩) :
    (call r next).Leads (Sitting.party id) post s := by
  rintro s' rfl answer s'' ⟨rfl, rfl⟩
  exact h

theorem leads_look {next : σ → Script σ α}
    (h : (next s.shared).Leads (Sitting.party id) post s) :
    (look next).Leads (Sitting.party id) post s := by
  rintro s' rfl
  exact h

theorem leads_change {f : σ → σ} {next : Script σ α}
    (h : next.Leads (Sitting.party id) post { s with shared := f s.shared }) :
    (change f next).Leads (Sitting.party id) post s := by
  rintro s' rfl
  exact h

end Sittings

/-- Where a script leads is where a run of it ends. -/
theorem leads_run {post : α → Sitting σ → Prop} {id : SessionId} {now : Nat} {x : Script σ α}
    {s : Store} {y : σ} {ids : IdSource} {scene : Scene σ} {a : α} {es : List Exchange}
    (h : x.Leads (Sitting.party id) post ⟨s, y, es⟩)
    (hrun : x.run id now ⟨s, y, ids⟩ = (.finished a, scene)) :
    post a ⟨scene.store, scene.shared, es ++ x.heard id now ⟨s, y, ids⟩⟩ := by
  induction x generalizing s y ids es with
  | done b =>
      simp only [run, Prod.mk.injEq, Progress.finished.injEq] at hrun
      obtain ⟨rfl, rfl⟩ := hrun
      rw [heard, List.append_nil]
      exact h _ rfl
  | call r next ih =>
      have := ih _ (h _ rfl _ _ ⟨rfl, rfl⟩) hrun
      rw [List.append_assoc] at this
      exact this
  | look next ih => exact ih _ (h _ rfl) hrun
  | change f next ih => exact ih (h _ rfl) hrun
  | clock next ih => exact ih _ (h now) hrun
  | fresh next ih => exact ih _ (h _) hrun
  | wait ms next ih =>
      by_cases hms : ms = 0
      · simp only [run, heard, hms, ↓reduceIte] at hrun ⊢
        exact ih h hrun
      · simp [run, hms] at hrun

/-- One script after another runs on where the first one has ended. -/
theorem run_bind {id : SessionId} {now : Nat} {x : Script σ α} {f : α → Script σ β}
    {scene scene' : Scene σ} {a : α} (h : x.run id now scene = (.finished a, scene')) :
    (x.bind f).run id now scene = (f a).run id now scene' := by
  induction x generalizing scene with
  | done b =>
      cases h
      rfl
  | call r next ih => exact ih _ h
  | look next ih => exact ih _ h
  | change g next ih => exact ih h
  | clock next ih => exact ih _ h
  | fresh next ih => exact ih _ h
  | wait ms next ih =>
      by_cases hms : ms = 0
      · simp only [run, bind, hms, ↓reduceIte] at h ⊢
        exact ih h
      · simp [run, hms] at h

/-- What holds of how far a script came: the shared state has a property, which what is left keeps
up. -/
def Reaches (inv : σ → Prop) (ends : α → Prop) (out : Progress σ α × Scene σ) : Prop :=
  inv out.2.shared ∧
    match out.1 with
    | .finished a => ends a
    | .waiting _ rest => rest.Keeps { shared := inv } ends

theorem Keeps.reaches {inv : σ → Prop} {ends : α → Prop} {x : Script σ α}
    (h : x.Keeps { shared := inv } ends) (id : SessionId) (now : Nat) (scene : Scene σ)
    (hinv : inv scene.shared) : Reaches inv ends (x.run id now scene) := by
  induction x generalizing scene with
  | done a => exact ⟨hinv, h⟩
  | call r next ih => exact ih _ (h.2 _ trivial) _ hinv
  | look next ih => exact ih _ (h _ hinv) _ hinv
  | change f next ih => exact ih h.2 _ (h.1 _ hinv).1
  | clock next ih => exact ih _ (h now) _ hinv
  | fresh next ih => exact ih _ (h _) _ hinv
  | wait ms next ih =>
      rw [run]
      split
      · exact ih h _ hinv
      · exact ⟨hinv, h⟩

/-- The script never waits. -/
def Prompt : Script σ α → Prop
  | done _ => True
  | call _ next => ∀ answer, (next answer).Prompt
  | look next => ∀ y, (next y).Prompt
  | change _ next => next.Prompt
  | clock next => ∀ now, (next now).Prompt
  | fresh next => ∀ id, (next id).Prompt
  | wait _ _ => False

theorem prompt_bind {x : Script σ α} {f : α → Script σ β} (h : x.Prompt)
    (hf : ∀ a, (f a).Prompt) : (x.bind f).Prompt := by
  induction x with
  | done a => exact hf a
  | call r next ih => exact fun answer => ih answer (h answer)
  | look next ih => exact fun y => ih y (h y)
  | change g next ih => exact ih h
  | clock next ih => exact fun now => ih now (h now)
  | fresh next ih => exact fun id => ih id (h id)
  | wait ms next => exact h.elim

/-- A script that never waits runs to its end. -/
theorem Prompt.exists_run {x : Script σ α} (h : x.Prompt) (id : SessionId) (now : Nat)
    (scene : Scene σ) : ∃ a scene', x.run id now scene = (.finished a, scene') := by
  induction x generalizing scene with
  | done a => exact ⟨a, scene, rfl⟩
  | call r next ih => exact ih _ (h _) _
  | look next ih => exact ih _ (h _) scene
  | change f next ih => exact ih h _
  | clock next ih => exact ih now (h now) scene
  | fresh next ih => exact ih _ (h _) _
  | wait ms next => exact h.elim

/-- With nothing in between, every call is one that the terms allow. -/
theorem Keeps.asks_of_mem_heard {t : Terms σ} {ends : α → Prop} {id : SessionId} {now : Nat}
    {x : Script σ α} {s : Store} {y : σ} {ids : IdSource} {scene : Scene σ} {a : α}
    (h : x.Keeps t ends) (hy : t.shared y) (hears : ∀ r answer, t.hears r answer)
    (hrun : x.run id now ⟨s, y, ids⟩ = (.finished a, scene)) :
    ∀ e ∈ x.heard id now ⟨s, y, ids⟩, t.asks e.request := by
  have hleads := h.leads (p := Sitting.party id) (s := ⟨s, y, []⟩)
    (fun st => t.shared st.shared ∧ ∀ e ∈ st.heard, t.asks e.request) (fun _ hst => hst.1) ?_ ?_
    (fun st z hst hz => ⟨hz, hst.2⟩) ⟨hy, fun e he => by cases he⟩
  · exact (leads_run hleads hrun).2.2
  · rintro st _ hst rfl
    exact hst
  · rintro st r answer - ⟨hshared, hasks⟩ hr ⟨rfl, rfl⟩
    refine ⟨hears r _, hshared, fun e he => ?_⟩
    rcases List.mem_append.mp he with he | he
    · exact hasks e he
    · exact List.mem_singleton.mp he ▸ hr

end Script

end ServiceRegistry
