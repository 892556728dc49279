import Mathlib.Logic.Relation
import ServiceRegistry.Proofs.Script.Steps

/-! # Scripts amid others

Others act on the shared state between the steps of a script. `Script.Upholds` says that every
change that the script makes is one that it may make, and that what it ends in has a property,
however often others act and however the calls are answered. It is a condition on the script's tree
which a step preserves (`Upholds.step`), and so do the acts of others (`Upholds.drift`).

An assertion is carried past a step if it is stable: if the acts of others preserve it. A script
over a part of the shared state of which nothing else is known upholds what is stable under every
change of that part (`upholds_zoom`). -/

namespace ServiceRegistry.Script

open Relation

variable {σ τ α β : Type}

/-- However others act and the calls are answered, the changes are ones that may be made, and the
end has a property. -/
def Upholds (acts may : σ → σ → Prop) (post : α → σ → Prop) : Script σ α → σ → Prop
  | done a, y => ∀ y', ReflTransGen acts y y' → post a y'
  | call _ next, y => ∀ answer, (next answer).Upholds acts may post y
  | look next, y => ∀ y', ReflTransGen acts y y' → (next y').Upholds acts may post y'
  | change f next, y => ∀ y', ReflTransGen acts y y' →
      may y' (f y') ∧ next.Upholds acts may post (f y')
  | clock next, y => ∀ now, (next now).Upholds acts may post y
  | fresh next, y => ∀ id, (next id).Upholds acts may post y
  | wait _ next, y => next.Upholds acts may post y

variable {acts may : σ → σ → Prop} {y : σ}

/-! ### Going on -/

theorem Upholds.drift {post : α → σ → Prop} {x : Script σ α} {y' : σ}
    (h : x.Upholds acts may post y) (hy : ReflTransGen acts y y') :
    x.Upholds acts may post y' := by
  induction x generalizing y with
  | done a => exact fun y'' hy' => h y'' (hy.trans hy')
  | call r next ih => exact fun answer => ih answer (h answer) hy
  | look next ih => exact fun y'' hy' => h y'' (hy.trans hy')
  | change f next ih => exact fun y'' hy' => h y'' (hy.trans hy')
  | clock next ih => exact fun now => ih now (h now) hy
  | fresh next ih => exact fun id => ih id (h id) hy
  | wait ms next ih => exact ih h hy

/-- A step changes nothing or what may be changed, and the rest upholds what is left. -/
theorem Upholds.step {post : α → σ → Prop} {x x' : Script σ α} {y' : σ}
    (h : x.Upholds acts may post y) {id : SessionId} {s s' : Store} {e : Option Exchange}
    (hstep : Step id x s y e x' s' y') :
    (y' = y ∨ may y y') ∧ x'.Upholds acts may post y' := by
  cases hstep with
  | call r next => exact ⟨.inl rfl, h _⟩
  | look next => exact ⟨.inl rfl, h _ .refl⟩
  | change f => exact ⟨.inr (h _ .refl).1, (h _ .refl).2⟩
  | clock now next => exact ⟨.inl rfl, h now⟩
  | fresh drawn next => exact ⟨.inl rfl, h drawn⟩
  | wait ms => exact ⟨.inl rfl, h⟩

theorem Upholds.post_of_done {post : α → σ → Prop} {a : α}
    (h : (done a).Upholds acts may post y) : post a y := h y .refl

/-! ### Putting scripts together -/

theorem upholds_bind {post : β → σ → Prop} {x : Script σ α} {f : α → Script σ β}
    (h : x.Upholds acts may (fun a y => (f a).Upholds acts may post y) y) :
    (x.bind f).Upholds acts may post y := by
  induction x generalizing y with
  | done a => exact h y .refl
  | call r next ih => exact fun answer => ih answer (h answer)
  | look next ih => exact fun y' hy => ih _ (h y' hy)
  | change g next ih => exact fun y' hy => ⟨(h y' hy).1, ih (h y' hy).2⟩
  | clock next ih => exact fun now => ih now (h now)
  | fresh next ih => exact fun id => ih id (h id)
  | wait ms next ih => exact ih h

section Stable

variable {P : σ → Prop} (stable : ∀ y y', P y → acts y y' → P y')
include stable

theorem stable_drift {y' : σ} (hy : P y) (h : ReflTransGen acts y y') : P y' := by
  induction h with
  | refl => exact hy
  | tail _ hact ih => exact stable _ _ ih hact

theorem upholds_done {post : α → σ → Prop} {a : α} (hy : P y) (hpost : ∀ y, P y → post a y) :
    (done a).Upholds acts may post y := fun y' h => hpost y' (stable_drift stable hy h)

theorem upholds_look {post : α → σ → Prop} {next : σ → Script σ α} (hy : P y)
    (hnext : ∀ y, P y → (next y).Upholds acts may post y) :
    (look next).Upholds acts may post y := fun y' h => hnext y' (stable_drift stable hy h)

theorem upholds_change {post : α → σ → Prop} {f : σ → σ} {next : Script σ α} (hy : P y)
    (hnext : ∀ y, P y → may y (f y) ∧ next.Upholds acts may post (f y)) :
    (change f next).Upholds acts may post y := fun y' h => hnext y' (stable_drift stable hy h)

/-- Whatever a script does to a part of the shared state, it upholds what is stable under that. -/
theorem upholds_zoom {post : α → σ → Prop} {get : σ → τ} {set : τ → σ → σ}
    (hset : ∀ y z, P y → may y (set z y) ∧ P (set z y)) (hpost : ∀ a y, P y → post a y)
    (x : Script τ α) (hy : P y) : (x.zoom get set).Upholds acts may post y := by
  induction x generalizing y with
  | done a => exact upholds_done stable hy (hpost a)
  | call r next ih => exact fun answer => ih answer hy
  | look next ih => exact upholds_look stable hy fun y hy => ih _ hy
  | change f next ih =>
      exact upholds_change stable hy fun y hy => ⟨(hset y _ hy).1, ih (hset y _ hy).2⟩
  | clock next ih => exact fun now => ih now hy
  | fresh next ih => exact fun id => ih id hy
  | wait ms next ih => exact ih hy

end Stable

/-! ### Runs amid others -/

/-- The shared state if a script is to look at it next. -/
def looked : Script σ α → σ → List σ
  | look _, y => [y]
  | _, _ => []

/-- Any number of steps of a script, between which others act on the store and on the shared state.
The list has the shared states that the script looked at. -/
inductive StepsAmid (acts : Store × σ → Store × σ → Prop) (id : SessionId) :
    Script σ α → Store × σ → List σ → Script σ α → Store × σ → Prop
  | refl (x : Script σ α) (c : Store × σ) : StepsAmid acts id x c [] x c
  | own {x x' x'' : Script σ α} {s s' : Store} {y y' : σ} {e : Option Exchange} {ys : List σ}
      {c : Store × σ} (first : Step id x s y e x' s' y')
      (rest : StepsAmid acts id x' (s', y') ys x'' c) :
      StepsAmid acts id x (s, y) (x.looked y ++ ys) x'' c
  | others {x x' : Script σ α} {c c' c'' : Store × σ} {ys : List σ} (act : acts c c')
      (rest : StepsAmid acts id x c' ys x' c'') : StepsAmid acts id x c ys x' c''

section Running

variable {together : Store × σ → Store × σ → Prop} {id : SessionId} {x x' : Script σ α}
  {c c' : Store × σ} {ys : List σ} {t : Terms σ} {ends : α → Prop}

/-- A script that is to look first has looked, or has not begun. -/
theorem StepsAmid.of_look {next : σ → Script σ α}
    (h : (look next).StepsAmid together id c ys x' c') :
    (x' = look next ∧ ys = [] ∧ ReflTransGen together c c') ∨
      ∃ c₁ ys', ReflTransGen together c c₁ ∧ ys = c₁.2 :: ys' ∧
        (next c₁.2).StepsAmid together id c₁ ys' x' c' := by
  generalize hx : look next = x at h
  induction h with
  | refl => exact .inl ⟨rfl, rfl, .refl⟩
  | own first rest =>
      subst hx
      cases first with
      | look => exact .inr ⟨_, _, .refl, rfl, rest⟩
  | others act _ ih =>
      rcases ih hx with ⟨hx', hys, hacts⟩ | ⟨c₁, ys', hacts, hys, hrest⟩
      · exact .inl ⟨hx', hys, .head act hacts⟩
      · exact .inr ⟨c₁, ys', .head act hacts, hys, hrest⟩

/-- A script that keeps to terms goes on doing so, if what it looks at is within the terms, and what
others preserve and the calls that are allowed stays so. -/
theorem Keeps.stepsAmid {P : Store → Prop} (h : x.Keeps t ends)
    (hsteps : x.StepsAmid together id c ys x' c') (hlooked : ∀ y ∈ ys, t.shared y)
    (hears : ∀ r answer, t.hears r answer) (hothers : ∀ c c', P c.1 → together c c' → P c'.1)
    (hserve : ∀ s r, t.asks r → P s → P (s.serve id r).2) (hP : P c.1) :
    x'.Keeps t ends ∧ P c'.1 := by
  induction hsteps with
  | refl => exact ⟨h, hP⟩
  | others act _ ih => exact ih h hlooked (hothers _ _ hP act)
  | own first _ ih =>
      have hrest := fun y hy => hlooked y (List.mem_append_right _ hy)
      cases first with
      | call r next => exact ih (h.2 _ (hears r _)) hrest (hserve _ r h.1 hP)
      | look next => exact ih (h _ (hlooked _ (List.mem_append_left _ (by simp [looked])))) hrest hP
      | change f => exact ih h.2 hrest hP
      | clock now next => exact ih (h now) hrest hP
      | fresh drawn next => exact ih (h drawn) hrest hP
      | wait ms => exact ih h hrest hP

/-- Steps with nothing in between; what the script looks at is within its terms. -/
theorem Keeps.exists_stepsAmid {s s' : Store} {y y' : σ} {es : List Exchange} (h : x.Keeps t ends)
    (hsteps : x.Steps id s y es x' s' y') (hy : t.shared y)
    (hears : ∀ r answer, t.hears r answer) :
    ∃ ys, x.StepsAmid together id (s, y) ys x' (s', y') ∧ ∀ z ∈ ys, t.shared z := by
  induction hsteps with
  | refl x s y => exact ⟨[], .refl _ _, by simp⟩
  | @step x _ _ _ _ _ y _ _ _ _ first _ ih =>
      obtain ⟨hkeeps, hy', -⟩ := h.step first hy fun r _ _ => hears r _
      obtain ⟨ys, hrest, hys⟩ := ih hkeeps hy'
      refine ⟨x.looked y ++ ys, .own first hrest, fun z hz => ?_⟩
      rcases List.mem_append.mp hz with hz | hz
      · cases x with
        | look next =>
            obtain rfl := List.mem_singleton.mp hz
            exact hy
        | _ => cases hz
      · exact hys z hz

end Running

/-! ### Parts of a part -/

theorem zoom_bind {get : σ → τ} {set : τ → σ → σ} (x : Script τ α) (f : α → Script τ β) :
    (x.bind f).zoom get set = (x.zoom get set).bind fun a => (f a).zoom get set := by
  induction x with
  | done a => rfl
  | call r next ih => simp only [bind, zoom, ih]
  | look next ih => simp only [bind, zoom, ih]
  | change g next ih => simp only [bind, zoom, ih]
  | clock next ih => simp only [bind, zoom, ih]
  | fresh next ih => simp only [bind, zoom, ih]
  | wait ms next ih => simp only [bind, zoom, ih]

theorem zoom_zoom {ρ : Type} {get : τ → ρ} {set : ρ → τ → τ} {get' : σ → τ} {set' : τ → σ → σ}
    (x : Script ρ α) :
    (x.zoom get set).zoom get' set' =
      x.zoom (fun y => get (get' y)) (fun z y => set' (set z (get' y)) y) := by
  induction x with
  | done a => rfl
  | call r next ih => simp only [zoom, ih]
  | look next ih => simp only [zoom, ih]
  | change g next ih => simp only [zoom, ih]
  | clock next ih => simp only [zoom, ih]
  | fresh next ih => simp only [zoom, ih]
  | wait ms next ih => simp only [zoom, ih]

theorem bind_assoc {γ : Type} (x : Script σ α) (f : α → Script σ β) (g : β → Script σ γ) :
    (x.bind f).bind g = x.bind fun a => (f a).bind g := by
  induction x with
  | done a => rfl
  | call r next ih => simp only [bind, ih]
  | look next ih => simp only [bind, ih]
  | change f next ih => simp only [bind, ih]
  | clock next ih => simp only [bind, ih]
  | fresh next ih => simp only [bind, ih]
  | wait ms next ih => simp only [bind, ih]

end ServiceRegistry.Script
