import ServiceRegistry.Proofs.Script.Steps

/-! # Scripts that mirror scripts

A script over a larger state mirrors another one if it makes the same calls and does the same to the
part of its state that the other one sees, and else only changes what the other one does not see
(`Script.Mirrors`). Then each step of the other one is matched by steps of its own
(`Mirrors.step`), and where the other one ends it comes to its end too (`Mirrors.ends`). -/

namespace ServiceRegistry.Script

variable {σ τ ρ α β γ δ : Type}

/-- The first script does what the second one does, as is seen through `see`, and ends in what is
read as the end of the second one. -/
inductive Mirrors (see : σ → τ) (read : α → β) : Script σ α → Script τ β → Prop
  | done (a : α) : Mirrors see read (.done a) (.done (read a))
  | call (r : Request) {next : Except StoreError r.Answer → Script σ α}
      {next' : Except StoreError r.Answer → Script τ β}
      (rest : ∀ answer, Mirrors see read (next answer) (next' answer)) :
      Mirrors see read (.call r next) (.call r next')
  | look {next : σ → Script σ α} {next' : τ → Script τ β}
      (rest : ∀ y, Mirrors see read (next y) (next' (see y))) :
      Mirrors see read (.look next) (.look next')
  | change {f : σ → σ} {f' : τ → τ} {next : Script σ α} {next' : Script τ β}
      (same : ∀ y, see (f y) = f' (see y)) (rest : Mirrors see read next next') :
      Mirrors see read (.change f next) (.change f' next')
  /-- A change that is not seen. -/
  | aside {f : σ → σ} {next : Script σ α} {x : Script τ β} (unseen : ∀ y, see (f y) = see y)
      (rest : Mirrors see read next x) : Mirrors see read (.change f next) x
  | clock {next : Nat → Script σ α} {next' : Nat → Script τ β}
      (rest : ∀ now, Mirrors see read (next now) (next' now)) :
      Mirrors see read (.clock next) (.clock next')
  | fresh {next : InstanceId → Script σ α} {next' : InstanceId → Script τ β}
      (rest : ∀ id, Mirrors see read (next id) (next' id)) :
      Mirrors see read (.fresh next) (.fresh next')
  | wait (ms : Nat) {next : Script σ α} {next' : Script τ β} (rest : Mirrors see read next next') :
      Mirrors see read (.wait ms next) (.wait ms next')

variable {see : σ → τ} {read : α → β}

theorem Mirrors.bind {read' : γ → δ} {x : Script σ α} {x' : Script τ β} {f : α → Script σ γ}
    {f' : β → Script τ δ} (h : Mirrors see read x x')
    (hf : ∀ a, Mirrors see read' (f a) (f' (read a))) :
    Mirrors see read' (x.bind f) (x'.bind f') := by
  induction h with
  | done a => exact hf a
  | call r _ ih => exact .call r fun answer => ih answer
  | look _ ih => exact .look fun y => ih y
  | change same _ ih => exact .change same ih
  | aside unseen _ ih => exact .aside unseen ih
  | clock _ ih => exact .clock fun now => ih now
  | fresh _ ih => exact .fresh fun id => ih id
  | wait ms _ ih => exact .wait ms ih

/-- A script over a part that both states have mirrors itself. -/
theorem mirrors_zoom {get : σ → ρ} {set : ρ → σ → σ} {get' : τ → ρ} {set' : ρ → τ → τ}
    (hget : ∀ y, get' (see y) = get y) (hset : ∀ z y, see (set z y) = set' z (see y))
    (x : Script ρ α) : Mirrors see id (x.zoom get set) (x.zoom get' set') := by
  induction x with
  | done a => exact .done a
  | call r next ih => exact .call r fun answer => ih answer
  | look next ih =>
      refine .look fun y => ?_
      rw [hget]
      exact ih _
  | change f next ih =>
      refine .change (fun y => ?_) ih
      rw [hset, hget]
  | clock next ih => exact .clock fun now => ih now
  | fresh next ih => exact .fresh fun id => ih id
  | wait ms next ih => exact .wait ms ih

/-- A step is matched by a step, after changes that are not seen. -/
theorem Mirrors.step {x : Script σ α} {x' x'' : Script τ β} (h : Mirrors see read x x')
    {id : SessionId} {s s' : Store} {y : σ} {z : τ} {e : Option Exchange}
    (hstep : Step id x' s (see y) e x'' s' z) :
    ∃ w y', Steps id x s y e.toList w s' y' ∧ see y' = z ∧ Mirrors see read w x'' := by
  have single : ∀ {w w' : Script σ α} {s s' : Store} {y y' : σ} {e : Option Exchange},
      Step id w s y e w' s' y' → Steps id w s y e.toList w' s' y' := fun h => by
    rw [← List.append_nil (Option.toList _)]
    exact .step h (.refl _ _ _)
  induction h generalizing y with
  | done a => cases hstep
  | call r rest =>
      cases hstep
      exact ⟨_, y, single (.call r _ s y), rfl, rest _⟩
  | look rest =>
      cases hstep
      exact ⟨_, y, single (.look _ s y), rfl, rest y⟩
  | change same rest =>
      cases hstep
      exact ⟨_, _, single (.change _ _ s y), same y, rest⟩
  | aside unseen rest ih =>
      rw [← unseen y] at hstep
      obtain ⟨w, y', hsteps, hsee, hmirrors⟩ := ih hstep
      exact ⟨w, y', .step (.change _ _ s y) hsteps, hsee, hmirrors⟩
  | clock rest =>
      cases hstep with
      | clock now => exact ⟨_, y, single (.clock now _ s y), rfl, rest now⟩
  | fresh rest =>
      cases hstep with
      | fresh drawn => exact ⟨_, y, single (.fresh drawn _ s y), rfl, rest drawn⟩
  | wait ms rest =>
      cases hstep
      exact ⟨_, y, single (.wait ms _ s y), rfl, rest⟩

/-- An end is matched by an end, after changes that are not seen. -/
theorem Mirrors.ends {x : Script σ α} {x' : Script τ β} (h : Mirrors see read x x') {b : β}
    (hx : x' = .done b) (id : SessionId) (s : Store) (y : σ) :
    ∃ a y', Steps id x s y [] (.done a) s y' ∧ see y' = see y ∧ read a = b := by
  induction h generalizing y with
  | done a => exact ⟨a, y, .refl _ s y, rfl, Script.done.inj hx⟩
  | aside unseen rest ih =>
      obtain ⟨a, y', hsteps, hsee, hread⟩ := ih hx _
      exact ⟨a, y', .step (.change _ _ s y) hsteps, hsee.trans (unseen y), hread⟩
  | _ => cases hx

end ServiceRegistry.Script
