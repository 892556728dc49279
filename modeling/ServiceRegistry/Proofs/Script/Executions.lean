import ServiceRegistry.Proofs.Script.Steps

/-! # Executions

A script that a machine executes always comes to its end. If nobody but the script changes the
shared state, the end is one that `Script.Ends` describes, with the answers that the machine gave
(`Script.ends_execute`). -/

namespace ServiceRegistry.Script

variable {S σ α : Type}

/-- What a machine does besides lets the shared state be. -/
structure Machine.IsQuiet (m : Machine S σ) : Prop where
  shared_serve : ∀ st r, m.shared (m.serve st r).2 = m.shared st
  shared_setShared : ∀ y st, m.shared (m.setShared y st) = y
  shared_draw : ∀ st, m.shared (m.draw st).2 = m.shared st
  shared_pause : ∀ ms st, m.shared (m.pause ms st) = m.shared st

/-- The calls that are made when a machine executes a script, in order. -/
def told (m : Machine S σ) : Script σ α → S → List Exchange
  | done _, _ => []
  | call r next, st =>
    let (answer, st) := m.serve st r
    ⟨r, answer⟩ :: (next answer).told m st
  | look next, st => (next (m.shared st)).told m st
  | change f next, st => next.told m (m.setShared (f (m.shared st)) st)
  | clock next, st => (next (m.now st)).told m st
  | fresh next, st =>
    let (drawn, st) := m.draw st
    (next drawn).told m st
  | wait ms next, st => next.told m (m.pause ms st)

/-- What a script that is executed ends in. -/
theorem ends_execute {m : Machine S σ} (hm : m.IsQuiet) (x : Script σ α) (st : S) :
    x.Ends (m.shared st) (x.told m st) (x.execute m st).1 (m.shared (x.execute m st).2) := by
  induction x generalizing st with
  | done a => exact .done a _
  | call r next ih =>
      have hrest := ih (m.serve st r).1 (m.serve st r).2
      rw [hm.shared_serve] at hrest
      exact .call r next _ hrest
  | look next ih => exact .look next (ih _ st)
  | change f next ih =>
      have hrest := ih (m.setShared (f (m.shared st)) st)
      rw [hm.shared_setShared] at hrest
      exact .change f next hrest
  | clock next ih => exact .clock _ next (ih _ st)
  | fresh next ih =>
      have hrest := ih (m.draw st).1 (m.draw st).2
      rw [hm.shared_draw] at hrest
      exact .fresh _ next hrest
  | wait ms next ih =>
      have hrest := ih (m.pause ms st)
      rw [hm.shared_pause] at hrest
      exact .wait ms next hrest

end ServiceRegistry.Script
