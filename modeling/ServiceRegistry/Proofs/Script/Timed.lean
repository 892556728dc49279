import ServiceRegistry.Proofs.Script.Steps

/-! # Scripts in time

`Script.Passes` is `Script.Ends` with a clock. Time passes until a call is answered and while the
script waits, as much as it may; the script itself acts at once. Every answer is kept with the time
at which it came, which is between the beginning and the end (`Script.Passes.le_time`,
`Script.Passes.time_le`). Leaving the times out gives back what the script ends in
(`Script.Passes.ends`). -/

namespace ServiceRegistry

/-- A call and its answer, with the time of the answer. -/
structure Moment where
  exchange : Exchange
  time : Nat

namespace Script

variable {σ α β : Type}

/-- A script that begins at a time ends in a value at another, with the calls that it made. The
answers can be any and take any time; only the script changes the shared state. -/
inductive Passes : Script σ α → σ → Nat → List Moment → α → σ → Nat → Prop
  | done (a : α) (y : σ) (now : Nat) : Passes (.done a) y now [] a y now
  | call (r : Request) (next : Except StoreError r.Answer → Script σ α)
      (answer : Except StoreError r.Answer) {y y' : σ} {now later stop : Nat} {ms : List Moment}
      {a : α} (le : now ≤ later) (rest : Passes (next answer) y later ms a y' stop) :
      Passes (.call r next) y now (⟨⟨r, answer⟩, later⟩ :: ms) a y' stop
  | look (next : σ → Script σ α) {y y' : σ} {now stop : Nat} {ms : List Moment} {a : α}
      (rest : Passes (next y) y now ms a y' stop) : Passes (.look next) y now ms a y' stop
  | change (f : σ → σ) (next : Script σ α) {y y' : σ} {now stop : Nat} {ms : List Moment} {a : α}
      (rest : Passes next (f y) now ms a y' stop) : Passes (.change f next) y now ms a y' stop
  | clock (next : Nat → Script σ α) {y y' : σ} {now stop : Nat} {ms : List Moment} {a : α}
      (rest : Passes (next now) y now ms a y' stop) : Passes (.clock next) y now ms a y' stop
  | fresh (drawn : InstanceId) (next : InstanceId → Script σ α) {y y' : σ} {now stop : Nat}
      {ms : List Moment} {a : α} (rest : Passes (next drawn) y now ms a y' stop) :
      Passes (.fresh next) y now ms a y' stop
  | wait (pause : Nat) (next : Script σ α) {y y' : σ} {now later stop : Nat} {ms : List Moment}
      {a : α} (le : now + pause ≤ later) (rest : Passes next y later ms a y' stop) :
      Passes (.wait pause next) y now ms a y' stop

variable {x : Script σ α} {y y' : σ} {now stop : Nat} {ms : List Moment} {a : α}

theorem Passes.ends (h : x.Passes y now ms a y' stop) :
    x.Ends y (ms.map (·.exchange)) a y' := by
  induction h with
  | done a y now => exact .done a y
  | call r next answer _ _ ih => exact .call r next answer ih
  | look next _ ih => exact .look next ih
  | change f next _ ih => exact .change f next ih
  | clock next _ ih => exact .clock _ next ih
  | fresh drawn next _ ih => exact .fresh drawn next ih
  | wait pause next _ _ ih => exact .wait pause next ih

theorem Passes.le (h : x.Passes y now ms a y' stop) : now ≤ stop := by
  induction h with
  | done => exact Nat.le_refl _
  | call r next answer le _ ih => exact Nat.le_trans le ih
  | look next _ ih => exact ih
  | change f next _ ih => exact ih
  | clock next _ ih => exact ih
  | fresh drawn next _ ih => exact ih
  | wait pause next le _ ih => omega

/-- No answer comes before the beginning. -/
theorem Passes.le_time (h : x.Passes y now ms a y' stop) : ∀ m ∈ ms, now ≤ m.time := by
  induction h with
  | done => exact fun _ hm => nomatch hm
  | call r next answer le _ ih =>
      intro m hm
      rcases List.mem_cons.mp hm with rfl | hm
      · exact le
      · exact Nat.le_trans le (ih m hm)
  | look next _ ih => exact ih
  | change f next _ ih => exact ih
  | clock next _ ih => exact ih
  | fresh drawn next _ ih => exact ih
  | wait pause next le _ ih =>
      intro m hm
      have := ih m hm
      omega

/-- No answer comes after the end. -/
theorem Passes.time_le (h : x.Passes y now ms a y' stop) : ∀ m ∈ ms, m.time ≤ stop := by
  induction h with
  | done => exact fun _ hm => nomatch hm
  | call r next answer _ rest ih =>
      intro m hm
      rcases List.mem_cons.mp hm with rfl | hm
      · exact rest.le
      · exact ih m hm
  | look next _ ih => exact ih
  | change f next _ ih => exact ih
  | clock next _ ih => exact ih
  | fresh drawn next _ ih => exact ih
  | wait pause next _ _ ih => exact ih

theorem Passes.bind {x : Script σ α} {f : α → Script σ β} {y y' y'' : σ} {now between stop : Nat}
    {ms ms' : List Moment} {a : α} {b : β} (hx : x.Passes y now ms a y' between)
    (hf : (f a).Passes y' between ms' b y'' stop) :
    (x.bind f).Passes y now (ms ++ ms') b y'' stop := by
  induction hx with
  | done a y now => exact hf
  | call r next answer le _ ih => exact .call r _ answer le (ih hf)
  | look next _ ih => exact .look _ (ih hf)
  | change g next _ ih => exact .change g _ (ih hf)
  | clock next _ ih => exact .clock _ (ih hf)
  | fresh drawn next _ ih => exact .fresh drawn _ (ih hf)
  | wait pause next le _ ih => exact .wait pause _ le (ih hf)

/-- One script after another begins when the first one ends. -/
theorem passes_bind {x : Script σ α} {f : α → Script σ β} {y y'' : σ} {now stop : Nat}
    {ms : List Moment} {b : β} (h : (x.bind f).Passes y now ms b y'' stop) :
    ∃ ms₁ a y' between ms₂, ms = ms₁ ++ ms₂ ∧ x.Passes y now ms₁ a y' between ∧
      (f a).Passes y' between ms₂ b y'' stop := by
  induction x generalizing y now ms with
  | done a => exact ⟨[], a, y, now, ms, rfl, .done a y now, h⟩
  | call r next ih =>
      cases h with
      | call _ _ answer le rest =>
          obtain ⟨ms₁, a, y', between, ms₂, rfl, hx, hf⟩ := ih answer rest
          exact ⟨_ :: ms₁, a, y', between, ms₂, rfl, .call r next answer le hx, hf⟩
  | look next ih =>
      cases h with
      | look _ rest =>
          obtain ⟨ms₁, a, y', between, ms₂, rfl, hx, hf⟩ := ih y rest
          exact ⟨ms₁, a, y', between, ms₂, rfl, .look next hx, hf⟩
  | change g next ih =>
      cases h with
      | change _ _ rest =>
          obtain ⟨ms₁, a, y', between, ms₂, rfl, hx, hf⟩ := ih rest
          exact ⟨ms₁, a, y', between, ms₂, rfl, .change g next hx, hf⟩
  | clock next ih =>
      cases h with
      | clock _ rest =>
          obtain ⟨ms₁, a, y', between, ms₂, rfl, hx, hf⟩ := ih now rest
          exact ⟨ms₁, a, y', between, ms₂, rfl, .clock next hx, hf⟩
  | fresh next ih =>
      cases h with
      | fresh drawn _ rest =>
          obtain ⟨ms₁, a, y', between, ms₂, rfl, hx, hf⟩ := ih drawn rest
          exact ⟨ms₁, a, y', between, ms₂, rfl, .fresh drawn next hx, hf⟩
  | wait pause next ih =>
      cases h with
      | wait _ _ le rest =>
          obtain ⟨ms₁, a, y', between, ms₂, rfl, hx, hf⟩ := ih rest
          exact ⟨ms₁, a, y', between, ms₂, rfl, .wait pause next le hx, hf⟩

end Script

end ServiceRegistry
