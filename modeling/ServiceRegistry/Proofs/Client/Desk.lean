import ServiceRegistry.Proofs.Announcing.Changes
import ServiceRegistry.Proofs.Client.Following

/-! # A client whose roster is changed step by step

The roster of a client is changed by others, on any number of tasks. Each of them makes its changes
one after the other and every change in single steps; between two steps of one the client can make
any moves, and others can make steps of theirs (`Client.Desk.Step`). Made in one go, the steps are
the change (`Client.Desk.Reachable.heed`).

A desk takes down which records a pass overtakes: when it begins, their withdrawal has raised the
generation and has not queued them yet. -/

namespace ServiceRegistry

namespace Client

open Worker
open Roster (Touch Wish)

/-- The roster is changed by others. -/
def withRoster (c : Client.Course) (g : Roster → Roster) : Client.Course :=
  { c with shared := { c.shared with roster := g c.shared.roster } }

/-- A client's course, with the changes of its roster that are under way on other tasks. -/
structure Desk where
  course : Client.Course
  /-- What is left of the change that a task makes. -/
  calls : Nat → List Touch := fun _ => []
  /-- By the moments at which passes began: the records whose withdrawal had raised the generation
  then, and not queued them yet. -/
  overtaken : Nat → Record → Prop := fun _ _ => False

namespace Desk

variable {c d : Client.Course} {b : Desk} {noticed i : Nat} {f : Touch} {left : List Touch}

/-- The records whose withdrawal has raised the generation and not queued them yet. -/
def IsLate (b : Desk) (r : Record) : Prop := ∃ i, b.calls i = [.queue r]

/-- A pass is under way, and before none was. -/
def Begins (c d : Client.Course) : Prop :=
  c.bench.underway = none ∧ d.bench.underway.isSome = true

instance (c d : Client.Course) : Decidable (Begins c d) := inferInstanceAs (Decidable (_ ∧ _))

/-- The client makes a move. -/
def moved (b : Desk) (d : Client.Course) : Desk where
  course := d
  calls := b.calls
  overtaken :=
    if Begins b.course d then Function.update b.overtaken d.bench.moment b.IsLate else b.overtaken

/-- A task makes a step of its change. -/
def touched (b : Desk) (i : Nat) (f : Touch) (left : List Touch) : Desk :=
  { b with course := withRoster b.course (·.touch f), calls := Function.update b.calls i left }

/-- A step of a run. Others do what they like with the store and the catalogue; a change of the
roster is begun at any time, and then made step by step, each step at any time. -/
inductive Step : Desk → Desk → Prop
  | own {b : Desk} {d : Client.Course} (move : Course.Move b.course d) : Step b (b.moved d)
  | others (b : Desk) (s : Store) (catalog : Catalog) :
      Step b { b with course := ⟨b.course.bench, s, { b.course.shared with catalog }⟩ }
  | call {b : Desk} {i : Nat} (idle : b.calls i = []) (w : Wish) (found : List Record) :
      Step b { b with calls := Function.update b.calls i (w.steps found) }
  | touch {b : Desk} {i : Nat} {f : Touch} {left : List Touch} (calls_eq : b.calls i = f :: left) :
      Step b (b.touched i f left)

/-- A desk is reached by a run from the start of a client over a store. -/
def Reachable (client : Client) (s : Store) (b : Desk) : Prop :=
  Relation.ReflTransGen Step { course := Worker.Course.start client.survey s client.shared } b

/-- A move that begins no pass. -/
theorem moved_eq (h : b.course.bench.underway = none → d.bench.underway = none) :
    b.moved d = { b with course := d } := by
  have hnot : ¬Begins b.course d := by
    rintro ⟨hidle, hbegun⟩
    rw [h hidle] at hbegun
    cases hbegun
  rw [moved, if_neg hnot]

/-! ### Changes in one go -/

namespace Reachable

variable {client : Client} {s : Store}

theorem update_idle (idle : b.calls i = []) : Function.update b.calls i [] = b.calls := by
  rw [← idle, Function.update_eq_self]

/-- A task makes what is left of its change. -/
theorem steps (h : Reachable client s b) (hi : b.calls i = left) :
    Reachable client s
      ⟨withRoster b.course (left.foldl Roster.touch), Function.update b.calls i [],
        b.overtaken⟩ := by
  induction left generalizing b with
  | nil =>
      rw [update_idle hi]
      exact h
  | cons f left ih =>
      have hrest := ih (h.tail (.touch hi)) (Function.update_self ..)
      rw [touched, Function.update_idem] at hrest
      exact hrest

/-- A task makes all of a change. -/
theorem heed (h : Reachable client s b) (idle : b.calls i = []) (w : Wish) :
    Reachable client s { b with course := withRoster b.course (·.heed w) } := by
  have hcall : Reachable client s _ := h.tail (.call idle w b.course.shared.roster.desired)
  have hsteps := hcall.steps (Function.update_self ..)
  rw [Function.update_idem, update_idle idle] at hsteps
  have hroster : withRoster b.course (·.heed w) = withRoster b.course
      ((w.steps b.course.shared.roster.desired).foldl Roster.touch) := by
    rw [withRoster, withRoster, Roster.foldl_steps]
  rw [hroster]
  exact hsteps

/-- Others put another store in place. -/
theorem store (h : Reachable client s b) (s' : Store) :
    Reachable client s { b with course := { b.course with store := s' } } :=
  h.tail (.others b s' b.course.shared.catalog)

theorem moves (h : Reachable client s b) (hmoves : Relation.ReflTransGen Course.Move b.course d) :
    ∃ overtaken, Reachable client s ⟨d, b.calls, overtaken⟩ := by
  induction hmoves with
  | refl => exact ⟨_, h⟩
  | tail _ hmove ih =>
      obtain ⟨overtaken, h⟩ := ih
      exact ⟨_, h.tail (.own hmove)⟩

/-- The client makes moves before the last step of a withdrawal. -/
theorem withdraw_around (h : Reachable client s b) (idle : b.calls i = []) (r : Record)
    (hmoves : Relation.ReflTransGen Course.Move
      (withRoster b.course fun t => (t.unwant r).raise) d) :
    ∃ overtaken, Reachable client s ⟨withRoster d (·.queue r), b.calls, overtaken⟩ := by
  have hcall : Reachable client s _ := h.tail (.call idle (.withdraw r) [])
  have hunwanted : Reachable client s _ := hcall.tail (.touch (Function.update_self ..))
  have hraised : Reachable client s _ := hunwanted.tail (.touch (Function.update_self ..))
  obtain ⟨overtaken, hmoved⟩ := hraised.moves hmoves
  have hqueued := hmoved.steps (Function.update_self ..)
  simp only [touched, Function.update_idem, update_idle idle] at hqueued
  exact ⟨overtaken, hqueued⟩

/-- While no change is under way no record is overtaken. -/
theorem moves_of_idle (h : Reachable client s { course := c })
    (hmoves : Relation.ReflTransGen Course.Move c d) : Reachable client s { course := d } := by
  induction hmoves with
  | refl => exact h
  | @tail c d _ hmove ih =>
      have hlate : IsLate { course := c } = fun _ => False := by
        funext r
        exact eq_false fun ⟨_, hr⟩ => by cases hr
      have hmoved : moved { course := c } d = { course := d } := by
        rw [moved, hlate, Function.update_eq_self_iff.mpr rfl, ite_self]
      exact hmoved ▸ ih.tail (.own hmove)

end Reachable

/-! ### Changes that were noticed -/

/-- The publisher has noticed the present generation, and every change under way has raised it. -/
def IsNoticed (noticed : Nat) (b : Desk) : Prop :=
  noticed = b.course.shared.roster.generation ∧ ∀ i, .raise ∉ b.calls i

/-- A change that can be made without being noticed is the queueing of a late record. -/
theorem IsNoticed.of_touched (h : (b.touched i f left).IsNoticed noticed)
    (hle : noticed ≤ b.course.shared.roster.generation) (hi : b.calls i = f :: left)
    {w : Wish} {found : List Record} (hsuffix : b.calls i <:+ w.steps found) :
    b.IsNoticed noticed ∧ ∃ r, f = .queue r ∧ left = [] := by
  obtain ⟨hgen, hraised⟩ := h
  have hleft : .raise ∉ left := by simpa [touched] using hraised i
  have hgen' : noticed = (b.course.shared.roster.touch f).generation := hgen
  have hf : f ≠ .raise := by
    rintro rfl
    have hraise : noticed = b.course.shared.roster.generation + 1 := hgen'
    omega
  have hnot : .raise ∉ b.calls i := by simp [hi, hf.symm, hleft]
  have hqueue := (Wish.left_cases hsuffix hnot).resolve_left (by simp [hi])
  obtain ⟨r, -, hr⟩ := hqueue
  rw [hi] at hr
  refine ⟨⟨hgen'.trans (Roster.generation_touch hf _), fun j => ?_⟩, r, List.cons.inj hr⟩
  by_cases hj : j = i
  · exact hj ▸ hnot
  · simpa [touched, hj] using hraised j

/-- A change that ends leaves no record late that was not late before. -/
theorem IsLate.of_touched {r : Record} (h : (b.touched i f []).IsLate r) : b.IsLate r := by
  obtain ⟨j, hj⟩ := h
  refine ⟨j, ?_⟩
  by_cases hji : j = i
  · simp [touched, hji] at hj
  · simpa [touched, hji] using hj

end Desk

end Client

end ServiceRegistry
