/-! # Turns

What only one can do at a time is done in turns. Who comes while another has the turn stands in
line, and a turn that is over goes to the first in line: `come_pass` says that turns go in the order
in which those who have them came. -/

namespace ServiceRegistry.Deployment

/-- Those who came for a turn and have not had it. It is the turn of the first of them. -/
structure Turns where
  queue : List Nat := []
deriving DecidableEq, Repr

namespace Turns

variable (t : Turns)

/-- Come for a turn. -/
def come (who : Nat) : Turns := ⟨t.queue ++ [who]⟩

/-- Is it someone's turn? -/
def isHeldBy (who : Nat) : Bool := t.queue.head? == some who

/-- The turn is over. -/
def pass : Turns := ⟨t.queue.tail⟩

/-- Who comes when nobody has the turn has it. -/
theorem isHeldBy_come_of_free (who : Nat) : (({} : Turns).come who).isHeldBy who = true := by
  simp [come, isHeldBy]

/-- Nobody loses the turn to one who comes later. -/
theorem isHeldBy_come {who : Nat} (h : t.isHeldBy who = true) (later : Nat) :
    (t.come later).isHeldBy who = true := by
  obtain ⟨queue⟩ := t
  cases queue with
  | nil => simp [isHeldBy] at h
  | cons first others => simpa [isHeldBy, come] using h

/-- To come while another has the turn is the same before and after that turn is over. -/
theorem come_pass {who : Nat} (h : t.isHeldBy who = true) (later : Nat) :
    (t.come later).pass = t.pass.come later := by
  obtain ⟨queue⟩ := t
  cases queue with
  | nil => simp [isHeldBy] at h
  | cons first others => rfl

end Turns

end ServiceRegistry.Deployment
