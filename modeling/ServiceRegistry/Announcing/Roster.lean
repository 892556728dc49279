import ServiceRegistry.Record

/-! # Rosters

A roster holds the records that one party wants to be visible, and the static records that it wants
to be removed. No record is in both. Every change raises the roster's generation, which starts at 1.

A change is made in single steps, which stand here in their order. Others can look at the roster, or
change it too, between two of them. Announcing a record and withdrawing all raise the generation
last. Withdrawing one record raises it before the record is queued for removal, so whoever looks in
between sees the new generation and not the removal that goes with it. -/

namespace ServiceRegistry

/-- The records wanted by a party. -/
structure Roster where
  /-- The records that should be visible, each once. -/
  desired : List Record := []
  /-- The static records that should be removed, each once. -/
  removals : List Record := []
  generation : Nat := 1

namespace Roster

/-- Add a record to a list that holds each record once. -/
def add (r : Record) (rs : List Record) : List Record := if r ∈ rs then rs else rs ++ [r]

/-- Drop a record. -/
def drop (r : Record) (rs : List Record) : List Record := rs.filter (· ≠ r)

/-! ### Single steps -/

/-- Have a record among the desired ones. -/
def want (t : Roster) (r : Record) : Roster := { t with desired := add r t.desired }

/-- Have a record no more among the desired ones. -/
def unwant (t : Roster) (r : Record) : Roster := { t with desired := drop r t.desired }

/-- Queue a record for removal, if it is static. -/
def queue (t : Roster) (r : Record) : Roster :=
  { t with removals := if r.isStatic then add r t.removals else t.removals }

/-- A record need not be removed any more. -/
def unqueue (t : Roster) (r : Record) : Roster := { t with removals := drop r t.removals }

/-- Make the change known. -/
def raise (t : Roster) : Roster := { t with generation := t.generation + 1 }

/-! ### Changes -/

/-- Want a record to be visible. -/
def announce (t : Roster) (r : Record) : Roster := ((t.unqueue r).want r).raise

/-- Want a record to be visible no more. -/
def withdraw (t : Roster) (r : Record) : Roster := ((t.unwant r).raise).queue r

/-- Want no record to be visible any more: the desired records are queued and dropped, one after the
other, and last the change is made known. -/
def withdrawAll (t : Roster) : Roster where
  desired := []
  removals := (t.desired.filter (·.isStatic)).foldl (fun rs r => add r rs) t.removals
  generation := t.generation + 1

@[simp] theorem mem_add {r x : Record} {rs : List Record} : x ∈ add r rs ↔ x = r ∨ x ∈ rs := by
  unfold add
  split
  · constructor
    · exact Or.inr
    · rintro (rfl | h) <;> assumption
  · simp [or_comm]

@[simp] theorem mem_drop {r x : Record} {rs : List Record} : x ∈ drop r rs ↔ x ∈ rs ∧ x ≠ r := by
  simp [drop]

section Membership

variable {t : Roster} {r x : Record}

@[simp] theorem mem_desired_announce : x ∈ (t.announce r).desired ↔ x = r ∨ x ∈ t.desired :=
  mem_add

@[simp] theorem mem_removals_announce : x ∈ (t.announce r).removals ↔ x ∈ t.removals ∧ x ≠ r :=
  mem_drop

@[simp] theorem mem_desired_withdraw : x ∈ (t.withdraw r).desired ↔ x ∈ t.desired ∧ x ≠ r :=
  mem_drop

@[simp] theorem mem_removals_unqueue : x ∈ (t.unqueue r).removals ↔ x ∈ t.removals ∧ x ≠ r :=
  mem_drop

end Membership

end Roster

end ServiceRegistry
