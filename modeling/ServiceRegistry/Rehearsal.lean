import ServiceRegistry.Jobs.PathBuild
import ServiceRegistry.Worker.Survey

/-! # Rehearsals

Stand-ins for visitors, tasks and jobs that take the outcome of each attempt from a list and keep a
log. With them the workings of workers and runners can be watched without a directory. An attempt
for which no outcome is left succeeds. -/

namespace ServiceRegistry.Rehearsal

/-- An error in which an attempt is to end, and the name under which that is logged. -/
structure Failure where
  name : String
  code : StoreError.Code
deriving DecidableEq, Repr

/-! ### Visitors -/

/-- What is logged of a visit. -/
structure VisitEntry where
  visitor : String
  children : List String
  session : SessionId
  generation : Nat
  fails : Option Failure
  time : Nat

/-- What is logged of a pass. -/
structure PassEntry (ω : Type) where
  session : SessionId
  tick : Nat
  generation : Nat
  outcome : ω
  time : Nat

/-- How an attempt ends. -/
inductive Outcome where
  | complete
  | again
  | fails (failure : Failure)
deriving DecidableEq, Repr

/-- The result of an attempt that ends in a given way; errors are about the path `/work`. -/
def Outcome.result : Outcome → Except StoreError Bool
  | complete => .ok true
  | again => .ok false
  | fails failure => .error ⟨failure.code, "/work"⟩

/-- An entry of a worker's log. -/
inductive Entry where
  | visit (e : VisitEntry)
  | pass (e : PassEntry Outcome)

/-- A visitor with a list of outcomes: the errors that its visits end in. -/
structure Visitor where
  name : String
  outcomes : List (Option Failure)
  /-- The ticks at which it asks for a pass. -/
  bumpAt : List Nat

instance : ServiceRegistry.Visitor Visitor (List Entry) where
  request v _ tick generation := (v, if tick ∈ v.bumpAt then generation + 1 else generation)
  visit v children session generation :=
    .clock fun time =>
      let fails := v.outcomes.head?.join
      .change (· ++ [.visit { visitor := v.name, children, session, generation, fails, time }])
        (pure ({ v with outcomes := v.outcomes.tail },
          match fails with
          | some failure => .error ⟨failure.code, "/visit"⟩
          | none => .ok ()))

/-! ### Tasks -/

/-- A task with a list of outcomes, each reached after a delay. -/
structure Chore where
  outcomes : List Outcome
  delay : Nat

instance : Task Chore (List Entry) where
  request t _ _ generation := (t, generation)
  work t session pass :=
    .clock fun time =>
      let outcome := t.outcomes.head?.getD .complete
      let entry : PassEntry Outcome :=
        { session, tick := pass.tick, generation := pass.generation, outcome, time }
      .change (· ++ [.pass entry])
        (.pauseFor t.delay (pure ({ t with outcomes := t.outcomes.tail }, outcome.result)))

/-- What a rehearsed worker does. -/
inductive Work where
  | chore (t : Chore)
  | survey (t : Survey Visitor)

instance : Task Work (List Entry) where
  request w log tick generation :=
    match w with
    | .chore t =>
      let (t, generation) := Task.request t log tick generation
      (.chore t, generation)
    | .survey t =>
      let (t, generation) := Task.request t log tick generation
      (.survey t, generation)
  work w session pass :=
    match w with
    | .chore t => do
      let (t, result) ← Task.work t session pass
      return (.chore t, result)
    | .survey t => do
      let (t, result) ← Task.work t session pass
      return (.survey t, result)

/-! ### Jobs -/

/-- What is logged of an attempt at a job. -/
structure AttemptEntry where
  /-- Which job it was. -/
  tag : Nat
  session : SessionId
  outcome : Outcome
  time : Nat

/-- A job with a list of outcomes, each reached after a delay. -/
structure Errand where
  tag : Nat
  outcomes : List Outcome
  delay : Nat
  attempts : Nat := 0

/-- A job that builds a path, or one with a list of outcomes. -/
inductive Job where
  | build (j : Jobs.PathBuild)
  | errand (j : Errand)

instance : Jobs.Job Job (List AttemptEntry) where
  attempt j session :=
    match j with
    | .build b => do
      let result ← Jobs.PathBuild.build b.steps
      return (.build b, result)
    | .errand e =>
      .clock fun time =>
        let outcome := e.outcomes.head?.getD .complete
        .change (· ++ [{ tag := e.tag, session, outcome, time }])
          (.pauseFor e.delay
            (pure (.errand { e with outcomes := e.outcomes.tail, attempts := e.attempts + 1 },
              outcome.result)))

end ServiceRegistry.Rehearsal
