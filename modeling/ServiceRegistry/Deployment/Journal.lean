import ServiceRegistry.Catalog

/-! # Journals of the known services

A journal keeps a line for every look at the services that a party knows: a line of note if the
summary differs from the one at the same party's look before, else a minor one. -/

namespace ServiceRegistry

/-- A line of a journal. -/
inductive Journal.Line where
  | changed (summary : String)
  | unchanged (summary : String)
  | closed
deriving DecidableEq, Repr

/-- What was written so far, the oldest first. -/
structure Journal where
  lines : List Journal.Line := []

namespace Journal

/-- How much a line matters. -/
def Line.level : Line → String
  | changed _ => "INFO"
  | unchanged _ => "DEBUG"
  | closed => "INFO"

/-- The wording of a line. -/
def Line.text : Line → String
  | changed summary => "State of the world: " ++ summary
  | unchanged summary => "State of the world unchanged: " ++ summary
  | closed => "State logger shutting down"

/-- The line of a look at which there is a summary; `last` is the one at the look before, empty if
this is the first. -/
def Line.ofLook (last summary : String) : Line :=
  if summary = last then .unchanged summary else .changed summary

/-- Write a line. -/
def write (j : Journal) (line : Line) : Journal := { lines := j.lines ++ [line] }

end Journal

end ServiceRegistry
