import ServiceRegistry.Text.Cut

/-! # Node paths

A path is a text whose elements follow slashes. `parent` is the text before the last slash, the top
level's parent being the root `/`; `name` is the text after the last slash; `child` puts a slash
and a name after a path. None of them asks for a well-formed path. -/

namespace ServiceRegistry.Path

/-- The root, above the top level. -/
def root : String := "/"

/-- The path one level up; the root is its own parent. -/
def parent (path : String) : String :=
  match Text.cutLast '/' path.toList with
  | none => root
  | some ([], _) => root
  | some (before, _) => .ofList before

/-- The last element. -/
def name (path : String) : String :=
  match Text.cutLast '/' path.toList with
  | none => path
  | some (_, after) => .ofList after

/-- The path of a child as parties form it from a directory's path and a listed name. -/
def child (path name : String) : String := path ++ "/" ++ name

/-- The non-empty elements. -/
def elements (path : String) : List String :=
  ((Text.split '/' path.toList).filter (· ≠ [])).map .ofList

/-- The paths that lead to the last of the elements, the shortest first. -/
def chain (elements : List String) : List String :=
  let rec go (above : String) : List String → List String
    | [] => []
    | e :: es => child above e :: go (child above e) es
  go "" elements

end ServiceRegistry.Path
