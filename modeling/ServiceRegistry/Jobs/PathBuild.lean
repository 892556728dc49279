import ServiceRegistry.Jobs.Runner
import ServiceRegistry.Text.Blank

/-! # Building a path

This job makes every node on the way to a path that is not there yet, from the top down, each
persistent and empty. Elements of the path that are blank do not count. A node that someone else
makes in the meantime is as good. -/

namespace ServiceRegistry.Jobs

/-- The job of building a path. -/
structure PathBuild where
  path : String
deriving DecidableEq, Repr

namespace PathBuild

variable {κ : Type}

/-- The nodes on the way to the path, from the top down. -/
def steps (j : PathBuild) : List String :=
  Path.chain (((Text.split '/' j.path.toList).map String.ofList).filter fun e => !Text.allBlank e)

/-- Make the nodes that are missing. -/
def build : List String → Script κ (Except StoreError Bool)
  | [] => pure (.ok true)
  | path :: paths =>
    .call (.probe path) fun
      | .error e => pure (.error e)
      | .ok true => build paths
      | .ok false =>
        .call (.create path [] .persistent) fun
          | .ok _ => build paths
          | .error e => if e.isNodeExists then build paths else pure (.error e)

instance : Job PathBuild Unit where
  attempt j _ := do
    let result ← build j.steps
    return (j, result)

end PathBuild

end ServiceRegistry.Jobs
