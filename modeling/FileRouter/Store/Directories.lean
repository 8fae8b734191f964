import FileRouter.Store.Basic
/-!
Making a directory with its parents.

`missing` climbs from a path to the first ancestor that exists; `createDirectories` makes what it has
passed, from the top down. A provider whose paths lead back to themselves is found out by a path that
comes up twice.
-/

namespace FileRouter.Store

variable {σ η : Type} (store : Store σ η)

/-- The ancestors of a path that are missing, from the top down, in front of those that have been passed
already. It ends with the failure `endless` after a given number of steps. -/
def missing : Nat → Option Text → List Text → Call σ (List Text)
  | 0, _, _ => throw .endless
  | _ + 1, none, passed => pure passed
  | steps + 1, some path, passed => do
    if ← store.exists? path then pure passed
    else if path ∈ passed then throw (.refused .parentLoop path)
    else missing steps (← store.parent? path) (path :: passed)

/-- Makes a directory and its missing ancestors; does nothing without a path. -/
def createDirectories (steps : Nat) (path : Option Text) : Call σ Unit := do
  (← store.missing steps path []).forM store.createDirectory

end FileRouter.Store
