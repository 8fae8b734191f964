import FileRouter.Store.Basic
/-!
Deleting files and whole directories.

`deleteRecursive` deletes what is below a directory before the directory itself, entry by entry in the
order of the listing. A path where nothing is counts as deleted. Each level of directories uses up one of
the levels it is given; it ends with the failure `endless` when there are more.
-/

namespace FileRouter

/-- What came of an attempt to delete a path: the failure, if it failed. -/
structure DeleteOutcome where
  path : Text
  failure : Option Failure
  deriving Repr, DecidableEq

/-- Whether the path was deleted. -/
def DeleteOutcome.succeeded (outcome : DeleteOutcome) : Bool := outcome.failure.isNone

namespace Store

variable {σ η : Type} (store : Store σ η)

/-- Deletes a file or an empty directory, and reports a failure instead of failing. -/
def attemptDelete (path : Text) : Call σ DeleteOutcome := do
  pure ⟨path, ← (store.delete path).failure?⟩

/-- Deletes a file or an empty directory and tells whether that was possible. -/
def tryDelete (path : Text) : Call σ Bool := do
  pure (← store.attemptDelete path).succeeded

/-- Deletes a path with everything below it. With `tryOnly`, what cannot be deleted is passed over. -/
def deleteRecursive (tryOnly : Bool) : Nat → Text → Call σ Unit
  | 0, _ => throw .endless
  | levels + 1, path => do
    if ← store.exists? path then
      if ← store.isDirectory path then
        (← store.listFiles path).forM (deleteRecursive tryOnly levels)
      if tryOnly then
        let _ ← store.attemptDelete path
      else store.delete path

end Store

end FileRouter
