import FileRouter.Store.Copy
/-!
Whole files and whole trees.

`readAll` and `writeAll` open a file for one transfer. `dump` is a picture of everything at and below a
path, depth first in the order of the listings.
-/

namespace FileRouter

/-- What a picture shows of a path: whether it is read-only, when it was written, if that was asked, and
what came of reading it, unless it is a directory. -/
structure Glimpse where
  path : Text
  readOnly : Bool
  modified : Option Int
  content : Option (Except Failure Bytes)

namespace Store

variable {σ η : Type} (store : Store σ η)

/-- The bytes of a file. -/
def readAll (path : Text) : Call σ Bytes := do
  let handle ← store.openInput path
  store.closing handle (store.read handle none)

/-- Writes bytes to a file, at its end or in place of its content; answers their number. -/
def writeAll (path : Text) (data : Bytes) (append : Bool) : Call σ Nat := do
  let handle ← store.openOutput path append
  store.closing handle (store.write handle data)

/-- A picture of everything at and below a path. It ends with the failure `endless` below a given number
of levels. -/
def dump (withTimes : Bool) : Nat → Text → Call σ (List Glimpse)
  | 0, _ => throw .endless
  | levels + 1, path => do
    let readOnly ← store.isReadOnly path
    let modified ← if withTimes then some <$> store.lastModified path else pure none
    if ← store.isDirectory path then
      let below ← (← store.listFiles path).mapM (dump withTimes levels)
      pure (⟨path, readOnly, modified, none⟩ :: below.flatten)
    else
      pure [⟨path, readOnly, modified, some (← (store.readAll path).attempt)⟩]

end Store

end FileRouter
