import FileRouter.Store.Content
import FileRouter.Store.Delete
import FileRouter.Store.Directories
import FileRouter.World.Basic
/-!
The stores of a world.

`World.store` is the surface over a registry, `World.storeAt` the one over a single provider. The
operations that a store is asked to bound are bounded here by what there is in the world: levels by the
number of entries, steps upwards by the slashes in paths, chunks by the number of bytes.
-/

namespace FileRouter

/-- The length of the texts that an answer leads to. -/
def Answer.reach : Answer → Nat
  | .text value => value.length
  | .texts values => total List.length values
  | _ => 0

/-- The number of bytes that an answer brings. -/
def Answer.volume : Answer → Nat
  | .stream plan => plan.bytes.length
  | _ => 0

namespace World

/-- The rules of all scripts. -/
def rules (world : World) : List Rule :=
  world.providers.flatMap fun provider =>
    match provider.backing with
    | .scripted script => script.rules
    | _ => []

/-- The drives of all memory providers. -/
def drives (world : World) : List Drive :=
  world.providers.filterMap fun provider =>
    match provider.backing with
    | .memory drive => some drive
    | _ => none

/-- A number of levels that no tree of directories in this world exceeds. -/
def levels (world : World) : Nat :=
  world.disk.fs.entries.length + total (fun drive => drive.tree.length) world.drives + world.rules.length + 2

/-- A number of steps after which the parents of a path have come to an end or repeat themselves: each
step upwards takes a slash off the path, or off a home or an answer that the path has led to. -/
def climb (world : World) (path : Text) : Nat :=
  let homes := world.disk.fs.home.length + total (fun user => user.2.length) world.disk.fs.users
  let reach := total (fun rule => rule.answer.reach) world.rules
  (world.rules.length + 1) * (path.count '/' + homes + reach + 8)

/-- A number of chunks that is enough for any file. -/
def volume (world : World) : Nat :=
  world.disk.fs.volume + total (fun drive => drive.tree.volume) world.drives +
    total (fun rule => rule.answer.volume) world.rules + 2

/-- The store over a registry. -/
def store (registry : Nat) : Store World Handle :=
  ⟨fun world path => world.owner registry path, perform registry, onHandle⟩

/-- The store over a single provider. -/
def storeAt (id : Nat) : Store World Handle :=
  ⟨fun _ _ => id, performAt .all id, onHandle⟩

/-- Deletes a path with everything below it. -/
def deleteRecursive (registry : Nat) (path : Text) (tryOnly : Bool) : Call World Unit := do
  (store registry).deleteRecursive tryOnly (← get).levels path

/-- Makes a directory and its missing ancestors. -/
def createDirectories (registry : Nat) (path : Option Text) : Call World Unit := do
  (store registry).createDirectories ((← get).climb (path.getD [])) path

/-- Copies the content of a file into another. -/
def copy (registry : Nat) (source target : Text) (chunkSize : Int) : Call World Nat := do
  (store registry).copy (← get).volume source target chunkSize

end World

end FileRouter
