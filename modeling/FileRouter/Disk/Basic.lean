import FileRouter.Call
import FileRouter.Disk.Change
import FileRouter.Disk.Window
/-!
The disk: a file system, the handles that are open on its files, and the files that are to be removed
when the program ends.
-/

namespace FileRouter

namespace Disk

/-- How a file has been opened. -/
inductive Access where
  | reader
  /-- For writing, where it is or always at the end. -/
  | writer (appends : Bool)
  | update
  /-- For reading and writing without a buffer. -/
  | direct
  deriving Repr, DecidableEq

namespace Access

/-- Whether a handle can be read. -/
def reads : Access → Bool
  | writer _ => false
  | _ => true

/-- Whether a handle can be written. -/
def writes : Access → Bool
  | reader => false
  | _ => true

/-- Whether every write goes to the end of the file. -/
def appends : Access → Bool
  | writer appends => appends
  | _ => false

end Access

/-- A handle on a file: the body of the file, how it has been opened, the system's position in it, the
window before it, and what the first attempt to move the position has shown. -/
structure OpenFile where
  body : Nat
  access : Access
  position : Nat
  window : Window
  movable : Option Bool
  closed : Bool
  deriving Repr, DecidableEq

end Disk

/-- A file system, every handle opened on it so far, and the files to be removed at the end. -/
structure Disk where
  fs : Disk.FileSystem
  files : List Disk.OpenFile
  leftovers : List Text
  deriving Repr, DecidableEq

namespace Disk

/-- A fresh host that works in a directory. -/
def fresh (work : Key) : Disk := ⟨.fresh work, [], []⟩

/-- Asks the file system; a fault is shown with the paths it is about. -/
def ask {α : Type} (paths : List Text) (f : FileSystem → Except Fault α) : Call Disk α :=
  Call.ofOutcome fun disk =>
    match f disk.fs with
    | .ok answer => (.ok answer, disk)
    | .error fault => (.error (fault.failure paths), disk)

/-- Changes the file system; a fault is shown with the paths it is about. -/
def alter (paths : List Text) (f : FileSystem → Except Fault FileSystem) : Call Disk Unit :=
  Call.ofOutcome fun disk =>
    match f disk.fs with
    | .ok fs => (.ok (), { disk with fs })
    | .error fault => (.error (fault.failure paths), disk)

/-- Opens the body of a file; answers the index of the handle. -/
def addFile (body : Nat) (access : Access) (position : Nat) : Call Disk Nat :=
  Call.ofOutcome fun disk =>
    (.ok disk.files.length,
      { disk with files := disk.files ++ [⟨body, access, position, .idle, none, false⟩] })

/-- Removes the files that are to be removed at the end, as far as that is possible. -/
def removeLeftovers (disk : Disk) : Disk :=
  disk.leftovers.foldl
    (fun disk path =>
      match disk.fs.removeFile path with
      | .ok fs => { disk with fs }
      | .error _ => disk)
    disk

end Disk

end FileRouter
