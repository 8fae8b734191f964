import FileRouter.Disk.Lookup
/-!
What the operating system does with paths.

Each operation answers the changed file system or a fault; a fault leaves everything as it was. The
order in which two faults are noticed is that of the system: first the directories on the way, then
the last segment, then the entry under it.
-/

namespace FileRouter.Disk.FileSystem

/-- Makes a directory. -/
def makeDirectory (fs : FileSystem) (path : Text) : Except Fault FileSystem := do
  match ← fs.parentOf path with
  | (directory, .name name _) =>
    match ← fs.child directory name with
    | some _ => .error .exists
    | none => .ok (fs.put (directory ++ [name]) (.directory directoryMode 0))
  | _ => .error .exists

/-- Makes a symbolic link. -/
def makeLink (fs : FileSystem) (target path : Text) : Except Fault FileSystem := do
  checkPath target
  match ← fs.parentOf path with
  | (directory, .name name slash) =>
    match ← fs.child directory name with
    | some _ => .error .exists
    | none => if slash then .error .noEntry else .ok (fs.put (directory ++ [name]) (.link target))
  | _ => .error .exists

/-- Removes an empty directory. -/
def removeDirectory (fs : FileSystem) (path : Text) : Except Fault FileSystem := do
  match ← fs.parentOf path with
  | (_, .root) => .error .busy
  | (_, .here) => .error .invalid
  | (_, .above) => .error .notEmpty
  | (directory, .name name _) =>
    match ← fs.child directory name with
    | none => .error .noEntry
    | some (.directory _ _) =>
      let key := directory ++ [name]
      if fs.entries.isEmptyAt key then .ok (fs.remove key) else .error .notEmpty
    | some _ => .error .notDirectory

/-- Removes an entry that is no directory. -/
def removeFile (fs : FileSystem) (path : Text) : Except Fault FileSystem := do
  match ← fs.parentOf path with
  | (directory, .name name slash) =>
    match ← fs.child directory name with
    | none => .error .noEntry
    | some (.directory _ _) => .error .isDirectory
    | some _ => if slash then .error .notDirectory else .ok (fs.remove (directory ++ [name]))
  | _ => .error .isDirectory

/-- Why one entry may not take the place of another, if it may not. -/
def replaceFault? (fs : FileSystem) (source target : Key) : Option Fault :=
  match fs.entry? target with
  | none => none
  | some entry =>
    if fs.isDirectory source then
      match entry with
      | .directory _ _ => if fs.entries.isEmptyAt target then none else some .notEmpty
      | _ => some .notDirectory
    else
      match entry with
      | .directory _ _ => some .isDirectory
      | _ => none

/-- Gives an entry another name, over the entry that may have it. -/
def rename (fs : FileSystem) (old new : Text) : Except Fault FileSystem := do
  let (oldDirectory, oldLast) ← fs.parentOf old
  let (newDirectory, newLast) ← fs.parentOf new
  match oldLast, newLast with
  | .name oldName oldSlash, .name newName newSlash =>
    let source := oldDirectory ++ [oldName]
    let target := newDirectory ++ [newName]
    match ← fs.child oldDirectory oldName with
    | none => .error .noEntry
    | some _ =>
      let _ ← fs.child newDirectory newName
      if !fs.isDirectory source && (oldSlash || newSlash) then .error .notDirectory
      else if source.isPrefixOf newDirectory then .error .invalid
      else if target.isPrefixOf oldDirectory then .error .notEmpty
      else if source = target then .ok fs
      else
        match fs.replaceFault? source target with
        | some fault => .error fault
        | none => .ok (fs.relocate source target)
  | _, _ => .error .busy

/-- The names of the entries of a directory. -/
def list (fs : FileSystem) (path : Text) : Except Fault (List Text) := do
  let key ← fs.find path
  if fs.isDirectory key then .ok (fs.entries.childrenNames key) else .error .notDirectory

/-- The body of the file that a path leads to. -/
def openBody (fs : FileSystem) (path : Text) : Except Fault Nat := do
  let key ← fs.find path
  match fs.entry? key with
  | some (.file body) => .ok body
  | _ => .error .isDirectory

/-- The body of the file that a path leads to from a directory, which is made when it is missing; at
most the given number of links is followed on the way and at its end. -/
def bodyOrNew (fs : FileSystem) (mode : Nat) (links : Nat) (directory : Key) (path : Text) :
    Except Fault (Nat × FileSystem) :=
  match _ : fs.lastIn links directory path with
  | .error fault => .error fault
  | .ok (parent, .name name false, left) =>
    match fs.child parent name with
    | .error fault => .error fault
    | .ok none => .ok (fs.addFile (parent ++ [name]) mode)
    | .ok (some (.file body)) => .ok (body, fs)
    | .ok (some (.directory _ _)) => .error .isDirectory
    | .ok (some (.link target)) =>
      match left with
      | 0 => .error .tooManyLinks
      | left + 1 => bodyOrNew fs mode left parent target
  | .ok _ => .error .isDirectory
termination_by links
decreasing_by exact lastIn_links_le ‹_›

/-- The body of the file that a path leads to, which is made when it is missing. -/
def openOrMake (fs : FileSystem) (path : Text) : Except Fault (Nat × FileSystem) := do
  checkPath path
  fs.bodyOrNew fileMode linkLimit fs.work path

/-- Makes a file where nothing is yet; answers its body. -/
def makeFile (fs : FileSystem) (path : Text) (mode : Nat) : Except Fault (Nat × FileSystem) := do
  match ← fs.parentOf path with
  | (_, .name _ true) => .error .isDirectory
  | (directory, .name name false) =>
    match ← fs.child directory name with
    | some _ => .error .exists
    | none => .ok (fs.addFile (directory ++ [name]) mode)
  | _ => .error .exists

/-! ### Permission bits and times -/

/-- The permission bits of what a path leads to. -/
def mode (fs : FileSystem) (path : Text) : Except Fault Nat := do
  let key ← fs.find path
  match fs.entry? key with
  | some (.directory mode _) => .ok mode
  | some (.file body) => .ok ((fs.body? body).map Body.mode |>.getD 0)
  | _ => .error .noEntry

/-- The time of the last change of what a path leads to, in nanoseconds. -/
def modified (fs : FileSystem) (path : Text) : Except Fault Int := do
  let key ← fs.find path
  match fs.entry? key with
  | some (.directory _ modified) => .ok modified
  | some (.file body) => .ok ((fs.body? body).map Body.modified |>.getD 0)
  | _ => .error .noEntry

/-- The number of bytes of what a path leads to; a directory counts as one block. -/
def size (fs : FileSystem) (path : Text) : Except Fault Nat := do
  let key ← fs.find path
  match fs.entry? key with
  | some (.file body) => .ok (fs.bytesOf body).length
  | _ => .ok 4096

/-- Sets the permission bits of what a path leads to. -/
def setMode (fs : FileSystem) (path : Text) (mode : Nat) : Except Fault FileSystem := do
  let key ← fs.find path
  match fs.entry? key with
  | some (.directory _ modified) => .ok (fs.put key (.directory mode modified))
  | some (.file body) => .ok (fs.changeBody body fun b => { b with mode })
  | _ => .error .noEntry

/-- Sets the time of the last change of what a path leads to, in nanoseconds. -/
def setModified (fs : FileSystem) (path : Text) (modified : Int) : Except Fault FileSystem := do
  let key ← fs.find path
  match fs.entry? key with
  | some (.directory mode _) => .ok (fs.put key (.directory mode modified))
  | some (.file body) => .ok (fs.changeBody body fun b => { b with modified })
  | _ => .error .noEntry

end FileRouter.Disk.FileSystem
