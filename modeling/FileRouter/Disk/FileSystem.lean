import FileRouter.Bytes.Cursor
import FileRouter.Disk.Fault
import FileRouter.KeyMap
import FileRouter.Total
/-!
The file system of a host: directories, symbolic links and files.

Entries hang in one tree and are found by their key, as in `FileRouter.Key`. What a file contains is
kept apart from its entry, as a body with an index: a file that has been opened keeps its body when
its entry is renamed or removed.
-/

namespace FileRouter.Disk

/-- What is found under a name. -/
inductive Entry where
  /-- A directory, with its permission bits and the time of its last change in nanoseconds. -/
  | directory (mode : Nat) (modified : Int)
  /-- A symbolic link, with the path it leads to. -/
  | link (target : Text)
  /-- A file, by the index of its body. -/
  | file (body : Nat)
  deriving Repr, DecidableEq

/-- The content of a file, its permission bits, and the time of its last change in nanoseconds. -/
structure Body where
  bytes : Bytes
  mode : Nat
  modified : Int
  deriving Repr, DecidableEq

/-- The entries by their keys, the bodies of all files there have been, and the
directories a process knows by name: the one it works in, its home and the one for temporary files.
Further users have homes of their own. -/
structure FileSystem where
  entries : KeyMap Entry
  bodies : List Body
  work : Key
  home : Text
  temp : Text
  users : List (Text × Text)
  deriving Repr, DecidableEq

namespace FileSystem

/-- The permission bits that new entries do not get. -/
def mask : Nat := 0o022

/-- The permission bits of a new directory. -/
def directoryMode : Nat := 0o777 - mask

/-- The permission bits of a new file. -/
def fileMode : Nat := 0o666 - mask

/-- The permission bits of a new temporary file. -/
def privateMode : Nat := 0o600

/-- The entry at a key. -/
def entry? (fs : FileSystem) (key : Key) : Option Entry := fs.entries.get? key

/-- Whether a key is that of a directory. -/
def isDirectory (fs : FileSystem) (key : Key) : Bool :=
  match fs.entry? key with
  | some (.directory _ _) => true
  | _ => false

/-- The body with an index. -/
def body? (fs : FileSystem) (index : Nat) : Option Body := fs.bodies[index]?

/-- The bytes of the body with an index. -/
def bytesOf (fs : FileSystem) (index : Nat) : Bytes :=
  match fs.body? index with
  | some body => body.bytes
  | none => []

/-- Puts an entry at a key, in place of the one that may be there. -/
def put (fs : FileSystem) (key : Key) (entry : Entry) : FileSystem :=
  { fs with entries := fs.entries.put key entry }

/-- Removes the entry at a key. -/
def remove (fs : FileSystem) (key : Key) : FileSystem :=
  { fs with entries := fs.entries.erase key }

/-- Changes the body with an index. -/
def changeBody (fs : FileSystem) (index : Nat) (f : Body → Body) : FileSystem :=
  { fs with bodies := fs.bodies.modify index f }

/-- Adds an empty file; answers the index of its body. -/
def addFile (fs : FileSystem) (key : Key) (mode : Nat) : Nat × FileSystem :=
  let body := fs.bodies.length
  (body, { fs.put key (.file body) with bodies := fs.bodies ++ [⟨[], mode, 0⟩] })

/-- The file system in which the entries at and below one key have moved to another, over the entry
that may be there. The working directory moves with the entry it is in. -/
def relocate (fs : FileSystem) (source target : Key) : FileSystem :=
  { fs with
    entries := fs.entries.rename source target
    work :=
      if source.isPrefixOf fs.work then target ++ fs.work.drop source.length else fs.work }

/-- The number of bytes that all files hold. -/
def volume (fs : FileSystem) : Nat :=
  total (fun body => body.bytes.length) fs.bodies

/-- The directories that lead to a key, from the root to the key itself. -/
def chain (key : Key) : List Key :=
  (List.range (key.length + 1)).map fun n => key.take n

/-- A host with nothing on it but a working directory, with the directories `home` and `tmp` in it. -/
def fresh (work : Key) : FileSystem :=
  let home := work ++ ["home".toList]
  let temp := work ++ ["tmp".toList]
  { entries := (chain work ++ [home, temp]).map fun key => (key, .directory directoryMode 0)
    bodies := []
    work := work
    home := home.toText
    temp := temp.toText
    users := [("root".toList, "/root".toList)] }

end FileSystem

end FileRouter.Disk
