import FileRouter.Bytes.Cursor
import FileRouter.KeyMap
import FileRouter.Total
/-!
Trees of files and directories in memory.

A tree is a map from keys to nodes. A node is a directory or a file, and the bytes of a directory are
never written; it knows when it was last written and whether it is protected against writing.
-/

namespace FileRouter

/-- An entry of a tree: whether it is a directory, the bytes it holds, when it was last written, in
milliseconds, and whether it is protected against writing. -/
structure Node where
  isDirectory : Bool
  bytes : Bytes
  modified : Int
  readOnly : Bool
  deriving Repr, DecidableEq

namespace Node

/-- A new directory. -/
def newDirectory (now : Int) : Node := ⟨true, [], now, false⟩

/-- A new, empty file. -/
def newFile (now : Int) : Node := ⟨false, [], now, false⟩

/-- The entry with other bytes, written now. -/
def written (node : Node) (bytes : Bytes) (now : Int) : Node :=
  { node with bytes, modified := now }

end Node

/-- The entries of a tree by their keys. -/
abbrev Tree := KeyMap Node

namespace Tree

/-- A tree with nothing but its root. -/
def fresh (now : Int) : Tree := [([], .newDirectory now)]

/-- The number of bytes that all files of a tree hold. -/
def volume (tree : Tree) : Nat :=
  total (fun entry => entry.2.bytes.length) tree

end Tree

end FileRouter
