import FileRouter.Text.Basic
/-!
Keys: the places of a tree.

A key lists the names that lead from the root to an entry; the root is the empty list. `Key.ofText`
reads a path from left to right: empty segments and `.` say nothing, `..` takes back the last name, and
any other segment is a name. No path leads above the root.
-/

namespace FileRouter

/-- The names from the root down to an entry. -/
abbrev Key := List Text

namespace Key

/-- The segment that stands for the directory itself. -/
def here : Text := ['.']

/-- The segment that stands for the directory above. -/
def above : Text := ['.', '.']

/-- The key that one more segment leads to. -/
def push (key : Key) (segment : Text) : Key :=
  if segment = [] ∨ segment = here then key
  else if segment = above then key.dropLast
  else key ++ [segment]

/-- The key that a path leads to, read from the root. -/
def ofText (path : Text) : Key :=
  (Text.parts '/' path).foldl push []

/-- The absolute path of a key. -/
def toText : Key → Text
  | [] => ['/']
  | names => names.flatMap ('/' :: ·)

/-- The key of the directory that an entry is in; the root is its own parent. -/
def parent (key : Key) : Key := key.dropLast

/-- The last name of a key; empty for the root. -/
def name (key : Key) : Text := key.getLastD []

/-- Whether a key lies strictly below another. -/
def isBelow (key other : Key) : Bool :=
  other.isPrefixOf key && key != other

/-- Whether a key lies directly below another. -/
def isChildOf (key other : Key) : Bool :=
  key.length == other.length + 1 && other.isPrefixOf key

end Key

end FileRouter
