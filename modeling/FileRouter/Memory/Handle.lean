import FileRouter.Memory.Drive
/-!
Handles on the files of a drive.

Every handle can be read, also one that was opened for writing. A handle that cannot write refuses to
do so before anything else; every other operation but closing is refused once the handle is closed.
Changes stay in the handle until `commit` stores its whole buffer: when it is flushed or closed with
changes, and after every change in the synchronous modes. A commit is tried once for each change: when
it fails, the changes no longer count as pending.
-/

namespace FileRouter.Drive

/-- The failure of every operation on a closed handle. -/
def closedFault : Failure := .badValue "I/O operation on closed file.".toList

/-- The handle with an index. -/
def file (index : Nat) : Call Drive DriveFile := do
  match (← get).files[index]? with
  | some file => pure file
  | none => throw closedFault

/-- Changes the handle with an index. -/
def changeFile (index : Nat) (f : DriveFile → DriveFile) : Call Drive Unit :=
  Call.change fun drive => { drive with files := drive.files.modify index f }

/-- The handle with an index, which has to be open. -/
def openFile (index : Nat) : Call Drive DriveFile := do
  let file ← file index
  if file.closed then throw closedFault else pure file

/-- Stores bytes in the file at a key, which has to be there still. -/
def commit (now : Int) (key : Key) (bytes : Bytes) : Call Drive Unit := do
  let drive ← get
  match drive.tree.get? key with
  | none => throw (.notFound (drive.pathOf key))
  | some node =>
    if node.isDirectory then throw (.refused .cannotOpenDirectory (drive.pathOf key))
    else store key (node.written bytes now)

/-- Stores the buffer of a handle if it holds changes. -/
def flush (now : Int) (index : Nat) : Call Drive Unit := do
  let file ← openFile index
  if file.dirty then
    changeFile index fun file => { file with dirty := false }
    commit now file.key file.cursor.bytes

/-- Takes a changed buffer into a handle, and stores it in a synchronous mode. -/
def accept (now : Int) (index : Nat) (cursor : Cursor) : Call Drive Unit := do
  changeFile index fun file => { file with cursor, dirty := true }
  if (← file index).isSync then flush now index

/-- Writes at the position, or at the end for a handle that appends; answers the number of bytes. -/
def write (now : Int) (index : Nat) (data : Bytes) : Call Drive Nat := do
  if !(← file index).canWrite then throw (.unsupported "write".toList)
  let file ← openFile index
  let cursor := if file.appends then file.cursor.toEnd else file.cursor
  accept now index (cursor.write data)
  pure data.length

/-- Cuts the buffer to a size; answers that size. -/
def truncate (now : Int) (index : Nat) (size : Option Int) : Call Drive Nat := do
  if !(← file index).canWrite then throw (.unsupported "truncate".toList)
  let file ← openFile index
  let (answer, cursor) ← Call.ofExcept (file.cursor.truncate size)
  accept now index cursor
  pure answer

/-- Closes a handle, storing its changes first. It is closed also when they cannot be stored; closing
it again does nothing. -/
def close (now : Int) (index : Nat) : Call Drive Unit := do
  if (← file index).closed then pure ()
  else
    Call.ensuring (flush now index) (changeFile index fun file => { file with closed := true })

/-- Takes something from the buffer of an open handle. -/
def take {α : Type} (index : Nat) (f : Cursor → α × Cursor) : Call Drive α := do
  let (answer, cursor) := f (← openFile index).cursor
  changeFile index fun file => { file with cursor }
  pure answer

/-- Takes something from the buffer of an open handle, as much as a count says. -/
def takeCounted {α : Type} (index : Nat) (count : Option Int) (f : Option Count → Cursor → α × Cursor) :
    Call Drive α := do
  let count ← Call.ofExcept (Count.ofOption count)
  take index (f count)

/-- Moves the position of an open handle; answers the new one. -/
def seek (index : Nat) (offset whence : Int) : Call Drive Nat := do
  let cursor ← Call.ofExcept ((← openFile index).cursor.seek offset whence)
  changeFile index fun file => { file with cursor }
  pure cursor.position

/-- Answers a request to the handle with an index. -/
def onFile (now : Int) (index : Nat) : (request : StreamRequest) → Call Drive request.Reply
  | .read count => takeCounted index count Cursor.read
  | .readLine limit => takeCounted index limit Cursor.readLine
  | .readLines => take index Cursor.readLines
  | .write data => write now index data
  | .seek offset whence => seek index offset whence
  | .tell => (fun file => file.cursor.position) <$> openFile index
  | .truncate size => truncate now index size
  | .flush => flush now index
  | .close => close now index
  | .readable => (fun _ => true) <$> openFile index
  | .writable => do if (← file index).canWrite then (fun _ => true) <$> openFile index else pure false
  | .seekable => (fun _ => true) <$> openFile index
  | .closed => DriveFile.closed <$> file index

end FileRouter.Drive
