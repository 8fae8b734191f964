import FileRouter.Disk.Basic
import FileRouter.Request
/-!
Handles on the files of the disk.

A handle for reading or writing has a buffer before the file, as in `FileRouter.Disk.Window`; a direct
handle has none. What a handle cannot do at all it refuses in its own words, and a closed handle
refuses almost everything; which of the two comes first, and the wording, depends on the operation.
-/

namespace FileRouter.Disk

/-- The handle with an index. -/
def file (index : Nat) : Call Disk OpenFile := do
  match (← get).files[index]? with
  | some file => pure file
  | none => throw (.badValue "I/O operation on closed file".toList)

/-- Changes the handle with an index. -/
def changeFile (index : Nat) (f : OpenFile → OpenFile) : Call Disk Unit :=
  Call.change fun disk => { disk with files := disk.files.modify index f }

/-- The file of a handle at its position, behind its window. -/
def buffered (disk : Disk) (file : OpenFile) : Buffered :=
  ⟨⟨disk.fs.bytesOf file.body, file.position⟩, file.access.appends, file.window⟩

/-- Works on the file of a handle. -/
def onBuffered {α : Type} (index : Nat) (f : Buffered → α × Buffered) : Call Disk α := do
  let file ← file index
  let (answer, after) := f ((← get).buffered file)
  Call.change fun disk =>
    { disk with
      fs := disk.fs.changeBody file.body fun body => { body with bytes := after.file.bytes }
      files := disk.files.modify index fun file =>
        { file with position := after.file.position, window := after.window } }
  pure answer

/-- Works on the file of a handle where the system may find a fault. -/
def onFallible {α : Type} (index : Nat) (f : Buffered → Except Fault α × Buffered) :
    Call Disk α := do
  match ← onBuffered index f with
  | .ok answer => pure answer
  | .error fault => throw (fault.failure [])

/-- Works on the file of a handle without a window, where the system may find a fault. -/
def onDirect {α : Type} (index : Nat) (f : Cursor → Except Fault (α × Cursor)) : Call Disk α :=
  onFallible index fun b =>
    match f b.file with
    | .ok (answer, file) => (.ok answer, { b with file })
    | .error fault => (.error fault, b)

/-- The failure of an operation on a closed handle, in given words. -/
def closedFault (words : String) : Failure := .badValue words.toList

/-- Refuses a closed handle in given words. -/
def checkOpen (file : OpenFile) (words : String) : Call Disk Unit :=
  if file.closed then throw (closedFault words) else pure ()

/-- Fails in a given way unless a condition holds. -/
def require (condition : Prop) [Decidable condition] (failure : Failure) : Call Disk Unit :=
  if condition then pure () else throw failure

/-- What handles without a buffer say when they are closed. -/
def closedWords : String := "I/O operation on closed file"

/-- What handles say about general operations when they are closed. -/
def closedSentence : String := "I/O operation on closed file."

/-! ### Reading -/

/-- Refuses a number of bytes that room cannot be made for. -/
def checkRoom (number : Int) : Call Disk Unit :=
  require (number ≤ Count.room) (.outOfRange "byte string is too large".toList)

/-- Takes at most the given number of bytes. -/
def read (index : Nat) (count : Option Int) : Call Disk Bytes := do
  let file ← file index
  match file.access with
  | .writer _ => throw (.unsupported "read".toList)
  | .direct =>
    let count ← Call.ofExcept (Count.ofOption count)
    checkOpen file closedWords
    checkRoom (Count.asked count)
    onDirect index fun c => .ok (c.read count)
  | _ =>
    let count ← Call.ofExcept (Count.ofOption count)
    let number := Count.asked count
    if number < -1 then throw (.badValue "read length must be non-negative or -1".toList)
    checkOpen file "read of closed file"
    checkRoom number
    onBuffered index fun b => if number < 0 then b.readAll else b.read number.toNat

/-- Takes the rest of the line, at most the given number of bytes. A handle without lines of its own
reads none of an empty line before it looks whether it can. -/
def readLine (index : Nat) (limit : Option Int) : Call Disk Bytes := do
  let file ← file index
  let limit ← Call.ofExcept (Count.ofOption limit)
  let isNothing := limit.any fun limit => limit.number = 0
  match file.access with
  | .writer _ => if isNothing then pure [] else throw (.unsupported "read".toList)
  | .direct =>
    if isNothing then pure []
    else
      checkOpen file closedWords
      onDirect index fun c => .ok (c.readLine limit)
  | _ =>
    checkOpen file "readline of closed file"
    onBuffered index fun b => b.readLine limit

/-- Takes all remaining lines. -/
def readLines (index : Nat) : Call Disk (List Bytes) := do
  let file ← file index
  checkOpen file closedSentence
  match file.access with
  | .writer _ => throw (.unsupported "read".toList)
  | _ => onBuffered index Buffered.readLines

/-! ### Writing -/

/-- Writes at the position; answers the number of bytes. -/
def write (index : Nat) (data : Bytes) : Call Disk Nat := do
  let file ← file index
  match file.access with
  | .reader => throw (.unsupported "write".toList)
  | .direct =>
    checkOpen file closedWords
    onDirect index fun c => .ok ((), systemWrite false c data)
  | _ =>
    checkOpen file "write to closed file"
    onBuffered index fun b => ((), b.write data)
  pure data.length

/-- Remembers whether the first attempt to move or find the position has succeeded. -/
def noteMovable (index : Nat) (succeeded : Bool) : Call Disk Unit :=
  changeFile index fun file => { file with movable := file.movable <|> some succeeded }

/-- The failure for a number that the system cannot be given. -/
def unfitNumber : Failure := .outOfRange "int too large to convert to C long".toList

/-- Gives the file a size, by default up to the position; answers the size. What is pending is stored
first, also where the size does not fit. -/
def truncate (index : Nat) (size : Option Int) : Call Disk Nat := do
  let file ← file index
  match file.access with
  | .direct =>
    checkOpen file closedWords
    require (Fits (size.getD 0)) unfitNumber
    if size.isNone then noteMovable index true
    let size := size.getD file.position
    onDirect index fun c => (systemResize c size).map fun c => (size.toNat, c)
  | access =>
    checkOpen file "truncate of closed file"
    if !access.writes then throw (.unsupported "truncate".toList)
    if Fits (size.getD 0) then onFallible index fun b => b.truncate size
    else
      onBuffered index fun b => ((), b.settle)
      throw unfitNumber

/-- Stores what is pending. -/
def flush (index : Nat) : Call Disk Unit := do
  let file ← file index
  checkOpen file (if file.access = .reader || file.access = .direct then closedSentence
    else "flush of closed file")
  if file.access.writes then onBuffered index fun b => ((), b.settle)

/-- Stores what is pending and closes the handle; closing it again does nothing. -/
def close (index : Nat) : Call Disk Unit := do
  if (← file index).closed then pure ()
  else
    flush index
    changeFile index fun file => { file with closed := true }

/-! ### The position -/

/-- Moves the position; answers the new one. -/
def seek (index : Nat) (offset whence : Int) : Call Disk Nat := do
  let file ← file index
  match file.access with
  | .direct =>
    checkOpen file closedWords
    require (Fits offset) unfitNumber
    noteMovable index (systemSeek ((← get).buffered file).file offset whence).isOk
    onDirect index fun c =>
      (systemSeek c offset whence).map fun position => (position, { c with position })
  | _ =>
    if whence < 0 || 4 < whence then
      throw (.badValue ("whence value ".toList ++ Text.decimalInt whence ++ " unsupported".toList))
    checkOpen file "seek of closed file"
    require (Fits offset) (.badValue "cannot fit 'int' into an offset-sized integer".toList)
    onFallible index fun b => b.seek offset whence

/-- The position of an open handle. -/
def tell (index : Nat) : Call Disk Nat := do
  let file ← file index
  checkOpen file closedWords
  noteMovable index true
  pure ((← get).buffered file).position

/-- Whether an open handle can do something; what its kind cannot do needs no open handle. -/
def ability (index : Nat) (can : Access → Bool) : Call Disk Bool := do
  let file ← file index
  if can file.access then
    checkOpen file closedWords
    pure true
  else pure false

/-- Whether the position of an open handle can be moved. A direct handle goes by its first attempt. -/
def seekable (index : Nat) : Call Disk Bool := do
  let file ← file index
  checkOpen file closedWords
  if file.access = .direct then
    noteMovable index true
    pure (file.movable.getD true)
  else pure true

/-- Answers a request to the handle with an index. -/
def onFile (index : Nat) : (request : StreamRequest) → Call Disk request.Reply
  | .read count => read index count
  | .readLine limit => readLine index limit
  | .readLines => readLines index
  | .write data => write index data
  | .seek offset whence => seek index offset whence
  | .tell => tell index
  | .truncate size => truncate index size
  | .flush => flush index
  | .close => close index
  | .readable => ability index Access.reads
  | .writable => ability index Access.writes
  | .seekable => seekable index
  | .closed => OpenFile.closed <$> file index

end FileRouter.Disk
