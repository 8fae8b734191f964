import FileRouter.Bytes.Cursor
import FileRouter.Disk.Fault
/-!
Buffered access to a file.

A `Buffered` file is a file, at the system's position in it, behind a window: a stretch of the file that
is held in memory. A window holds what has been read ahead, what has been written and not stored yet,
or both. The reader of a buffered file sees one position, `Buffered.position`, whatever the system's is.

* `store` writes what is pending to the file, `settle` does so and gives up the window.
* `read`, `readAll`, `readLine` and `readLines` take from the window and then from the file, from which
  whole blocks are read.
* `write` changes the window as long as there is room in it.
* `seek` moves within what has been read ahead, if it can, and otherwise in the file.
-/

namespace FileRouter.Disk

/-- The number of bytes that a window holds at most; also the size of a block. -/
def capacity : Nat := 4096

/-- Moves a position in a file of the system: from the start (0), the position (1) or the end (2), or
to the next data (3) or the next hole (4), where a file is all data. -/
def systemSeek (file : Cursor) (offset whence : Int) : Except Fault Nat :=
  let size : Int := file.bytes.length
  let target : Except Fault Int :=
    match whence with
    | 0 => .ok offset
    | 1 => .ok (file.position + offset)
    | 2 => .ok (size + offset)
    | 3 => if 0 ≤ offset ∧ offset < size then .ok offset else .error .noDevice
    | 4 => if 0 ≤ offset ∧ offset < size then .ok size else .error .noDevice
    | _ => .error .invalid
  match target with
  | .error fault => .error fault
  | .ok target => if target < 0 then .error .invalid else .ok target.toNat

/-- Gives a file of the system a size; a file that grows is filled with zeros. -/
def systemResize (file : Cursor) (size : Int) : Except Fault Cursor :=
  if size < 0 then .error .invalid
  else
    let n := size.toNat
    .ok { file with bytes := file.bytes.take n ++ List.replicate (n - file.bytes.length) 0 }

/-- Writes to a file of the system, at its position or always at its end. -/
def systemWrite (appends : Bool) (file : Cursor) (data : Bytes) : Cursor :=
  (if appends then file.toEnd else file).write data

/-- A stretch of a file in memory. -/
structure Window where
  bytes : Bytes
  /-- Where in the stretch the next read or write begins. -/
  offset : Nat
  /-- Where in the stretch the system's position is. -/
  mark : Nat
  /-- Whether the bytes behind the offset have been read ahead. -/
  isAhead : Bool
  /-- The part that has not been stored: where it begins and where it ends. -/
  pending : Option (Nat × Nat)
  deriving Repr, DecidableEq

namespace Window

/-- The window that holds nothing. -/
def idle : Window := ⟨[], 0, 0, false, none⟩

/-- The window over bytes that have just been read, with the first of them taken already. -/
def reading (bytes : Bytes) (taken : Nat) : Window := ⟨bytes, taken, bytes.length, true, none⟩

/-- What can be read without looking at the file. -/
def ahead (window : Window) : Bytes :=
  if window.isAhead then window.bytes.drop window.offset else []

/-- The window with the offset moved forward. -/
def advance (window : Window) (n : Nat) : Window := { window with offset := window.offset + n }

/-- The window with bytes put at the offset and waiting to be stored. -/
def put (window : Window) (data : Bytes) : Window :=
  let stop := window.offset + data.length
  { window with
    bytes := window.bytes.take window.offset ++ data ++ window.bytes.drop stop
    offset := stop
    pending :=
      match window.pending with
      | none => some (window.offset, stop)
      | some (first, last) => some (min first window.offset, max last stop) }

end Window

/-- A file at the system's position, and the window before it. -/
structure Buffered where
  file : Cursor
  appends : Bool
  window : Window
  deriving Repr, DecidableEq

namespace Buffered

/-- The position that the user of the buffer is at. -/
def position (b : Buffered) : Nat :=
  b.file.position + b.window.offset - b.window.mark

/-- Stores what is pending. What has been read ahead is kept. -/
def store (b : Buffered) : Buffered :=
  match b.window.pending with
  | none => b
  | some (first, last) =>
    let file :=
      if first = last then b.file
      else
        systemWrite b.appends { b.file with position := b.file.position + first - b.window.mark }
          ((b.window.bytes.take last).drop first)
    let mark := if first = last then b.window.mark else last
    { b with
      file
      window := if b.window.isAhead then { b.window with mark, pending := none } else .idle }

/-- The file at the user's position, without a window. -/
def unwound (b : Buffered) : Buffered :=
  { b with file := { b.file with position := b.position }, window := .idle }

/-- Stores what is pending and gives up the window. -/
def settle (b : Buffered) : Buffered := b.store.unwound

/-- Takes bytes from the file, past the window. -/
def readFile (b : Buffered) (count : Nat) : Bytes × Buffered :=
  let (bytes, file) := b.file.take count
  (bytes, { b with file })

/-- Reads one block into the window and takes at most `count` bytes of it. -/
def readBlock (b : Buffered) (count : Nat) : Bytes × Buffered :=
  let (block, b) := b.readFile capacity
  let taken := block.take count
  (taken, { b with window := .reading block taken.length })

/-- Takes `count` bytes: what is ahead, then whole blocks from the file, then a part of a block that is
read into the window. At the end of the file less is taken. -/
def read (b : Buffered) (count : Nat) : Bytes × Buffered :=
  if count ≤ b.window.ahead.length then
    (b.window.ahead.take count, { b with window := b.window.advance count })
  else
    let ahead := b.window.ahead
    let wanted := count - ahead.length
    let b := { b with window := b.window.advance ahead.length }.settle
    let (blocks, b) := b.readFile (wanted / capacity * capacity)
    let missing := wanted - blocks.length
    if missing < capacity then
      let (last, b) := if missing = 0 then ([], { b with window := .reading [] 0 }) else b.readBlock missing
      (ahead ++ blocks ++ last, b)
    else (ahead ++ blocks, b)

/-- Takes everything up to the end of the file. -/
def readAll (b : Buffered) : Bytes × Buffered :=
  let ahead := b.window.ahead
  let b := { b with window := b.window.advance ahead.length }.settle
  let (rest, b) := b.readFile b.file.rest.length
  (ahead ++ rest, b)

/-- Whether a line, cut at a limit, ends within bytes that begin with it. -/
def lineEndsIn (limit : Option Count) (bytes : Bytes) : Bool :=
  bytes.contains 10 || Cursor.portion limit (bytes.length + 1) ≤ bytes.length

/-- Takes the rest of the line, at most the given number of bytes. The window holds the block that the
line ends in; when the line ends with the file, it holds nothing. -/
def readLine (b : Buffered) (limit : Option Count) : Bytes × Buffered :=
  let ahead := b.window.ahead
  if lineEndsIn limit ahead then
    let line := ahead.take (Cursor.portion limit (Cursor.lineLength ahead))
    (line, { b with window := b.window.advance line.length })
  else
    let b := { b with window := b.window.advance ahead.length }.settle
    let all := ahead ++ b.file.rest
    let line := all.take (Cursor.portion limit (Cursor.lineLength all))
    let taken := line.length - ahead.length
    if lineEndsIn limit all then
      let (_, b) := b.readFile ((taken - 1) / capacity * capacity)
      (line, (b.readBlock (taken - (taken - 1) / capacity * capacity)).2)
    else (line, (b.readFile taken).2)

/-- Takes all remaining lines. -/
def readLines (b : Buffered) : List Bytes × Buffered :=
  let (rest, b) := b.readAll
  (Cursor.lines rest, b)

/-- Writes at the position: into the window if there is room, otherwise to the file, with at most one
window full waiting. -/
def write (b : Buffered) (data : Bytes) : Buffered :=
  if data.length + b.window.offset ≤ capacity then { b with window := b.window.put data }
  else
    let b := b.settle
    if capacity < data.length then { b with file := systemWrite b.appends b.file data }
    else { b with window := Window.idle.put data }

/-- Moves the position. Within what has been read ahead, and back to the beginning of the window, the
file is left alone, and the answer is counted back from the system's position, where a window that has
been read ahead ends. -/
def seek (b : Buffered) (offset whence : Int) : Except Fault Nat × Buffered :=
  let step : Option Int :=
    if whence = 0 then some (offset - b.position) else if whence = 1 then some offset else none
  let near := step.filter fun n =>
    !b.window.ahead.isEmpty && -(b.window.offset : Int) ≤ n && n ≤ b.window.ahead.length
  match near with
  | some n =>
    (.ok (b.file.position - b.window.ahead.length + n).toNat,
      { b with window := { b.window with offset := (b.window.offset + n).toNat } })
  | none =>
    let b := b.store
    match systemSeek b.unwound.file offset whence with
    | .error fault => (.error fault, b)
    | .ok position => (.ok position, { b with file := { b.file with position }, window := .idle })

/-- Gives the file a size, by default up to the position; the position stays. -/
def truncate (b : Buffered) (size : Option Int) : Except Fault Nat × Buffered :=
  let b := b.settle
  let size := size.getD b.position
  match systemResize b.file size with
  | .error fault => (.error fault, b)
  | .ok file => (.ok size.toNat, { b with file })

end Buffered

end FileRouter.Disk
