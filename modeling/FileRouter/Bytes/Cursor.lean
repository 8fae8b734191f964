import FileRouter.Failure.Basic
/-!
A byte buffer with a position.

`Cursor` is the content that a handle works on: reading and writing move the position, seeking behind
the end is allowed, and the first write there fills the gap with zeros. Truncating never makes the
buffer longer and never moves the position. Every handle that is not a file of the operating system is
a cursor with further rules.

How much is to be read is a `Count`. Callers give any number; one that is not a count is refused before
anything else happens. Offsets and sizes have to fit into a word as well. No bound is set to the length
of a buffer.
-/

namespace FileRouter

/-- Bytes in order. -/
abbrev Bytes := List UInt8

/-- Whether a number fits into a word of 64 bits with a sign. -/
def Fits (number : Int) : Prop := -0x8000000000000000 ≤ number ∧ number < 0x8000000000000000

instance : DecidablePred Fits := fun _ => inferInstanceAs (Decidable (_ ∧ _))

/-- How much is to be taken: a number that fits. -/
structure Count where
  number : Int
  fits : Fits number
  deriving Repr, DecidableEq

namespace Count

/-- The failure for a number that is no count. -/
def misfit : Failure := .outOfRange "cannot fit 'int' into an index-sized integer".toList

/-- A number as a count. -/
def ofInt (number : Int) : Except Failure Count :=
  if fits : Fits number then .ok ⟨number, fits⟩ else .error misfit

/-- A number that may be missing, as a count that may be missing. -/
def ofOption : Option Int → Except Failure (Option Count)
  | none => .ok none
  | some number => (ofInt number).map some

/-- The number that is asked for; without a count it is -1. -/
def asked (count : Option Count) : Int :=
  count.elim (-1) number

/-- The largest number of bytes that room can be made for before they are read. -/
def room : Int := 0x7fffffffffffffde

end Count

/-- A buffer and the place where the next read or write begins. -/
structure Cursor where
  bytes : Bytes
  position : Nat
  deriving Repr, DecidableEq

namespace Cursor

/-- What lies at and behind the position. -/
def rest (c : Cursor) : Bytes :=
  c.bytes.drop c.position

/-- How many of a number of available bytes are taken; all of them without a count or with a negative
one. -/
def portion (count : Option Count) (available : Nat) : Nat :=
  match count with
  | none => available
  | some n => if n.number < 0 then available else min n.number.toNat available

/-- Takes bytes as far as there are any. -/
def take (n : Nat) (c : Cursor) : Bytes × Cursor :=
  let taken := c.rest.take n
  (taken, { c with position := c.position + taken.length })

/-- Takes at most the given number of bytes. -/
def read (count : Option Count) (c : Cursor) : Bytes × Cursor :=
  c.take (portion count c.rest.length)

/-- The length of a line with its line end, in bytes that begin with it. -/
def lineLength : Bytes → Nat
  | [] => 0
  | b :: bytes => if b = 10 then 1 else lineLength bytes + 1

/-- Takes the rest of the line, at most the given number of bytes. -/
def readLine (limit : Option Count) (c : Cursor) : Bytes × Cursor :=
  c.take (portion limit (lineLength c.rest))

/-- The lines that bytes consist of, each with its line end; the last one may have none. -/
def lines : Bytes → List Bytes
  | [] => []
  | b :: bytes =>
    if b = 10 then [b] :: lines bytes
    else
      match lines bytes with
      | [] => [[b]]
      | line :: others => (b :: line) :: others

/-- Takes all remaining lines. -/
def readLines (c : Cursor) : List Bytes × Cursor :=
  (lines c.rest, { c with position := c.position + c.rest.length })

/-- Puts bytes at the position, over what is there; a gap in front of them is filled with zeros.
Writing nothing changes nothing. -/
def write (data : Bytes) (c : Cursor) : Cursor :=
  if data.isEmpty then c
  else
    let front := c.bytes.take c.position ++ List.replicate (c.position - c.bytes.length) 0
    ⟨front ++ data ++ c.bytes.drop (c.position + data.length), c.position + data.length⟩

/-- The position moved to the end. -/
def toEnd (c : Cursor) : Cursor :=
  { c with position := c.bytes.length }

/-- Moves the position on from a place, or back from it, where it stops at the start. -/
def moveFrom (place : Nat) (offset : Int) (c : Cursor) : Except Failure Cursor :=
  if 0 < offset ∧ ¬ Fits (place + offset) then .error (.outOfRange "new position too large".toList)
  else .ok { c with position := (place + offset).toNat }

/-- Moves the position: from the start (0), from where it is (1) or from the end (2). From the start a
negative offset is refused; otherwise the position stops at the start. -/
def seek (offset whence : Int) (c : Cursor) : Except Failure Cursor :=
  if ¬ Fits offset then .error (.outOfRange "int too large to convert to C ssize_t".toList)
  else if whence = 0 then
    if offset < 0 then
      .error (.badValue ("negative seek value ".toList ++ Text.decimalInt offset))
    else .ok { c with position := offset.toNat }
  else if whence = 1 then c.moveFrom c.position offset
  else if whence = 2 then c.moveFrom c.bytes.length offset
  else
    .error (.badValue
      ("invalid whence (".toList ++ Text.decimalInt whence ++ ", should be 0, 1 or 2)".toList))

/-- Cuts the buffer to a size, by default to the position; answers that size. -/
def truncate (size : Option Int) (c : Cursor) : Except Failure (Nat × Cursor) :=
  match size with
  | none => .ok (c.position, { c with bytes := c.bytes.take c.position })
  | some n =>
    if ¬ Fits n then .error Count.misfit
    else if n < 0 then
      .error (.badValue ("negative size value ".toList ++ Text.decimalInt n))
    else .ok (n.toNat, { c with bytes := c.bytes.take n.toNat })

end Cursor

end FileRouter
