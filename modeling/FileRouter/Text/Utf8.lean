import FileRouter.Text.Basic
import FileRouter.Total
/-!
UTF-8, with a replacement for what is not well formed.

`utf8` writes a text as bytes. `Decoder` reads a mixture of bytes and characters: the bytes are put
together to characters as the Unicode standard's table of well-formed sequences allows, every longest
beginning of such a sequence that is not continued becomes one replacement character, and so does
every byte that begins none.
-/

namespace FileRouter

namespace Text

/-- The UTF-8 bytes of a text. -/
def utf8 (text : Text) : List UInt8 :=
  text.flatMap String.utf8EncodeChar

/-- The number of bytes that a text takes in UTF-8. -/
def utf8Size (text : Text) : Nat :=
  total Char.utf8Size text

end Text

/-- What a decoder reads: a byte, or a character that is already decoded. -/
inductive Octet where
  | byte (value : UInt8)
  | character (c : Char)
  deriving Repr, DecidableEq

/-- A decoder in the middle of a sequence: how many bytes are missing, the range the next one must be
in, and the bits read so far. -/
structure Decoder where
  missing : Nat
  low : UInt8
  high : UInt8
  bits : Nat
  deriving Repr, DecidableEq

namespace Decoder

/-- The character that stands for what cannot be decoded. -/
def replacement : Char := Char.ofNat 0xfffd

/-- A decoder between two characters. -/
def idle : Decoder := ⟨0, 0, 0, 0⟩

/-- Reads the first byte of a sequence. -/
def start (b : UInt8) : Text × Decoder :=
  let n := b.toNat
  if n < 0x80 then ([Char.ofNat n], idle)
  else if 0xc2 ≤ n && n ≤ 0xdf then ([], ⟨1, 0x80, 0xbf, n % 0x20⟩)
  else if n == 0xe0 then ([], ⟨2, 0xa0, 0xbf, 0⟩)
  else if n == 0xed then ([], ⟨2, 0x80, 0x9f, 0xd⟩)
  else if 0xe1 ≤ n && n ≤ 0xef then ([], ⟨2, 0x80, 0xbf, n % 0x10⟩)
  else if n == 0xf0 then ([], ⟨3, 0x90, 0xbf, 0⟩)
  else if 0xf1 ≤ n && n ≤ 0xf3 then ([], ⟨3, 0x80, 0xbf, n % 0x08⟩)
  else if n == 0xf4 then ([], ⟨3, 0x80, 0x8f, 4⟩)
  else ([replacement], idle)

/-- Reads a byte. -/
def feed (d : Decoder) (b : UInt8) : Text × Decoder :=
  if d.missing = 0 then start b
  else if d.low ≤ b && b ≤ d.high then
    let bits := d.bits * 0x40 + b.toNat % 0x40
    if d.missing = 1 then ([Char.ofNat bits], idle)
    else ([], ⟨d.missing - 1, 0x80, 0xbf, bits⟩)
  else
    let (text, next) := start b
    (replacement :: text, next)

/-- Ends the sequence that is being read. -/
def finish (d : Decoder) : Text :=
  if d.missing = 0 then [] else [replacement]

/-- Decodes all that is left to read. -/
def run (d : Decoder) : List Octet → Text
  | [] => d.finish
  | .byte b :: rest =>
    let (text, next) := d.feed b
    text ++ run next rest
  | .character c :: rest => d.finish ++ c :: run idle rest

end Decoder

end FileRouter
