import FileRouter.Text.Utf8
/-!
Percent-encoded parameters.

In a parameter a plus sign stands for a space, and a percent sign with two hexadecimal digits for a
byte. The bytes are read as UTF-8; a percent sign without two digits stands for itself, and so does
every character outside ASCII.
-/

namespace FileRouter.Text

/-- The value of a hexadecimal digit. -/
def hexValue? (c : Char) : Option Nat :=
  let n := c.toNat
  if '0'.toNat ≤ n && n ≤ '9'.toNat then some (n - '0'.toNat)
  else if 'a'.toNat ≤ n && n ≤ 'f'.toNat then some (n - 'a'.toNat + 10)
  else if 'A'.toNat ≤ n && n ≤ 'F'.toNat then some (n - 'A'.toNat + 10)
  else none

/-- A character as it is read when it is not part of an escape. -/
def plainOctet (c : Char) : Octet :=
  if c.toNat < 0x80 then .byte (UInt8.ofNat c.toNat) else .character c

/-- The octets that a percent-encoded text stands for. -/
def octets : Text → List Octet
  | [] => []
  | '%' :: a :: b :: rest =>
    match hexValue? a, hexValue? b with
    | some high, some low => .byte (UInt8.ofNat (high * 16 + low)) :: octets rest
    | _, _ => plainOctet '%' :: octets (a :: b :: rest)
  | c :: rest => plainOctet c :: octets rest

/-- What a percent-encoded parameter stands for. -/
def percentDecoded (text : Text) : Text :=
  Decoder.idle.run (octets (text.map fun c => if c = '+' then ' ' else c))

end FileRouter.Text
