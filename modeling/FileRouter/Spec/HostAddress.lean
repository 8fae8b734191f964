import FileRouter.Text.Basic
import FileRouter.Text.Percent
/-!
Numeric host addresses.

A host in square brackets has to be an address of the Internet protocol's sixth version, or of a
later one written as `v`, a hexadecimal version number, a dot and the address. `isVersion4` and
`isVersion6` say which texts are addresses: four decimal bytes with dots between them, and eight
groups of hexadecimal digits with colons between them, where one run of zero groups may be left out
and the last two groups may be written as an address of version four.
-/

namespace FileRouter.HostAddress

/-- Whether a text is a byte in decimal digits without leading zeros. -/
def isDecimalByte (text : Text) : Bool :=
  !text.isEmpty && text.all Char.isDigit && text.length ≤ 3 &&
    (text == ['0'] || text.head? != some '0') &&
    text.foldl (fun n c => n * 10 + (c.toNat - '0'.toNat)) 0 ≤ 255

/-- Whether a text is an address of version four. -/
def isVersion4 (text : Text) : Bool :=
  let bytes := Text.parts '.' text
  bytes.length == 4 && bytes.all isDecimalByte

/-- Whether a text is a group of at most four hexadecimal digits. -/
def isGroup (text : Text) : Bool :=
  !text.isEmpty && text.length ≤ 4 && text.all fun c => (Text.hexValue? c).isSome

/-- Writes an address of version four at the end as two groups; `none` when what stands there looks
like one and is none. -/
def expanded? (groups : List Text) : Option (List Text) :=
  match groups.reverse with
  | last :: before =>
    if last.elem '.' then
      if isVersion4 last then some (before.reverse ++ [['0'], ['0']]) else none
    else some groups
  | [] => some groups

/-- Whether the groups of an address are complete, or have exactly one gap. -/
def groupsFit (groups : List Text) : Bool :=
  let inner := groups.tail.dropLast
  if inner.any List.isEmpty then
    let gap := 1 + (inner.takeWhile fun group => !group.isEmpty).length
    let above := groups.take gap
    let below := groups.drop (gap + 1)
    let above := if above == [[]] then [] else above
    let below := if below == [[]] then [] else below
    (inner.filter List.isEmpty).length == 1 && above.all isGroup && below.all isGroup &&
      above.length + below.length < 8
  else groups.length == 8 && groups.all isGroup

/-- Whether a text is an address of version six. It may end in a percent sign and a zone. -/
def isVersion6 (text : Text) : Bool :=
  let address := Text.before '%' text
  let zone := Text.after '%' text
  (!text.elem '%' || (!zone.isEmpty && !zone.elem '%')) &&
    (let groups := Text.parts ':' address
     3 ≤ groups.length &&
      match expanded? groups with
      | none => false
      | some groups => groups.length ≤ 9 && groupsFit groups)

/-- Whether a text that begins with `v` is an address of a later version. -/
def isLaterVersion (text : Text) : Bool :=
  let version := Text.before '.' text.tail
  let address := Text.after '.' text.tail
  !version.isEmpty && version.all (fun c => (Text.hexValue? c).isSome) && !address.isEmpty &&
    address.all (· != '\n')

end FileRouter.HostAddress
