import FileRouter.Text.Basic
import FileRouter.Text.Printable
/-!
Quoted texts, as messages show them.

A text is put between single quotes, or between double quotes when it contains a single quote and no
double one. The backslash, the chosen quote, tab, line feed and carriage return are written with a
backslash; any other unprintable character is written by its code point in two, four or eight
hexadecimal digits, the shortest of these forms that holds it.
-/

namespace FileRouter.Text

/-- The quote that a text is put between. -/
def quoteOf (text : Text) : Char :=
  if text.contains '\'' && !text.contains '"' then '"' else '\''

/-- How one character stands inside a quoted text. -/
def escaped (quote c : Char) : Text :=
  if c = quote || c = '\\' then ['\\', c]
  else if c = '\t' then ['\\', 't']
  else if c = '\n' then ['\\', 'n']
  else if c = '\r' then ['\\', 'r']
  else if isPrintable c then [c]
  else if c.toNat < 0x100 then '\\' :: 'x' :: hexadecimal 2 c.toNat
  else if c.toNat < 0x10000 then '\\' :: 'u' :: hexadecimal 4 c.toNat
  else '\\' :: 'U' :: hexadecimal 8 c.toNat

/-- The quoted form of a text. -/
def quoted (text : Text) : Text :=
  let quote := quoteOf text
  quote :: text.flatMap (escaped quote) ++ [quote]

/-- The quoted forms of several texts in brackets, with commas between them. -/
def quotedList (texts : List Text) : Text :=
  '[' :: joined [',', ' '] (texts.map quoted) ++ [']']

end FileRouter.Text
