import FileRouter.Text.Basic
/-!
Blank characters and trimming.

A character is blank when Unicode counts it as white space or as a paragraph, segment or field
separator: besides the spaces these are the controls from tab to carriage return, the four
information separators and the next-line control.
-/

namespace FileRouter.Text

/-- Whether a character is trimmed off the ends of a name. -/
def isBlank (c : Char) : Bool :=
  let n := c.toNat
  (0x09 ≤ n && n ≤ 0x0d) || (0x1c ≤ n && n ≤ 0x20) || n == 0x85 || n == 0xa0 || n == 0x1680 ||
    (0x2000 ≤ n && n ≤ 0x200a) || n == 0x2028 || n == 0x2029 || n == 0x202f || n == 0x205f ||
    n == 0x3000

/-- The text without the blanks at both ends. -/
def trimmed (text : Text) : Text :=
  ((text.dropWhile isBlank).reverse.dropWhile isBlank).reverse

end FileRouter.Text
