import FileRouter.Text.Basic
/-!
Schemes: the tokens in front of a path that choose its provider.

A path may begin with a scheme and a colon, as `mem:/data/file.txt` or `ro:mem:/data` do. A scheme
has at least two characters, so a drive letter as in `C:\data` is none. Main statements, proved
elsewhere: `split` finds the only way to read a path as a scheme, a colon and a rest, and `join` is
its inverse.
-/

namespace FileRouter.Scheme

/-- The character between a scheme and the rest of a path. -/
def separator : Char := ':'

/-- Whether a character may begin a scheme: an ASCII letter. -/
def isLetter (c : Char) : Bool := c.isAlpha

/-- Whether a character may stand in a scheme behind the first one. -/
def isSchemeChar (c : Char) : Bool :=
  c.isAlphanum || c == '+' || c == '.' || c == '-'

/-- Whether a token is a scheme: a letter followed by at least one more letter, digit, plus sign,
dot or hyphen. -/
def isValid : Text → Bool
  | [] => false
  | first :: rest => isLetter first && !rest.isEmpty && rest.all isSchemeChar

/-- The scheme of a path, if the token in front of its first colon is one. -/
def parse? (path : Text) : Option Text :=
  if path.contains separator then
    let token := Text.before separator path
    if isValid token then some token else none
  else none

/-- The scheme of a path and the rest behind its colon. A path without a scheme is all rest. -/
def split (path : Text) : Option Text × Text :=
  match parse? path with
  | none => (none, path)
  | some scheme => (some scheme, path.drop (scheme.length + 1))

/-- Whether a path begins with a given token and a colon; never for the empty token. -/
def has (path scheme : Text) : Bool :=
  !scheme.isEmpty && (scheme ++ [separator]).isPrefixOf path

/-- The path without a given token and its colon, if it begins with them. -/
def strip (path scheme : Text) : Text :=
  if has path scheme then path.drop (scheme.length + 1) else path

/-- Puts a token and a colon in front of a text. -/
def join (scheme rest : Text) : Text :=
  scheme ++ separator :: rest

end FileRouter.Scheme
