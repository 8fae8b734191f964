/-!
Texts: paths, names, schemes and messages.

A text is the list of its characters, so cutting, joining and comparing texts are facts about lists.
This module holds the cuts the library is built from:

* `parts` and `joined` cut a text at a separator and put it together again,
* `before` and `after` are the two sides of the first separator,
* `beforeLast` and `afterLast` are the two sides of the last one,
* `dropLeading` and `dropTrailing` remove a run of one character at an end,
* `occursIn` is the search for a phrase,
* `sorted` puts texts in the order of their code points.
-/

namespace FileRouter

/-- A text is the list of its Unicode scalar values. -/
abbrev Text := List Char

namespace Text

/-- The pieces between the occurrences of a separator; a text without it is its only piece. -/
def parts (separator : Char) : Text → List Text
  | [] => [[]]
  | c :: rest =>
    if c = separator then [] :: parts separator rest
    else
      match parts separator rest with
      | [] => [[c]]
      | piece :: pieces => (c :: piece) :: pieces

/-- The pieces in order, with the separator between each two. -/
def joined (separator : Text) : List Text → Text
  | [] => []
  | [piece] => piece
  | piece :: pieces => piece ++ separator ++ joined separator pieces

/-- The text up to the first occurrence of a character; all of it when there is none. -/
def before (c : Char) (text : Text) : Text :=
  text.takeWhile (· != c)

/-- The text behind the first occurrence of a character; nothing when there is none. -/
def after (c : Char) (text : Text) : Text :=
  (text.dropWhile (· != c)).tail

/-- The text without its leading run of one character. -/
def dropLeading (c : Char) (text : Text) : Text :=
  text.dropWhile (· == c)

/-- The text without its trailing run of one character. -/
def dropTrailing (c : Char) (text : Text) : Text :=
  (text.reverse.dropWhile (· == c)).reverse

/-- The text up to and including the last occurrence of a character; nothing when there is none. -/
def beforeLast (c : Char) (text : Text) : Text :=
  (text.reverse.dropWhile (· != c)).reverse

/-- The text behind the last occurrence of a character; all of it when there is none. -/
def afterLast (c : Char) (text : Text) : Text :=
  (text.reverse.takeWhile (· != c)).reverse

/-- Whether a phrase occurs in a text. -/
def occursIn (phrase : Text) : Text → Bool
  | [] => phrase.isEmpty
  | c :: rest => phrase.isPrefixOf (c :: rest) || occursIn phrase rest

/-- The text up to the first occurrence of a phrase, and what follows it; `none` when it does not
occur. -/
def cutAt? (phrase : Text) : Text → Option (Text × Text)
  | [] => if phrase.isEmpty then some ([], []) else none
  | c :: rest =>
    if phrase.isPrefixOf (c :: rest) then some ([], (c :: rest).drop phrase.length)
    else (cutAt? phrase rest).map fun cut => (c :: cut.1, cut.2)

/-- The text with its ASCII capitals in lower case. -/
def asciiLower (text : Text) : Text :=
  text.map Char.toLower

/-- Whether the first text stands before the second or equals it, by code point. -/
def le : Text → Text → Bool
  | [], _ => true
  | _ :: _, [] => false
  | a :: as, b :: bs => a.toNat < b.toNat || (a == b && le as bs)

/-- Puts a text in front of the first one it does not stand behind. -/
def insert (text : Text) : List Text → List Text
  | [] => [text]
  | other :: others => if le text other then text :: other :: others else other :: insert text others

/-- The texts in the order of their code points. -/
def sorted (texts : List Text) : List Text :=
  texts.foldr insert []

/-- A number in decimal digits. -/
def decimal (n : Nat) : Text :=
  Nat.toDigits 10 n

/-- A whole number in decimal digits, with a minus sign when it is negative. -/
def decimalInt : Int → Text
  | .ofNat n => decimal n
  | .negSucc n => '-' :: decimal (n + 1)

/-- A number in lower-case hexadecimal digits, with zeros in front up to a given width. -/
def hexadecimal (width : Nat) (n : Nat) : Text :=
  let digits := Nat.toDigits 16 n
  List.replicate (width - digits.length) '0' ++ digits

end Text

end FileRouter
