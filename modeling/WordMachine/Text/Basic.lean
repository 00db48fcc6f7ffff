/-
**Text, one character for each byte.**

Source files, names and everything the tools print are byte strings.  A text is the list of the
characters `U+0000` to `U+00FF` that stand for those bytes, so that its length is a number of bytes
and parsing is recursion on a list.  Letters, digits and blanks are the ASCII ones: a character from
`U+0080` on is none of them.

Main definitions:

* `Text.upToNul`, `Text.message` — a text and a message up to the first NUL;
* `Text.isBlank`, `Text.trim` — white space, and a text without it at either end;
* `Text.upper`, `Text.lower` — letter case;
* `Text.lines` — the lines of a file, a final newline opening no further line;
* `Text.padLeft`, `Text.padRight`, `Text.rule` — columns of a fixed width, and a ruled line;
* `Text.toBytes`, `Text.ofBytes` — the bytes that a text stands for.
-/

import WordMachine.Power

set_option relaxedAutoImplicit false
set_option autoImplicit false

namespace WordMachine

/-- A **text**: one character for each byte. -/
abbrev Text := List Char

namespace Text

/-- The same characters as a string, for use in a message. -/
abbrev str (s : Text) : String := String.ofList s

/-- A text up to its first NUL. -/
def upToNul (s : Text) : Text :=
  s.takeWhile (· != '\x00')

/-- A message as it is shown: it ends at its first NUL, which a name quoted in it may hold. -/
def message (s : String) : String :=
  (upToNul s.toList).str

/-! ### White space -/

/-- The codes of white space: the space, and the control characters from tab to carriage return. -/
def isBlankCode (n : Nat) : Bool :=
  n == 32 || (9 ≤ n && n ≤ 13)

/-- The character is white space. -/
def isBlank (c : Char) : Bool :=
  isBlankCode c.toNat

/-- Some character is white space. -/
def hasBlank (s : Text) : Bool :=
  s.any isBlank

/-- A text without the white space at its front. -/
def trimStart (s : Text) : Text :=
  s.dropWhile isBlank

/-- A text without the white space at its end. -/
def trimEnd (s : Text) : Text :=
  (s.reverse.dropWhile isBlank).reverse

/-- A text without the white space at its two ends. -/
def trim (s : Text) : Text :=
  s.trimStart.trimEnd

/-! ### Letter case -/

/-- Every letter in upper case. -/
def upper (s : Text) : Text :=
  s.map Char.toUpper

/-- Every letter in lower case. -/
def lower (s : Text) : Text :=
  s.map Char.toLower

/-! ### Lines and columns -/

/-- The lines of a text, without the newlines that end them.  A newline at the very end opens no
further line, so the empty text has none. -/
def lines : Text → List Text
  | [] => []
  | c :: cs =>
    (c :: cs).takeWhile (· != '\n') :: lines (((c :: cs).dropWhile (· != '\n')).drop 1)
termination_by s => s.length
decreasing_by
  have h := (List.dropWhile_suffix (l := c :: cs) (· != '\n')).length_le
  simp only [List.length_drop, List.length_cons] at *
  omega

/-- Fills a column of the given width from the left with `fill`. -/
def padLeft (fill : Char) (width : Nat) (s : Text) : Text :=
  List.replicate (width - s.length) fill ++ s

/-- Fills a column of the given width with spaces after the text. -/
def padRight (width : Nat) (s : Text) : Text :=
  s ++ List.replicate (width - s.length) ' '

/-- A line of dashes, which sets off a heading. -/
def rule : Text :=
  List.replicate 79 '-'

/-! ### Bytes -/

/-- The bytes that a text stands for. -/
def toBytes (s : Text) : List UInt8 :=
  s.map fun c => c.toNat.toUInt8

/-- The text that stands for some bytes. -/
def ofBytes (bs : List UInt8) : Text :=
  bs.map fun b => Char.ofNat b.toNat

end Text

end WordMachine
