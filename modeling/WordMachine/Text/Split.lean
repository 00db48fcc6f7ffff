/-
**Splitting operand text.**

Operands are separated by commas or by white space, but not inside a quoted string and not inside
square brackets.  `Nesting` follows quotes and brackets from left to right, and `Text.splitOutside`
cuts a text at the separators that lie outside both.

Main definitions:

* `Nesting`, `Nesting.after` — what is open at a point of a text;
* `Text.splitOutside` — the pieces between separators that lie outside quotes and brackets;
* `Text.splitFields`, `Text.splitWords` — the two separators in use: a comma, and white space.
-/

import WordMachine.Text.Basic

set_option relaxedAutoImplicit false
set_option autoImplicit false

namespace WordMachine

/-- What is open at a point of a text: a quoted string, and a number of square brackets. -/
structure Nesting where
  /-- A quoted string is open. -/
  quoted : Bool
  /-- How many square brackets are open. -/
  brackets : Nat
  deriving DecidableEq, Repr

namespace Nesting

/-- Nothing is open at the start of a text. -/
def start : Nesting := ⟨false, 0⟩

/-- What is open after one more character.  Every double quote opens or closes a string; a bracket
counts outside strings only, and a closing bracket that closes nothing is ignored. -/
def after (n : Nesting) (c : Char) : Nesting :=
  let quoted := if c == '"' then !n.quoted else n.quoted
  if quoted then ⟨quoted, n.brackets⟩
  else if c == '[' then ⟨quoted, n.brackets + 1⟩
  else if c == ']' then ⟨quoted, n.brackets - 1⟩
  else ⟨quoted, n.brackets⟩

/-- Nothing is open. -/
def isClosed (n : Nesting) : Bool :=
  !n.quoted && n.brackets == 0

end Nesting

namespace Text

/-- The pieces of a text between the separators that lie outside quotes and brackets.  There is
always at least one piece. -/
def splitOutside (isSeparator : Char → Bool) : Nesting → Text → List Text
  | _, [] => [[]]
  | n, c :: cs =>
    let n' := n.after c
    if isSeparator c && n'.isClosed then [] :: splitOutside isSeparator n' cs
    else match splitOutside isSeparator n' cs with
      | [] => [[c]]
      | piece :: pieces => (c :: piece) :: pieces

/-- The fields between top-level separators, each without the white space around it.  A text of
white space alone has no field. -/
def splitFields (separator : Char) (s : Text) : List Text :=
  match (splitOutside (· == separator) .start s).map trim with
  | [[]] => []
  | fields => fields

/-- The words between top-level white space. -/
def splitWords (s : Text) : List Text :=
  (splitOutside isBlank .start s).filter (!·.isEmpty)

end Text

end WordMachine
