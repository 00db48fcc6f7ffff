/-
**Reading an operand.**

The first rule that fits decides: a quoted string, a register, a flag, something in square brackets,
a number, and at last a bare label.  What merely starts like a number, such as `1st` or `0xZZ`, is a
label.

Main definitions:

* `OperandError` — why a text is no operand;
* `Operand.number?` — a whole number literal, integer or real;
* `Operand.parse` — reading an operand.
-/

import WordMachine.Operand.Basic
import WordMachine.Literal.Real

set_option relaxedAutoImplicit false
set_option autoImplicit false

namespace WordMachine

/-- Why a text is no operand. -/
inductive OperandError
  /-- There is nothing but white space. -/
  | empty
  /-- An integer literal exceeds 32 bits. -/
  | integerTooLarge (literal : Text)
  /-- Nothing that names an address stands between the brackets. -/
  | notAddress (token : Text)
  /-- The text fits none of the forms. -/
  | notOperand (token : Text)
  deriving DecidableEq, Repr

/-- The wording of a diagnostic. -/
def OperandError.message (e : OperandError) : String :=
  Text.message <| match e with
  | empty => "invalid operand: empty"
  | integerTooLarge literal => s!"integer literal out of 32-bit range: {literal.str}"
  | notAddress token => s!"invalid address operand: {token.str}"
  | notOperand token => s!"invalid operand: {token.str}"

namespace Operand

/-- The text between an opening and a closing character, when the two enclose a text. -/
def enclosed? (opening closing : Char) : Text → Option Text
  | c :: rest =>
    if c == opening && rest.getLast? == some closing then some rest.dropLast else none
  | [] => none

/-- An optional sign, an optional point and then a digit. -/
def startsNumeric (s : Text) : Bool :=
  match (Literal.takeSign s).2 with
  | '.' :: c :: _ => Numeral.isDigit 10 c
  | c :: _ => Numeral.isDigit 10 c
  | [] => false

/-- The text carries the mark of a hexadecimal or of a binary literal. -/
def isMarked (s : Text) : Bool :=
  (Literal.afterMark? 'x' s).isSome || (Literal.afterMark? 'b' s).isSome

/-- Reads a number: an integer literal if the text carries the mark of one, else a real literal. -/
def number (s : Text) : Literal.Integer :=
  if isMarked s then Literal.integer s
  else if startsNumeric s then
    match Literal.real? s with
    | some x => .value x.saturate
    | none => .malformed
  else .malformed

/-- A text without white space and without any of the given characters can be a label. -/
def isBare (excluded : Text) (s : Text) : Bool :=
  !s.hasBlank && !s.any excluded.contains

/-- Reads what stands between square brackets: a register, an address or a label. -/
def parseBracketed (token inner : Text) : Except OperandError Operand :=
  match Register.ofName? inner with
  | some r => .ok (.indirect r)
  | none =>
    match Literal.integer inner with
    | .value n => .ok (.address n)
    | .tooLarge => .error (.integerTooLarge inner)
    | .malformed =>
      if !inner.isEmpty && isBare ['[', ']', '"'] inner then .ok (.label inner)
      else .error (.notAddress token)

/-- Reads a number or, failing that, a bare label. -/
def parseBare (token : Text) : Except OperandError Operand :=
  match number token with
  | .value n => .ok (.immediate n)
  | .tooLarge => .error (.integerTooLarge token)
  | .malformed =>
    if isBare ['[', ']', '"', ','] token then .ok (.label token) else .error (.notOperand token)

/-- Reads an operand, without the white space around it. -/
def parse (s : Text) : Except OperandError Operand :=
  let token := s.trim
  if token.isEmpty then .error .empty
  else if let some content := enclosed? '"' '"' token then .ok (.quoted content)
  else if let some r := Register.ofName? token then .ok (.register r)
  else if let some f := Flag.ofOperandName? token then .ok (.ofFlag f)
  else if let some inner := enclosed? '[' ']' token then parseBracketed token inner.trim
  else parseBare token

end Operand

end WordMachine
