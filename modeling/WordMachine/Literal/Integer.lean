/-
**Integer literals.**

An integer literal is a decimal numeral, or a hexadecimal one after `0x`, or a binary one after
`0b`.  Its value has 32 bits.  A literal is read from the left and is given up as soon as it exceeds
that range, before the characters that follow are looked at.

Main definitions:

* `Literal.Integer` — the three outcomes of reading a text;
* `Literal.integer` — reading a text.
-/

import WordMachine.Text.Numeral

set_option relaxedAutoImplicit false
set_option autoImplicit false

namespace WordMachine.Literal

/-- What a text is when it is read as an integer literal. -/
inductive Integer
  /-- A literal with a value of 32 bits. -/
  | value (n : UInt32)
  /-- A literal whose leading digits already exceed 32 bits. -/
  | tooLarge
  /-- No integer literal. -/
  | malformed
  deriving DecidableEq, Repr

/-- The number that follows the digits read so far, whose value is `v`. -/
def readDigits (radix : Nat) : Nat → Text → Integer
  | v, [] => .value v.toUInt32
  | v, c :: cs =>
    match Numeral.digit? radix c with
    | none => .malformed
    | some d => if 2 ^ 32 ≤ radix * v + d then .tooLarge else readDigits radix (radix * v + d) cs

/-- One or more digits of the given radix. -/
def readNumber (radix : Nat) : Text → Integer
  | [] => .malformed
  | c :: cs => readDigits radix 0 (c :: cs)

/-- The text after a radix mark: a zero and the given letter, in either case. -/
def afterMark? (letter : Char) : Text → Option Text
  | c :: d :: rest => if c == '0' && d.toLower == letter then some rest else none
  | _ => none

/-- Reads an integer literal: hexadecimal after `0x`, binary after `0b`, decimal otherwise. -/
def integer (s : Text) : Integer :=
  match afterMark? 'x' s with
  | some digits => readNumber 16 digits
  | none =>
    match afterMark? 'b' s with
    | some digits => readNumber 2 digits
    | none => readNumber 10 s

end WordMachine.Literal
