/-
**Numerals.**

Numbers are printed in decimal, or in hexadecimal with a least number of digits.  Addresses and
words are printed by the diagnostics with the mark `0x` and eight upper-case digits; the dumps use
lower case.

Main definitions:

* `Numeral.decimal`, `Numeral.hex`, `Numeral.hexLower` — printing;
* `Numeral.word` — the mark `0x` and at least eight digits;
* `Numeral.digit?`, `Numeral.value` — reading.
-/

import WordMachine.Text.Basic

set_option relaxedAutoImplicit false
set_option autoImplicit false

namespace WordMachine.Numeral

/-! ### Printing -/

/-- The decimal numeral of a number. -/
def decimal (n : Nat) : Text :=
  Nat.toDigits 10 n

/-- At least `width` lower-case hexadecimal digits. -/
def hexLower (width n : Nat) : Text :=
  Text.padLeft '0' width (Nat.toDigits 16 n)

/-- At least `width` upper-case hexadecimal digits. -/
def hex (width n : Nat) : Text :=
  (hexLower width n).upper

/-- The mark `0x` and upper-case hexadecimal digits, at least `width` of them. -/
def marked (width n : Nat) : Text :=
  '0' :: 'x' :: hex width n

/-- An address or a word: the mark `0x` and at least eight upper-case hexadecimal digits. -/
def word (n : Nat) : Text :=
  marked 8 n

/-! ### Reading -/

/-- The value of a character as a digit of the given radix, which is at most sixteen. -/
def digit? (radix : Nat) (c : Char) : Option Nat :=
  let d :=
    if '0' ≤ c ∧ c ≤ '9' then some (c.toNat - 48)
    else if 'a' ≤ c ∧ c ≤ 'f' then some (c.toNat - 87)
    else if 'A' ≤ c ∧ c ≤ 'F' then some (c.toNat - 55)
    else none
  d.filter (· < radix)

/-- The character is a digit of the given radix. -/
def isDigit (radix : Nat) (c : Char) : Bool :=
  (digit? radix c).isSome

/-- The number written by some digits, the most significant first. -/
def value (radix : Nat) (digits : Text) : Nat :=
  digits.foldl (fun v c => radix * v + (digit? radix c).getD 0) 0

end WordMachine.Numeral
