/-
**Real literals.**

A real literal is an optional sign, digits with an optional fraction, and an optional exponent: of
ten after `e` for a decimal literal, of two after `p` for a hexadecimal one.  The machine has no use
for fractions, so a literal stands for the integer part of its nearest binary64 number, cut to the
range of 32 bits: what is negative becomes zero, and what is too large the largest word.

A text is read up to its first NUL.

Main definitions:

* `Literal.Real`, `Literal.real?` — a literal as `mantissa * base ^ exponent`, and reading it;
* `Literal.nearestFloor` — the integer part of the binary64 number nearest to a fraction;
* `Literal.Real.saturate` — the word that a literal stands for.
-/

import WordMachine.Literal.Integer

set_option relaxedAutoImplicit false
set_option autoImplicit false

namespace WordMachine.Literal

/-- A real literal: `mantissa * base ^ exponent`, below zero when `negative` is set.  The mantissa
was written with the given number of digits. -/
structure Real where
  /-- A minus sign was written. -/
  negative : Bool
  /-- All digits before the exponent, read as one number. -/
  mantissa : Nat
  /-- How many digits the mantissa has. -/
  digits : Nat
  /-- What one digit of the mantissa counts in powers of the base. -/
  weight : Nat
  /-- The base of the exponent: ten or two. -/
  base : Nat
  /-- The exponent, the places of the fraction taken off. -/
  exponent : Int
  deriving DecidableEq, Repr

/-! ### Reading -/

/-- An optional sign, and the text after it. -/
def takeSign : Text → Bool × Text
  | '-' :: rest => (true, rest)
  | '+' :: rest => (false, rest)
  | s => (false, s)

/-- An exponent that fills the whole text: nothing, or the letter, an optional sign and digits. -/
def exponent? (letter : Char) : Text → Option Int
  | [] => some 0
  | c :: rest =>
    let (negative, digits) := takeSign rest
    if c.toLower == letter && !digits.isEmpty && digits.all (Numeral.isDigit 10) then
      let e : Int := Numeral.value 10 digits
      some (if negative then -e else e)
    else none

/-- Digits with an optional fraction and an optional exponent, filling the whole text. -/
def unsigned? (negative : Bool) (radix weight base : Nat) (letter : Char) (s : Text) :
    Option Real :=
  let whole := s.takeWhile (Numeral.isDigit radix)
  let rest := s.dropWhile (Numeral.isDigit radix)
  let (fraction, rest) :=
    match rest with
    | '.' :: r => (r.takeWhile (Numeral.isDigit radix), r.dropWhile (Numeral.isDigit radix))
    | r => ([], r)
  let digits := whole ++ fraction
  if digits.isEmpty then none
  else (exponent? letter rest).map fun e =>
    { negative, base, weight
      mantissa := Numeral.value radix digits
      digits := digits.length
      exponent := e - weight * fraction.length }

/-- Reads a real literal, which must fill the text up to its first NUL. -/
def real? (s : Text) : Option Real :=
  let (negative, body) := takeSign (Text.upToNul s)
  match afterMark? 'x' body with
  | some digits => unsigned? negative 16 4 2 'p' digits
  | none => unsigned? negative 10 1 10 'e' body

/-! ### Value -/

/-- The integer nearest to `num / den`; a half goes to the even neighbour. -/
def roundHalfEven (num den : Nat) : Nat :=
  let q := num / den
  let r := num % den
  if den < 2 * r ∨ (2 * r = den ∧ q % 2 = 1) then q + 1 else q

/-- The integer part of the binary64 number nearest to `num / den`, which is below `2 ^ 53`.  A
number with integer part `w` keeps `52 - log2 w` binary places; below one, the places from the
fifty-third on cannot reach the integer part. -/
def nearestFloor (num den : Nat) : Nat :=
  let w := num / den
  let places := if w = 0 then 53 else 52 - w.log2
  roundHalfEven (num * 2 ^ places) den / 2 ^ places

/-- The largest word. -/
def largestWord : Nat := 2 ^ 32 - 1

/-- The word that a literal stands for: the integer part of the nearest binary64 number, cut to the
range of 32 bits.  An exponent that already puts the value beyond `2 ^ 32`, or below one half, is
never raised to a power. -/
def Real.saturate (x : Real) : UInt32 :=
  if x.negative ∨ x.mantissa = 0 then 0
  -- The mantissa is at least one, so the value is at least `2 ^ 32`.
  else if 32 ≤ x.exponent then largestWord.toUInt32
  else if 0 ≤ x.exponent then (min (x.mantissa * x.base ^ x.exponent.toNat) largestWord).toUInt32
  -- The mantissa is below `base ^ (weight * digits)`, so the value is at most one half.
  else if x.weight * x.digits < x.exponent.natAbs then 0
  else
    let den := x.base ^ x.exponent.natAbs
    if largestWord * den ≤ x.mantissa then largestWord.toUInt32
    else (min (nearestFloor x.mantissa den) largestWord).toUInt32

end WordMachine.Literal
