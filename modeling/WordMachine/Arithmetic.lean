/-
**Arithmetic on words.**

The arithmetic instructions take their words as binary32 numbers; the bitwise ones, the shifts and
the comparison take them as numbers of 32 bits.  Each result comes with the states of four flags.

Main definitions:

* `Arithmetic.add`, `Arithmetic.sub`, `Arithmetic.mul`, `Arithmetic.negate`, `Arithmetic.ofNumber` —
  binary32 numbers as words;
* `Arithmetic.shiftLeft`, `Arithmetic.shiftRight` — shifts, with the last bit shifted out;
* `Arithmetic.realFlags`, `Arithmetic.sumFlags`, `Arithmetic.differenceFlags`,
  `Arithmetic.shiftFlags` — flags.
-/

import WordMachine.Flag

set_option relaxedAutoImplicit false
set_option autoImplicit false

namespace WordMachine.Arithmetic

/-! ### Binary32 numbers -/

/-- The sum of two binary32 numbers, rounded to nearest even.  A sum that is not a number is always
the word `0x7FC00000`: the sign and the payload that an operand may have had are lost. -/
def add (x y : UInt32) : UInt32 := (Float32.ofBits x + Float32.ofBits y).toBits

/-- The difference of two binary32 numbers, rounded to nearest even.  One that is not a number is
always the word `0x7FC00000`, as for `add`. -/
def sub (x y : UInt32) : UInt32 := (Float32.ofBits x - Float32.ofBits y).toBits

/-- The product of two binary32 numbers, rounded to nearest even.  One that is not a number is
always the word `0x7FC00000`, as for `add`. -/
def mul (x y : UInt32) : UInt32 := (Float32.ofBits x * Float32.ofBits y).toBits

/-- The bit that holds the sign of a number. -/
def signBit : UInt32 := 0x80000000

/-- A binary32 number with the other sign. -/
def negate (x : UInt32) : UInt32 := x ^^^ signBit

/-- The binary32 number nearest to a whole number. -/
def ofNumber (n : UInt32) : UInt32 := n.toFloat32.toBits

/-- The binary32 number one. -/
def one : UInt32 := 0x3F800000

/-- The largest magnitude of a binary32 number that is a number: infinity. -/
def infinity : Nat := 0x7F800000

/-- The top bit of a word. -/
def isNegative (x : UInt32) : Bool := 2 ^ 31 ≤ x.toNat

/-- The flags of a binary32 result: zero of either sign, and less than zero.  A result that is not a
number sets neither, and carry and overflow are always cleared. -/
def realFlags (x : UInt32) : List (Flag × Bool) :=
  let magnitude := x.toNat % 2 ^ 31
  [(.zero, magnitude == 0),
   (.sign, isNegative x && magnitude != 0 && magnitude ≤ infinity),
   (.carry, false), (.overflow, false)]

/-! ### Whole numbers -/

/-- The flags after an operation on `a` and `b` that is judged as an addition: carry is that of the
sum `a + b`, and overflow compares the sign of the result with two equal signs. -/
def sumFlags (result a b : UInt32) : List (Flag × Bool) :=
  [(.zero, result == 0), (.sign, isNegative result),
   (.carry, 2 ^ 32 ≤ a.toNat + b.toNat),
   (.overflow, isNegative a == isNegative b && isNegative result != isNegative a)]

/-- The flags after an operation on `a` and `b` that is judged as a subtraction: carry is the borrow
of `a - b`, and overflow compares the sign of the result with two different signs. -/
def differenceFlags (result a b : UInt32) : List (Flag × Bool) :=
  [(.zero, result == 0), (.sign, isNegative result),
   (.carry, a.toNat < b.toNat),
   (.overflow, isNegative a != isNegative b && isNegative result != isNegative a)]

/-! ### Shifts -/

/-- A word shifted to the left, and the last bit shifted out at the top. -/
def shiftLeft (a n : UInt32) : UInt32 × Bool :=
  if n.toNat ≤ 32 then
    let product := a.toNat * 2 ^ n.toNat
    (product.toUInt32, product.testBit 32)
  else (0, false)

/-- A word shifted to the right, and the last bit shifted out at the bottom. -/
def shiftRight (a n : UInt32) : UInt32 × Bool :=
  if n.toNat ≤ 32 then
    ((a.toNat / 2 ^ n.toNat).toUInt32, n != 0 && a.toNat.testBit (n.toNat - 1))
  else (0, false)

/-- The flags of a shift with the given result and last bit. -/
def shiftFlags (result : UInt32) (carry : Bool) : List (Flag × Bool) :=
  [(.zero, result == 0), (.sign, isNegative result), (.carry, carry), (.overflow, false)]

end WordMachine.Arithmetic
