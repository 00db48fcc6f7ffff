/-
**Memory dumps.**

A dump shows a range of memory in rows of sixteen bytes: the address of the first byte, the bytes in
hexadecimal, and the bytes as characters between bars, those that cannot be printed as points.  The
last row may be shorter; its missing bytes are blank in the hexadecimal part.  The end of the range
is a number of 64 bits: a range that ends beyond them wraps around.

Main definitions:

* `Memory.dumpRow` — one row;
* `Memory.rangeEnd` — where a range ends;
* `Memory.dump` — the heading and the rows of a range.
-/

import WordMachine.Memory.Basic

set_option relaxedAutoImplicit false
set_option autoImplicit false

namespace WordMachine.Memory

/-- The number of bytes in a row. -/
def rowWidth : Nat := 16

/-- A byte as a character, a point if it is outside the printable ASCII range. -/
def glyph (b : UInt8) : Char :=
  if 0x20 ≤ b.toNat ∧ b.toNat ≤ 0x7e then Char.ofNat b.toNat else '.'

/-- The hexadecimal part of a row: two digits for each byte, filled with blanks to a full row. -/
def hexColumns (bs : List UInt8) : Text :=
  let cells := bs.map fun b => Numeral.hexLower 2 b.toNat
  let blanks := List.replicate (rowWidth - bs.length) [' ', ' ']
  List.intercalate [' '] (cells ++ blanks)

/-- The row of some bytes, the first of which is at address `a`. -/
def dumpRow (a : Nat) (bs : List UInt8) : Text :=
  Numeral.hexLower 8 a ++ ' ' :: hexColumns bs ++ ' ' :: '|' :: bs.map glyph ++ ['|', '\n']

/-- The rows of the bytes from `start` up to `stop`. -/
def dumpRows (m : Memory) (start stop : Nat) : Text :=
  (List.range ((stop - start + (rowWidth - 1)) / rowWidth)).flatMap fun k =>
    let a := start + rowWidth * k
    dumpRow a (m.slice a (min rowWidth (stop - a)))

/-- The heading of a dump: the range between two ruled lines. -/
def dumpHeading (start stop : Nat) : Text :=
  Text.rule ++ "\nMemory ".toList ++ Numeral.word start ++ " - ".toList ++ Numeral.word stop ++
    ":\n".toList ++ Text.rule ++ ['\n']

/-- The end of a range of `length` bytes from `start` on, counted in 64 bits. -/
def rangeEnd (start : UInt32) (length : UInt64) : Nat :=
  (start.toUInt64 + length).toNat

/-- The dump of `length` bytes from `start` on, as far as memory goes. -/
def dump (m : Memory) (start : UInt32) (length : UInt64) : Text :=
  dumpHeading start.toNat (rangeEnd start length) ++
    m.dumpRows start.toNat (min m.size (rangeEnd start length))

end WordMachine.Memory
