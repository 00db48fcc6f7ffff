/-
**Memory sizes.**

A program is assembled for, and run in, a memory of 64 KiB to 8 MiB.  A size is written as a number
of bytes, or of units of 1024 or 1024 × 1024 bytes under the names `KB` and `MB`.

Main definitions:

* `MemorySize`, `MemorySize.ofBytes` — a size within the limits;
* `SizeError` — why a number or a text is no size;
* `MemorySize.parse` — reading a size.
-/

import WordMachine.Literal.Integer

set_option relaxedAutoImplicit false
set_option autoImplicit false

namespace WordMachine

/-- The least size: 64 KiB. -/
def leastMemory : Nat := 65536

/-- The largest size: 8 MiB. -/
def largestMemory : Nat := 8388608

/-- A size of memory within the limits. -/
structure MemorySize where
  /-- The number of bytes. -/
  bytes : Nat
  /-- The size is not below the least one. -/
  least_le : leastMemory ≤ bytes := by decide
  /-- The size is not above the largest one. -/
  le_largest : bytes ≤ largestMemory := by decide
  deriving DecidableEq, Repr

/-- Why a number or a text is no size of memory. -/
inductive SizeError
  /-- The number of bytes is outside the limits. -/
  | outOfRange (bytes : Nat)
  /-- The text is not a number with or without a unit. -/
  | malformed (text : Text)
  deriving DecidableEq, Repr

/-- What a diagnostic says about the limits. -/
def SizeError.limits : String :=
  s!"valid range is 64KB to 8MB ({(Numeral.decimal leastMemory).str}" ++
    s!" to {(Numeral.decimal largestMemory).str} bytes)"

/-- The wording of a diagnostic. -/
def SizeError.message (e : SizeError) : String :=
  Text.message <| match e with
  | outOfRange bytes => s!"memory size {(Numeral.decimal bytes).str} out of range; {limits}"
  | malformed text => s!"invalid memory size '{text.str}'; {limits}"

namespace MemorySize

/-- The size that is used when none is given. -/
def standard : MemorySize := { bytes := leastMemory }

/-- A number of bytes within the limits. -/
def ofBytes (bytes : Nat) : Except SizeError MemorySize :=
  if h : leastMemory ≤ bytes ∧ bytes ≤ largestMemory then .ok ⟨bytes, h.1, h.2⟩
  else .error (.outOfRange bytes)

/-- Splits a unit from the end of a text in upper case; something must stand before it.  The unit is
given as a number of bytes. -/
def splitUnit (s : Text) : Text × Nat :=
  let stem := s.take (s.length - 2)
  let unit := s.drop (s.length - 2)
  if stem.isEmpty then (s, 1)
  else if unit == "KB".toList then (Text.trim stem, 1024)
  else if unit == "MB".toList then (Text.trim stem, 1024 * 1024)
  else (s, 1)

/-- Reads a size: decimal digits, perhaps a unit in any letter case, and white space around both.
A number of more than 32 bits counts as malformed. -/
def parse (s : Text) : Except SizeError MemorySize :=
  let (digits, unit) := splitUnit s.trim.upper
  if digits.all (Numeral.isDigit 10) then
    match Literal.readNumber 10 digits with
    | .value n => ofBytes (n.toNat * unit)
    | _ => .error (.malformed s)
  else .error (.malformed s)

end MemorySize

end WordMachine
