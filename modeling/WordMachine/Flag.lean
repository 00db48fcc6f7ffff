/-
**Flags.**

Eight bits of the flags word have a meaning of their own.  `SETF` and `CLRF` name a flag by its
number; the bit that it occupies in the flags word is another number.

In assembly text a flag is an operand under its own name, except for the string flag, whose name is
taken as a label.

Main definitions:

* `Flag`, `Flag.all` — the flags, in the order of their numbers;
* `Flag.id`, `Flag.ofId?` — numbers;
* `Flag.bit` — the bit of the flags word;
* `Flag.name`, `Flag.ofOperandName?` — names.
-/

import WordMachine.Text.Basic

set_option relaxedAutoImplicit false
set_option autoImplicit false

namespace WordMachine

/-- A condition flag. -/
inductive Flag
  | carry | zero | sign | interrupt | string | overflow | macroMode
  /-- The stack grows upwards. -/
  | stackDir
  deriving DecidableEq, Repr, Inhabited

namespace Flag

/-- All flags, in the order of their numbers. -/
def all : List Flag :=
  [carry, zero, sign, interrupt, string, overflow, macroMode, stackDir]

/-- The number that stands for a flag in an instruction. -/
def id : Flag → Nat
  | carry => 0 | zero => 1 | sign => 2 | interrupt => 3
  | string => 4 | overflow => 5 | macroMode => 6 | stackDir => 7

/-- The flag with the given number. -/
def ofId? (n : Nat) : Option Flag :=
  all[n]?

/-- The bit of the flags word that a flag occupies. -/
def bit : Flag → Nat
  | carry => 0 | zero => 6 | sign => 7 | interrupt => 9
  | string => 10 | overflow => 11 | macroMode => 12 | stackDir => 13

/-- The name of a flag. -/
def name : Flag → Text
  | carry => "carry".toList | zero => "zero".toList | sign => "sign".toList
  | interrupt => "interrupt".toList | string => "string".toList | overflow => "overflow".toList
  | macroMode => "macro".toList | stackDir => "stack_dir".toList

/-- The flag that an operand of assembly text names, in any letter case.  The name of the string
flag belongs to a directive and names no flag here. -/
def ofOperandName? (s : Text) : Option Flag :=
  (all.filter (· != string)).find? (·.name == s.lower)

/-- The number of a flag leads back to it. -/
@[simp] theorem ofId?_id (f : Flag) : ofId? f.id = some f := by
  cases f <;> rfl

/-- Every flag but one is named by its own name. -/
theorem ofOperandName?_name {f : Flag} (h : f ≠ string) : ofOperandName? f.name = some f := by
  cases f <;> first | contradiction | decide

/-- Two flags never share a bit. -/
theorem bit_injective {f g : Flag} (h : f.bit = g.bit) : f = g := by
  cases f <;> cases g <;> first | rfl | exact absurd h (by decide)

end Flag

end WordMachine
