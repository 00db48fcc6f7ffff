/-
**The normal form of an instruction.**

A word does not tell a name from its value, nor an address that was written as a number from one
that was written in brackets.  What it does tell is the *normal form* of the instruction that was
encoded: names have become their values, a number where an address belongs has become an address, a
slot of zero has gone, the number of a flag has become the flag, and a stored odd number goes with
the opcode for numbers.

Each operand is brought into its normal form by itself.

Main definitions:

* `Operand.asAddress`, `Operand.asNumber`, `Operand.asSlot`, `Operand.asFlag` — one operand, by what
  it is to its instruction;
* `Form.normalise` — both operands, form by form;
* `Instruction.normalise` — the whole instruction.
-/

import WordMachine.Instruction.Encode

set_option relaxedAutoImplicit false
set_option autoImplicit false

namespace WordMachine

/-! ### Operands -/

namespace Operand

/-- An operand where an address belongs: a number or the value of a name is an address. -/
def asAddress (symbols : SymbolTable) : Operand → Operand
  | immediate v => address v
  | label name =>
    match symbols.value? name with
    | some v => address v
    | none => label name
  | o => o

/-- An operand where a number belongs: the value of a name is a number. -/
def asNumber (symbols : SymbolTable) : Operand → Operand
  | label name =>
    match symbols.value? name with
    | some v => immediate v
    | none => label name
  | o => o

/-- An operand where a slot belongs: the slot of zero is no operand. -/
def asSlot (symbols : SymbolTable) (o : Operand) : Option Operand :=
  if o.asNumber symbols = immediate 0 then none else some (o.asNumber symbols)

/-- An operand where a flag belongs: a number is the number of a flag. -/
def asFlag : Operand → Operand
  | immediate n => flag n
  | o => o

/-- An operand that is an odd number. -/
def isOddNumber : Operand → Bool
  | immediate v => v.toNat % 2 == 1
  | _ => false

end Operand

/-! ### Instructions -/

open Operand in
/-- The **normal form** of two operands of the given form. -/
def Form.normalise (symbols : SymbolTable) (a b : Option Operand) :
    Form → Option Operand × Option Operand
  | regImm | regRegOrImm => (a, b.map (asNumber symbols))
  | regAddr16 => (a, b.map (asAddress symbols))
  | addr8Imm | addr8RegOrImm => (a.map (asAddress symbols), b.map (asNumber symbols))
  | regOrImm => (a.map (asNumber symbols), b)
  | addr24 => (a.map (asAddress symbols), b)
  | addr8Slot | addr8RegSlot => (a.map (asAddress symbols), b.bind (asSlot symbols))
  | flagId => (a.map asFlag, b)
  | reg | regReg | noOperands => (a, b)

/-- The opcode that goes with a second operand in normal form: an odd number is stored by the opcode
for numbers. -/
def Opcode.normalise (op : Opcode) (b : Option Operand) : Opcode :=
  if op = strw ∧ b.any Operand.isOddNumber then stri else op

/-- The **normal form** of an instruction. -/
def Instruction.normalise (symbols : SymbolTable) (i : Instruction) : Instruction where
  opcode := i.opcode.normalise (i.opcode.form.normalise symbols i.a i.b).2
  a := (i.opcode.form.normalise symbols i.a i.b).1
  b := (i.opcode.form.normalise symbols i.a i.b).2

end WordMachine
