/-
**Instructions.**

An instruction is an opcode with up to two operands.  Which operands make sense depends on the
opcode; `Instruction` admits all of them, and the encoder and the machine say what they refuse.

Main definitions:

* `Instruction` — an opcode and its operands;
* `Instruction.print` — an instruction as assembly text.
-/

import WordMachine.Opcode
import WordMachine.Operand.Basic

set_option relaxedAutoImplicit false
set_option autoImplicit false

namespace WordMachine

/-- An **instruction**: an opcode with a first and a second operand, either of which may be
absent. -/
structure Instruction where
  /-- What the instruction does. -/
  opcode : Opcode
  /-- The first operand. -/
  a : Option Operand := none
  /-- The second operand. -/
  b : Option Operand := none
  deriving DecidableEq, Repr, Inhabited

/-- Operands as assembly text: a space before the first, a comma and a space before the second. -/
def Operand.printPair (a b : Option Operand) : Text :=
  (match a with
    | some a => ' ' :: a.print
    | none => []) ++
  match b with
  | some b => ',' :: ' ' :: b.print
  | none => []

/-- An instruction as assembly text. -/
def Instruction.print (i : Instruction) : Text :=
  i.opcode.mnemonic ++ Operand.printPair i.a i.b

end WordMachine
