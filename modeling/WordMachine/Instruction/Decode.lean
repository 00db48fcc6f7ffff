/-
**Decoding instruction words.**

A word is decoded by the operand form of its opcode.  A word decodes whenever its opcode exists, its
register codes name registers and its flag number names a flag; bits that the form does not use are
ignored.

Main definitions:

* `DecodeError` — why a word is no instruction;
* `Form.decode` — the operands of a word, form by form;
* `Instruction.decode` — the instruction of a word;
* `disassemble` — a word as assembly text, whatever it holds.
-/

import WordMachine.Instruction.Encode

set_option relaxedAutoImplicit false
set_option autoImplicit false

namespace WordMachine

/-- Why a word is no instruction. -/
inductive DecodeError
  /-- No opcode has the code in the top byte. -/
  | unknownOpcode (word : UInt32)
  /-- No register has the given code. -/
  | invalidRegister (code : Nat) (word : UInt32)
  /-- No flag has the given number. -/
  | invalidFlag (id : Nat) (word : UInt32)
  deriving DecidableEq, Repr

namespace DecodeError

/-- The word that is no instruction. -/
def word : DecodeError → UInt32
  | unknownOpcode w | invalidRegister _ w | invalidFlag _ w => w

/-- What is wrong with the word. -/
def defect : DecodeError → String
  | unknownOpcode w => s!"unknown opcode {(Numeral.marked 2 (Word.code w)).str}"
  | invalidRegister code _ => s!"invalid register code {(Numeral.decimal code).str}"
  | invalidFlag n _ => s!"invalid flag id {(Numeral.decimal n).str}"

/-- The wording of a diagnostic. -/
def message (e : DecodeError) : String :=
  s!"general fault: {e.defect} in word {(Numeral.word e.word.toNat).str}"

end DecodeError

/-! ### Fields -/

namespace Operand

/-- The register with the given code. -/
def registerOf (w : UInt32) (code : Nat) : Except DecodeError Register :=
  match Register.ofCode? code with
  | some r => .ok r
  | none => .error (.invalidRegister code w)

/-- The address of twenty-three bits that both fields hold. -/
def ofWideField (w : UInt32) : Except DecodeError Operand :=
  let field := Word.payload w
  if 2 ^ 23 ≤ field then return indirect (← registerOf w (field / 2 ^ 19 % 2 ^ 4))
  else return address field.toUInt32

/-- The address of seven bits that the upper field holds. -/
def ofNarrowField (w : UInt32) : Except DecodeError Operand :=
  let field := Word.upper w
  if 2 ^ 7 ≤ field then return indirect (← registerOf w (field / 2 ^ 3 % 2 ^ 4))
  else return address field.toUInt32

/-- The number that the lower field holds. -/
def ofLowerField (w : UInt32) : Operand :=
  immediate (Word.lower w).toUInt32

/-- The register that the middle byte holds. -/
def ofMiddleField (w : UInt32) : Except DecodeError Operand :=
  return register (← registerOf w (Word.middle w))

/-- The number that the lower field holds, zero standing for none. -/
def ofSlot (w : UInt32) : Option Operand :=
  if Word.lower w = 0 then none else some (ofLowerField w)

end Operand

/-- Bit 20 marks the number in the lower field as one, even if it is odd. -/
def Word.isMarked (w : UInt32) : Bool := Word.upper w / 2 ^ 4 % 2 == 1

/-- The upper field without the mark. -/
def Word.unmarked (w : UInt32) : Nat := if isMarked w then upper w - 2 ^ 4 else upper w

namespace Form

open Operand

/-- The two operands of a word, for an opcode of the given form. -/
def decode (w : UInt32) : Form → Except DecodeError (Option Operand × Option Operand)
  | regImm => do
    let r ← registerOf w (Word.upper w)
    return (register r, ofLowerField w)
  | regRegOrImm => do
    let r ← registerOf w (Word.unmarked w)
    if !Word.isMarked w && Word.isOdd w then return (register r, ← ofMiddleField w)
    else return (register r, ofLowerField w)
  | regAddr16 => do
    let r ← registerOf w (Word.upper w)
    return (register r, address (Word.lower w).toUInt32)
  | addr8Imm => do
    let t ← ofNarrowField w
    return (t, ofLowerField w)
  | addr8RegOrImm => do
    let t ← ofNarrowField w
    if Word.isOdd w then return (t, ← ofMiddleField w) else return (t, ofLowerField w)
  | regOrImm => do
    if !Word.isMarked w && Word.isOdd w then
      return (register (← registerOf w (Word.upper w)), none)
    else return (ofLowerField w, none)
  | reg => do
    let r ← registerOf w (Word.upper w)
    return (register r, none)
  | regReg => do
    let r ← registerOf w (Word.upper w)
    return (register r, ← ofMiddleField w)
  | addr24 => do
    let t ← ofWideField w
    return (t, none)
  | addr8Slot => do
    let t ← ofNarrowField w
    return (t, ofSlot w)
  | addr8RegSlot => do
    let t ← ofNarrowField w
    if Word.isOdd w then return (t, ← ofMiddleField w) else return (t, ofSlot w)
  | flagId =>
    match Flag.ofId? (w.toNat % 2 ^ 8) with
    | some f => return (ofFlag f, none)
    | none => throw (.invalidFlag (w.toNat % 2 ^ 8) w)
  | noOperands => return (none, none)

end Form

/-! ### Words -/

namespace Instruction

/-- The instruction that a word holds. -/
def decode (w : UInt32) : Except DecodeError Instruction :=
  match Opcode.ofCode? (Word.code w) with
  | none => .error (.unknownOpcode w)
  | some opcode => do
    let (a, b) ← opcode.form.decode w
    return { opcode, a, b }

end Instruction

/-- A word as assembly text; a word that is no instruction is shown as a number. -/
def disassemble (w : UInt32) : Text :=
  match Instruction.decode w with
  | .ok i => i.print
  | .error _ => "UNKNOWN ".toList ++ Numeral.word w.toNat

end WordMachine
