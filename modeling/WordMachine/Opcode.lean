/-
**Opcodes.**

There are forty-two opcodes.  Each has a code, which is the top byte of its instruction words, a
mnemonic, and one of thirteen operand forms, which says how the operands are packed into the other
three bytes.

Main definitions:

* `Opcode`, `Opcode.all` — the opcodes, in the order of their codes;
* `Opcode.code`, `Opcode.ofCode?` — codes;
* `Opcode.mnemonic`, `Opcode.ofMnemonic?` — mnemonics;
* `Form`, `Opcode.form` — operand forms.
-/

import WordMachine.Text.Basic

set_option relaxedAutoImplicit false
set_option autoImplicit false

namespace WordMachine

/-- What an instruction does. -/
inductive Opcode
  | movi | movw | lodi | lodw | stri | strw | push | pop | xcgh
  | addw | subw | mul | inc | dec | neg
  | not | and | or | xor | shl | shr
  | cmpw
  | jmp | call | ret | je | jne | jgt | jge | jlt | jle | js | jco
  /-- Moves the pending input into memory. -/
  | inp
  | out | insi | outi | insw | outw
  | setf | clrf
  | halt
  deriving DecidableEq, Repr, Inhabited

/-- How the operands of an instruction are packed into its word. -/
inductive Form
  /-- A register and a number of sixteen bits. -/
  | regImm
  /-- A register, and a register or a number. -/
  | regRegOrImm
  /-- A register and an address of sixteen bits. -/
  | regAddr16
  /-- An address of seven bits, direct or in a register, and a number. -/
  | addr8Imm
  /-- An address of seven bits, direct or in a register, and a register or a number. -/
  | addr8RegOrImm
  /-- A register or a number. -/
  | regOrImm
  /-- A register. -/
  | reg
  /-- Two registers. -/
  | regReg
  /-- An address of twenty-three bits, direct or in a register. -/
  | addr24
  /-- An address of seven bits, direct or in a register, and perhaps a slot number. -/
  | addr8Slot
  /-- An address of seven bits, direct or in a register, and perhaps a register or an even slot. -/
  | addr8RegSlot
  /-- The number of a flag. -/
  | flagId
  | noOperands
  deriving DecidableEq, Repr

namespace Opcode

/-- All opcodes, in the order of their codes. -/
def all : List Opcode :=
  [movi, movw, lodi, lodw, stri, strw, push, pop, xcgh,
   addw, subw, mul, inc, dec, neg,
   not, and, or, xor, shl, shr,
   cmpw,
   jmp, call, ret, je, jne, jgt, jge, jlt, jle, js, jco,
   inp, out, insi, outi, insw, outw,
   setf, clrf,
   halt]

/-- The top byte of an instruction word. -/
def code : Opcode → Nat
  | movi => 0x01 | movw => 0x02 | lodi => 0x03 | lodw => 0x04 | stri => 0x05 | strw => 0x06
  | push => 0x07 | pop => 0x08 | xcgh => 0x09
  | addw => 0x10 | subw => 0x11 | mul => 0x12 | inc => 0x13 | dec => 0x14 | neg => 0x15
  | not => 0x20 | and => 0x21 | or => 0x22 | xor => 0x23 | shl => 0x24 | shr => 0x25
  | cmpw => 0x30
  | jmp => 0x40 | call => 0x41 | ret => 0x42
  | je => 0x43 | jne => 0x44 | jgt => 0x45 | jge => 0x46
  | jlt => 0x47 | jle => 0x48 | js => 0x49 | jco => 0x4A
  | inp => 0x50 | out => 0x51 | insi => 0x52 | outi => 0x53 | insw => 0x54 | outw => 0x55
  | setf => 0x60 | clrf => 0x61
  | halt => 0xFF

/-- The opcode with the given code. -/
def ofCode? (n : Nat) : Option Opcode :=
  all.find? (·.code == n)

/-- The name of an opcode in assembly text. -/
def mnemonic : Opcode → Text
  | movi => "MOVI".toList | movw => "MOVW".toList | lodi => "LODI".toList
  | lodw => "LODW".toList | stri => "STRI".toList | strw => "STRW".toList
  | push => "PUSH".toList | pop => "POP".toList | xcgh => "XCGH".toList
  | addw => "ADDW".toList | subw => "SUBW".toList | mul => "MUL".toList
  | inc => "INC".toList | dec => "DEC".toList | neg => "NEG".toList
  | not => "NOT".toList | and => "AND".toList | or => "OR".toList
  | xor => "XOR".toList | shl => "SHL".toList | shr => "SHR".toList
  | cmpw => "CMPW".toList
  | jmp => "JMP".toList | call => "CALL".toList | ret => "RET".toList
  | je => "JE".toList | jne => "JNE".toList | jgt => "JGT".toList | jge => "JGE".toList
  | jlt => "JLT".toList | jle => "JLE".toList | js => "JS".toList | jco => "JCO".toList
  | inp => "IN".toList | out => "OUT".toList | insi => "INSI".toList
  | outi => "OUTI".toList | insw => "INSW".toList | outw => "OUTW".toList
  | setf => "SETF".toList | clrf => "CLRF".toList
  | halt => "HALT".toList

/-- The opcode with the given mnemonic, in any letter case. -/
def ofMnemonic? (s : Text) : Option Opcode :=
  all.find? (·.mnemonic == s.upper)

/-- The operand form of an opcode. -/
def form : Opcode → Form
  | movi | lodi => .regImm
  | movw | addw | subw | mul | and | or | xor | shl | shr | cmpw => .regRegOrImm
  | lodw => .regAddr16
  | stri => .addr8Imm
  | strw => .addr8RegOrImm
  | push | outi => .regOrImm
  | pop | inc | dec | neg | not => .reg
  | xcgh => .regReg
  | jmp | call | je | jne | jgt | jge | jlt | jle | js | jco | inp | out | insi => .addr24
  | insw => .addr8Slot
  | outw => .addr8RegSlot
  | setf | clrf => .flagId
  | ret | halt => .noOperands

/-- The code of an opcode leads back to it. -/
@[simp] theorem ofCode?_code (op : Opcode) : ofCode? op.code = some op := by
  cases op <;> rfl

/-- An opcode found by its code has that code. -/
theorem code_of_ofCode? {n : Nat} {op : Opcode} (h : ofCode? n = some op) : op.code = n := by
  simpa using List.find?_some h

/-- The mnemonic of an opcode leads back to it. -/
@[simp] theorem ofMnemonic?_mnemonic (op : Opcode) : ofMnemonic? op.mnemonic = some op := by
  cases op <;> decide

end Opcode

end WordMachine
