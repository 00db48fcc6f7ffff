/-
**The machine.**

The machine is its registers, its memory, its console and a mark that it has halted.  What can go
wrong in an instruction is a *fault*.

Main definitions:

* `Machine`, `Machine.reset` — the machine, and its state when it is switched on;
* `Fault`, `Fault.message`, `Fault.isMemory` — what can go wrong.
-/

import WordMachine.Instruction.Decode
import WordMachine.Memory.Basic
import WordMachine.Console
import WordMachine.RegisterFile

set_option relaxedAutoImplicit false
set_option autoImplicit false

namespace WordMachine

/-- The **machine**. -/
structure Machine where
  /-- The registers. -/
  registers : RegisterFile := {}
  /-- The memory. -/
  memory : Memory
  /-- The console. -/
  console : Console := {}
  /-- A halt instruction was executed. -/
  halted : Bool := false
  deriving DecidableEq, Repr, Inhabited

namespace Machine

/-- The machine with the given memory, switched on. -/
def ofMemory (memory : Memory) : Machine := { memory }

/-- The state of the machine when it is switched on: all zeros, and no input or output. -/
def reset (m : Machine) : Machine := ofMemory m.memory.clear

/-- The program counter. -/
def pc (m : Machine) : UInt32 := m.registers.get .pc

/-- Changes the program counter. -/
def setPc (m : Machine) (a : UInt32) : Machine :=
  { m with registers := m.registers.set .pc a }

/-- The program counter is outside memory. -/
def ranOff (m : Machine) : Bool := m.memory.size ≤ m.pc.toNat

/-- The word at the program counter. -/
def fetch (m : Machine) : Except Memory.OutOfBounds UInt32 :=
  m.memory.read32 m.pc

end Machine

/-! ### Faults -/

/-- The kinds of operands that an instruction may ask for. -/
inductive Expectation
  | register | immediate | registerOrImmediate | address | flag
  deriving DecidableEq, Repr

/-- What a diagnostic calls the operand asked for. -/
def Expectation.name : Expectation → String
  | register => "register"
  | immediate => "immediate"
  | registerOrImmediate => "register or immediate"
  | address => "address"
  | flag => "flag"

/-- What can go wrong in an instruction. -/
inductive Fault
  /-- The word at the program counter is no instruction. -/
  | undecodable (cause : DecodeError)
  /-- An access is not inside memory. -/
  | outOfBounds (cause : Memory.OutOfBounds)
  /-- The pending input and a zero after it do not fit into memory. -/
  | inputTooLong (pending : Nat) (address : UInt32)
  /-- The input holds no number. -/
  | noInteger
  /-- An operand is of the wrong kind. -/
  | wrongOperand (opcode : Opcode) (expected : Expectation) (got : Option Operand)
  /-- No flag has the given number. -/
  | invalidFlag (opcode : Opcode) (id : UInt32)
  deriving DecidableEq, Repr

namespace Fault

/-- The wording of a diagnostic. -/
def message : Fault → String
  | undecodable cause => cause.message
  | outOfBounds cause => cause.message
  | inputTooLong pending address =>
    s!"IN: input of {(Numeral.decimal pending).str} byte(s) does not fit" ++
      s!" at {(Numeral.word address.toNat).str}"
  | noInteger => "INSI: no integer available in input"
  | wrongOperand opcode expected got =>
    s!"{opcode.mnemonic.str}: {expected.name} operand expected, got {Operand.kindName got}"
  | invalidFlag opcode n =>
    s!"{opcode.mnemonic.str}: invalid flag id {(Numeral.decimal n.toNat).str}"

/-- The fault comes from an access to memory. -/
def isMemory : Fault → Bool
  | outOfBounds _ | inputTooLong _ _ => true
  | _ => false

end Fault

end WordMachine
