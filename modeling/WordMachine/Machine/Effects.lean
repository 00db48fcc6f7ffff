/-
**Effects on the machine.**

An instruction is carried out step by step.  Each step reads a part of the machine, changes a part
of it, or faults; what was changed before a fault stays changed.  The steps here are the ones that
instructions are made of.

Main definitions:

* `Exec` — a computation on the machine that may fault;
* `Exec.readRegister`, `Exec.writeRegister`, `Exec.readFlag`, `Exec.writeFlags` — registers;
* `Exec.checkRange`, `Exec.load`, `Exec.loadString`, `Exec.store` — memory;
* `Exec.readBytes`, `Exec.readAll`, `Exec.nextInteger`, `Exec.print` — the console;
* `Exec.halt` — the end of a program.
-/

import WordMachine.Machine.Basic

set_option relaxedAutoImplicit false
set_option autoImplicit false

namespace WordMachine

/-- A **computation on the machine**, which ends with a result or with a fault. -/
abbrev Exec (α : Type) : Type := EStateM Fault Machine α

namespace Exec

/-! ### Registers -/

/-- The word of a register. -/
def readRegister (r : Register) : Exec UInt32 :=
  fun m => .ok (m.registers.get r) m

/-- Changes the word of a register. -/
def writeRegister (r : Register) (v : UInt32) : Exec Unit :=
  fun m => .ok () { m with registers := m.registers.set r v }

/-- The state of a flag. -/
def readFlag (f : Flag) : Exec Bool :=
  fun m => .ok (m.registers.flag f) m

/-- Changes the states of some flags, one after the other. -/
def writeFlags (states : List (Flag × Bool)) : Exec Unit :=
  fun m => .ok () { m with registers := m.registers.setFlags states }

/-! ### Memory -/

/-- The number of bytes that memory has. -/
def memorySize : Exec Nat :=
  fun m => .ok m.memory.size m

/-- The result of reading memory. -/
def inspect {α : Type} (read : Memory → Except Memory.OutOfBounds α) : Exec α :=
  fun m =>
    match read m.memory with
    | .ok v => .ok v m
    | .error cause => .error (.outOfBounds cause) m

/-- Refuses an access that is not inside memory. -/
def checkRange (a : UInt32) (width : Nat) : Exec Unit :=
  inspect (·.check a width)

/-- The word at an address. -/
def load (a : UInt32) : Exec UInt32 :=
  inspect (·.read32 a)

/-- The bytes from an address to the first zero. -/
def loadString (a : UInt32) : Exec (List UInt8) :=
  inspect (·.cString a)

/-- Writes bytes at consecutive addresses. -/
def storeBytes (a : UInt32) (bytes : List UInt8) : Exec Unit :=
  -- The machine is taken apart, so that the bytes are replaced in place.
  fun { registers, memory, console, halted } =>
    match memory.write a bytes with
    | (memory, none) => .ok () { registers, memory, console, halted }
    | (memory, some cause) => .error (.outOfBounds cause) { registers, memory, console, halted }

/-- Writes a word. -/
def store (a v : UInt32) : Exec Unit :=
  storeBytes a (Memory.wordBytes v)

/-! ### The console -/

/-- The number of bytes that wait to be read. -/
def pendingInput : Exec Nat :=
  fun m => .ok m.console.pending m

/-- Reads the next bytes of the input, at most `n` of them. -/
def readBytes (n : Nat) : Exec (List UInt8) :=
  fun m => .ok (m.console.take n) { m with console := m.console.drop n }

/-- Reads all input. -/
def readAll : Exec (List UInt8) := do
  readBytes (← pendingInput)

/-- Reads the next number of the input.  Without one, the white space is read all the same. -/
def nextInteger : Exec (Option UInt32) :=
  fun m => .ok m.console.nextInteger.1 { m with console := m.console.nextInteger.2 }

/-- Appends to the output. -/
def print (bytes : List UInt8) : Exec Unit :=
  fun m => .ok () { m with console := m.console.write bytes }

/-! ### The end -/

/-- Halts the machine. -/
def halt : Exec Unit :=
  fun m => .ok () { m with halted := true }

end Exec

end WordMachine
