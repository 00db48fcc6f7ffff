/-
**The emulator.**

The emulator runs the machine one instruction at a time and remembers whether it can go on.  It is
ready, or it has halted, or it has faulted; a halted or faulted emulator refuses to go on until it
is reset or a program is loaded.  A fault leaves the program counter at the instruction that
faulted, and the emulator keeps its wording.

The status, the mark of the machine and the wording of the last fault are kept side by side.  That
they agree is no matter of their types: each operation has to see to it.

Main definitions:

* `Status`, `Emulator`, `Emulator.reset` — the machine, whether it can go on, and its last fault;
* `Emulator.load`, `LoadError` — putting a program into memory;
* `Refusal` — why an instruction was not executed;
* `Emulator.executeWord`, `Emulator.step` — one instruction;
* `Emulator.register`, `Emulator.current?`, `Emulator.disassembleCurrent` — looking at the machine.
-/

import WordMachine.Machine.Execute
import WordMachine.Assembly.Program

set_option relaxedAutoImplicit false
set_option autoImplicit false

namespace WordMachine

/-- Whether the emulator can go on. -/
inductive Status
  | ready
  | halted
  /-- An instruction faulted. -/
  | faulted
  deriving DecidableEq, Repr, Inhabited

/-- The name of a status. -/
def Status.name : Status → String
  | ready => "ready"
  | halted => "halted"
  | faulted => "faulted"

/-- The **emulator**. -/
structure Emulator where
  /-- The machine. -/
  machine : Machine
  /-- Whether the emulator can go on. -/
  status : Status := .ready
  /-- The wording of the last fault; empty without one. -/
  lastFault : String := ""
  deriving DecidableEq, Repr, Inhabited

/-! ### Errors -/

/-- A program that does not fit into memory. -/
structure LoadError where
  /-- The number of bytes that memory has. -/
  memorySize : Nat
  /-- The address after the text. -/
  textEnd : Nat
  /-- The address after the data. -/
  dataEnd : Nat
  /-- Where the stack starts. -/
  stackStart : Nat
  deriving DecidableEq, Repr

/-- The wording of a diagnostic. -/
def LoadError.message (e : LoadError) : String :=
  s!"program does not fit in {(Numeral.decimal e.memorySize).str} bytes of memory" ++
    s!" (text ends at {(Numeral.word e.textEnd).str}," ++
    s!" data ends at {(Numeral.word e.dataEnd).str}," ++
    s!" stack at {(Numeral.word e.stackStart).str})"

/-- Why an instruction was not executed. -/
inductive Refusal
  /-- The emulator has halted before. -/
  | halted
  /-- The emulator has faulted before. -/
  | faulted (lastFault : String)
  /-- The instruction faults. -/
  | fault (cause : Fault)
  deriving DecidableEq, Repr

/-- The wording of a diagnostic. -/
def Refusal.message : Refusal → String
  | halted => "already halted"
  | faulted lastFault => s!"machine is faulted ({lastFault}); reset or load a program"
  | fault cause => cause.message

/-- No register has the given name. -/
structure UnknownRegister where
  /-- The name. -/
  name : Text
  deriving DecidableEq, Repr

/-- The wording of a diagnostic. -/
def UnknownRegister.message (e : UnknownRegister) : String :=
  Text.message s!"unknown register: {e.name.str}"

namespace Emulator

/-- The emulator with a memory of the given size, switched on. -/
def ofSize (memory : MemorySize) : Emulator :=
  { machine := .ofMemory (.zeros memory.bytes) }

/-- The emulator as it is when it is switched on. -/
def reset (e : Emulator) : Emulator :=
  { machine := e.machine.reset, status := .ready, lastFault := "" }

/-- Queues further input. -/
def pushInput (e : Emulator) (bytes : List UInt8) : Emulator :=
  { e with machine.console := e.machine.console.push bytes }

/-! ### Loading -/

/-- The text, the data and the start of the stack lie inside memory. -/
def fits (e : Emulator) (p : Image) : Bool :=
  p.textEnd ≤ e.machine.memory.size && p.dataEnd ≤ e.machine.memory.size &&
    p.stackStart.toNat < e.machine.memory.size

/-- The machine with a program in memory, about to execute its first instruction.  The data is
written after the text. -/
def boot (m : Machine) (p : Image) : Machine where
  memory := (m.memory.clear.put p.textStart.toNat (p.text.flatMap Memory.wordBytes)).put
    p.dataStart.toNat p.data
  registers := (RegisterFile.zeros.set .pc p.textStart).set .sp p.stackStart

/-- Loads a program into an emulator that is reset before.  A program that does not fit into memory
changes nothing. -/
def load (e : Emulator) (p : Image) : Emulator × Option LoadError :=
  if e.fits p then ({ e.reset with machine := boot e.machine p }, none)
  else (e, some ⟨e.machine.memory.size, p.textEnd, p.dataEnd, p.stackStart.toNat⟩)

/-! ### One instruction -/

/-- The emulator is ready and the program counter is inside memory. -/
def canContinue (e : Emulator) : Bool :=
  e.status == .ready && !e.machine.ranOff

/-- Why an emulator does not go on. -/
def refusal? (e : Emulator) : Option Refusal :=
  match e.status with
  | .ready => none
  | .halted => some .halted
  | .faulted => some (.faulted e.lastFault)

/-- The emulator after a fault of the instruction at `pc`, where the program counter goes back to.
The wording of the fault is kept. -/
def faultAt (pc : UInt32) (m : Machine) (cause : Fault) : Emulator × Option Refusal :=
  ({ machine := m.setPc pc, status := .faulted, lastFault := cause.message }, some (.fault cause))

/-- Executes a word on the machine of a ready emulator, as the instruction at the program counter.
The program counter advances before the word is decoded. -/
def executeReady (e : Emulator) (w : UInt32) : Emulator × Option Refusal :=
  let pc := e.machine.pc
  let m := e.machine.setPc (pc + 4)
  match Instruction.decode w with
  | .error cause => faultAt pc m (.undecodable cause)
  | .ok i =>
    match m.execute i with
    | .done m => ({ e with machine := m, status := if m.halted then .halted else e.status }, none)
    | .faulted cause m => faultAt pc m cause

/-- Executes a word as the instruction at the program counter, unless the emulator refuses. -/
def executeWord (e : Emulator) (w : UInt32) : Emulator × Option Refusal :=
  match e.refusal? with
  | some r => (e, some r)
  | none => e.executeReady w

/-- Fetches and executes the instruction at the program counter, unless the emulator refuses. -/
def step (e : Emulator) : Emulator × Option Refusal :=
  match e.refusal? with
  | some r => (e, some r)
  | none =>
    match e.machine.fetch with
    | .ok w => e.executeReady w
    | .error cause => faultAt e.machine.pc e.machine (.outOfBounds cause)

/-! ### Looking at the machine -/

/-- The word of a register given by its name, in any letter case. -/
def register (e : Emulator) (name : Text) : Except UnknownRegister UInt32 :=
  match Register.ofName? name with
  | some r => .ok (e.machine.registers.get r)
  | none => .error ⟨name⟩

/-- The word at the program counter, if it is inside memory. -/
def current? (e : Emulator) : Option UInt32 :=
  e.machine.fetch.toOption

/-- The instruction at the program counter as assembly text. -/
def disassembleCurrent (e : Emulator) : Text :=
  match e.current? with
  | some w => disassemble w
  | none => "<pc ".toList ++ Numeral.word e.machine.pc.toNat ++ " outside memory>".toList

end Emulator

end WordMachine
