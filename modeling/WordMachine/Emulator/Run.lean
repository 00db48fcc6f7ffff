/-
**Running a program.**

A run executes instructions until the machine halts, until the program counter leaves memory, until
as many instructions as allowed have been executed, or until an instruction is refused.  A trace is
a run that also notes, before each instruction, the program counter and the instruction there.

A run without a limit need not end.  It is the run that a large enough limit leads to, the limit not
being reached.

Main definitions:

* `Termination`, `RunResult` — how a run ends;
* `Emulator.run`, `Emulator.runFreely` — runs with and without a limit;
* `Emulator.trace`, `Emulator.traceFreely` — runs with notes;
* `Emulator.runUpTo`, `Emulator.traceUpTo` — runs with a limit that may be absent.
-/

import WordMachine.Emulator.Basic

set_option relaxedAutoImplicit false
set_option autoImplicit false

namespace WordMachine

/-- How a run ends. -/
inductive Termination
  | halted
  /-- The program counter is outside memory. -/
  | ranOff
  /-- As many instructions as allowed have been executed. -/
  | stepLimit
  deriving DecidableEq, Repr

/-- The wording of how a run ends. -/
def Termination.name : Termination → String
  | halted => "halted"
  | ranOff => "ran off end of memory"
  | stepLimit => "step limit reached"

/-- How a run ended, and after how many instructions. -/
structure RunResult where
  /-- How the run ended. -/
  termination : Termination
  /-- How many instructions were executed. -/
  steps : Nat
  deriving DecidableEq, Repr

/-- The notes of a run, the emulator after it, and how it ended, or why an instruction was
refused. -/
structure Run where
  /-- One line for each instruction that was looked at, in a run that takes notes. -/
  notes : Array Text := #[]
  /-- The emulator after the run. -/
  emulator : Emulator
  /-- How the run ended. -/
  result : Except Refusal RunResult

namespace Emulator

/-- A run ends here, before any instruction. -/
def termination? (e : Emulator) : Option Termination :=
  if e.status = .halted then some .halted
  else if e.machine.ranOff then some .ranOff
  else none

/-- Runs for at most `n` instructions, after `steps` others. -/
def runFrom : Nat → Nat → Emulator → Run
  | n, steps, e =>
    match e.termination? with
    | some t => { emulator := e, result := .ok ⟨t, steps⟩ }
    | none =>
      match n with
      | 0 => { emulator := e, result := .ok ⟨.stepLimit, steps⟩ }
      | n + 1 =>
        match e.step with
        | (e, none) => runFrom n (steps + 1) e
        | (e, some r) => { emulator := e, result := .error r }

/-- Runs for at most `limit` instructions. -/
def run (limit : Nat) (e : Emulator) : Run :=
  runFrom limit 0 e

/-- The note on the next instruction: the program counter and the instruction there. -/
def note (e : Emulator) : Text :=
  "PC: 0x".toList ++ Numeral.hexLower 8 e.machine.pc.toNat ++ [' ', ' '] ++
    e.disassembleCurrent ++ ['\n']

/-- Runs for at most `n` instructions, after `steps` others with the given notes. -/
def traceFrom : Nat → Nat → Array Text → Emulator → Run
  | n, steps, notes, e =>
    match e.termination? with
    | some t => { notes, emulator := e, result := .ok ⟨t, steps⟩ }
    | none =>
      match n with
      | 0 => { notes, emulator := e, result := .ok ⟨.stepLimit, steps⟩ }
      | n + 1 =>
        let notes := notes.push e.note
        match e.step with
        | (e, none) => traceFrom n (steps + 1) notes e
        | (e, some r) => { notes, emulator := e, result := .error r }

/-- Runs for at most `limit` instructions and takes notes. -/
def trace (limit : Nat) (e : Emulator) : Run :=
  traceFrom limit 0 #[] e

end Emulator

/-- The run, if it ended by itself and not at its limit. -/
def Run.ended? (r : Run) : Option Run :=
  match r.result with
  | .ok ⟨.stepLimit, _⟩ => none
  | _ => some r

namespace Emulator

/-- Runs without a limit, if that takes at most `budget` instructions. -/
def runFreely (budget : Nat) (e : Emulator) : Option Run :=
  (e.run budget).ended?

/-- Runs without a limit and takes notes, if that takes at most `budget` instructions. -/
def traceFreely (budget : Nat) (e : Emulator) : Option Run :=
  (e.trace budget).ended?

/-- Runs for at most `maxSteps` instructions, where zero stands for no limit. -/
def runUpTo (budget maxSteps : Nat) (e : Emulator) : Option Run :=
  if maxSteps = 0 then e.runFreely budget else some (e.run maxSteps)

/-- Runs for at most `maxSteps` instructions, where zero stands for no limit, and takes notes. -/
def traceUpTo (budget maxSteps : Nat) (e : Emulator) : Option Run :=
  if maxSteps = 0 then e.traceFreely budget else some (e.trace maxSteps)

end Emulator

end WordMachine
