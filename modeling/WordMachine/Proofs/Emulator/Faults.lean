/-
**Faults of the emulator.**

A ready emulator attempts an instruction, either the one at the program counter or a given word.
The program counter advances before the word is decoded, and goes back when the instruction faults.
As a faulting instruction changes nothing else, the machine is afterwards as it was before, apart
from white space that an instruction has read while it looked for a number.

Main definitions:

* `Attempt`, `Emulator.attempt` — the two ways to attempt an instruction;
* `Emulator.Spared` — what a fault leaves as it was.

Main results:

* `Emulator.executeReady_fault` — the emulator after a fault, whole;
* `Emulator.spared_of_fault` — an attempt that faults spares the machine.
-/

import WordMachine.Emulator.Basic
import WordMachine.Proofs.Machine.Atomicity

set_option relaxedAutoImplicit false
set_option autoImplicit false

namespace WordMachine

/-! ### The program counter -/

namespace Machine

theorem setPc_pc (m : Machine) : m.setPc m.pc = m := by
  simp [setPc, pc]

/-- Going back undoes the advance, whatever has become of the console. -/
theorem setPc_back (m : Machine) (a : UInt32) (c : Console) :
    setPc { m.setPc a with console := c } m.pc = { m with console := c } := by
  simp [setPc, pc]

end Machine

namespace Emulator

open Exec

/-! ### Faults -/

section Word

variable {e : Emulator} {m : Machine} {w : UInt32} {i : Instruction} {cause : Fault} {r : Refusal}

theorem executeReady_of_undecodable {error : DecodeError}
    (h : Instruction.decode w = .error error) :
    e.executeReady w =
      faultAt e.machine.pc (e.machine.setPc (e.machine.pc + 4)) (.undecodable error) := by
  simp [executeReady, h]

theorem executeReady_of_error (hdecode : Instruction.decode w = .ok i)
    (h : instruction i (e.machine.setPc (e.machine.pc + 4)) = .error cause m) :
    e.executeReady w = faultAt e.machine.pc m cause := by
  simp [executeReady, hdecode, Machine.execute, h]

theorem executeReady_of_ok (hdecode : Instruction.decode w = .ok i)
    (h : instruction i (e.machine.setPc (e.machine.pc + 4)) = .ok () m) :
    e.executeReady w =
      ({ e with machine := m, status := if m.halted then .halted else e.status }, none) := by
  simp [executeReady, hdecode, Machine.execute, h]

/-- **The emulator after a fault.**  Its machine is the one before the attempt, unless white space
was read in a vain search for a number. -/
theorem executeReady_fault (h : (e.executeReady w).2 = some r) :
    ∃ cause, r = .fault cause ∧
      ((cause ≠ .noInteger ∧ (e.executeReady w).1 = ⟨e.machine, .faulted, cause.message⟩) ∨
        (cause = .noInteger ∧ e.machine.console.integer? = none ∧
          (∃ i, Instruction.decode w = .ok i ∧ i.opcode = .insi) ∧
          (e.executeReady w).1 =
            ⟨{ e.machine with console := e.machine.console.skipBlanks }, .faulted,
              cause.message⟩)) := by
  have back : (e.machine.setPc (e.machine.pc + 4)).setPc e.machine.pc = e.machine :=
    e.machine.setPc_back (e.machine.pc + 4) e.machine.console
  cases hdecode : Instruction.decode w with
  | error error =>
      rw [executeReady_of_undecodable hdecode] at h ⊢
      refine ⟨.undecodable error, (Option.some.inj h).symm, .inl ⟨by simp, ?_⟩⟩
      rw [faultAt, back]
  | ok i =>
      cases hexec : instruction i (e.machine.setPc (e.machine.pc + 4)) with
      | ok u m =>
          rw [executeReady_of_ok hdecode hexec] at h
          exact nomatch h
      | error cause m =>
          rw [executeReady_of_error hdecode hexec] at h ⊢
          refine ⟨cause, (Option.some.inj h).symm, ?_⟩
          rcases instruction_error hexec with ⟨rfl, hne⟩ | ⟨hop, hcause, hnone, rfl⟩
          · exact .inl ⟨hne, by rw [faultAt, back]⟩
          · exact .inr ⟨hcause, hnone, ⟨i, rfl, hop⟩, by rw [faultAt, e.machine.setPc_back]; rfl⟩

end Word

/-! ### Attempts -/

end Emulator

/-- The two ways to attempt an instruction. -/
inductive Attempt
  /-- The instruction at the program counter. -/
  | step
  /-- The instruction in a given word, as if it stood at the program counter. -/
  | word (w : UInt32)

namespace Emulator

/-- Attempts an instruction. -/
def attempt (e : Emulator) : Attempt → Emulator × Option Refusal
  | .step => e.step
  | .word w => e.executeWord w

/-- The word that an attempt is about, if there is one at the program counter. -/
def attempted? (e : Emulator) : Attempt → Option UInt32
  | .step => e.current?
  | .word w => some w

/-- A fault **spares** the machine of an emulator: registers, memory, output and the mark of having
halted are as they were.  So is the input, unless an instruction looked there for a number in vain;
then the white space at its front has gone. -/
structure Spared (e : Emulator) (x : Attempt) (cause : Fault) (e' : Emulator) : Prop where
  registers : e'.machine.registers = e.machine.registers
  memory : e'.machine.memory = e.machine.memory
  output : e'.machine.console.output = e.machine.console.output
  halted : e'.machine.halted = e.machine.halted
  input : e'.machine.console.input =
    if cause = .noInteger then e.machine.console.input.dropWhile Console.isBlank
    else e.machine.console.input
  vain : cause = .noInteger → e.machine.console.integer? = none ∧
    ∃ w i, e.attempted? x = some w ∧ Instruction.decode w = .ok i ∧ i.opcode = .insi

section Ready

variable {e : Emulator} {x : Attempt} {r : Refusal}

theorem refusal?_of_ready (h : e.status = .ready) : e.refusal? = none := by
  rw [refusal?, h]

theorem refusal?_of_halted (h : e.status = .halted) : e.refusal? = some .halted := by
  rw [refusal?, h]

theorem refusal?_of_faulted (h : e.status = .faulted) :
    e.refusal? = some (.faulted e.lastFault) := by
  rw [refusal?, h]

theorem ready_of_refusal?_eq_none (h : e.refusal? = none) : e.status = .ready := by
  cases hstatus : e.status with
  | ready => rfl
  | halted => exact nomatch (refusal?_of_halted hstatus).symm.trans h
  | faulted => exact nomatch (refusal?_of_faulted hstatus).symm.trans h

theorem executeWord_of_ready (h : e.status = .ready) (w : UInt32) :
    e.executeWord w = e.executeReady w := by
  rw [executeWord, refusal?_of_ready h]

theorem step_of_fetch {w : UInt32} (h : e.status = .ready) (hfetch : e.machine.fetch = .ok w) :
    e.step = e.executeReady w := by
  simp only [step, refusal?_of_ready h, hfetch]

theorem step_of_outOfBounds {cause : Memory.OutOfBounds} (h : e.status = .ready)
    (hfetch : e.machine.fetch = .error cause) :
    e.step = (⟨e.machine, .faulted, Fault.message (.outOfBounds cause)⟩,
      some (.fault (.outOfBounds cause))) := by
  simp only [step, refusal?_of_ready h, hfetch, faultAt, Machine.setPc_pc]

/-- An attempt that gets to a word and faults spares the machine. -/
theorem spared_of_word {w : UInt32} (hword : e.attempted? x = some w)
    (hattempt : e.attempt x = e.executeReady w) (h : (e.attempt x).2 = some r) :
    ∃ cause, r = .fault cause ∧ (e.attempt x).1.status = .faulted ∧
      (e.attempt x).1.lastFault = r.message ∧ e.Spared x cause (e.attempt x).1 := by
  rw [hattempt] at h ⊢
  obtain ⟨cause, rfl, ⟨hne, hafter⟩ | ⟨rfl, hnone, ⟨i, hi, hop⟩, hafter⟩⟩ := executeReady_fault h
  · rw [hafter]
    exact ⟨cause, rfl, rfl, rfl, rfl, rfl, rfl, rfl, (if_neg hne).symm, fun h => absurd h hne⟩
  · rw [hafter]
    refine ⟨_, rfl, rfl, rfl, rfl, rfl, rfl, rfl, ?_, fun _ => ⟨hnone, w, i, hword, hi, hop⟩⟩
    exact (Console.input_skipBlanks _).trans (if_pos rfl).symm

/-- **A faulting instruction leaves the machine as it was.**  When a ready emulator refuses an
attempt, the instruction has faulted, the emulator remembers why, and the machine is spared. -/
theorem spared_of_fault (hready : e.status = .ready) (h : (e.attempt x).2 = some r) :
    ∃ cause, r = .fault cause ∧ (e.attempt x).1.status = .faulted ∧
      (e.attempt x).1.lastFault = r.message ∧ e.Spared x cause (e.attempt x).1 := by
  cases x with
  | word w => exact spared_of_word rfl (executeWord_of_ready hready w) h
  | step =>
      cases hfetch : e.machine.fetch with
      | ok w =>
          have hword : e.current? = some w := by simp [current?, hfetch, Except.toOption]
          exact spared_of_word hword (step_of_fetch hready hfetch) h
      | error cause =>
          have hstep : e.attempt .step = _ := step_of_outOfBounds hready hfetch
          rw [hstep] at h ⊢
          obtain rfl := Option.some.inj h
          exact ⟨_, rfl, rfl, rfl, rfl, rfl, rfl, rfl, rfl, fun h => nomatch h⟩

end Ready

/-- A blank and a letter hold no number: the blank goes, the letter stays. -/
theorem spared_vainInput :
    let e := (Emulator.ofSize .standard).pushInput [32, 120]
    let x := Attempt.word 0x52000010
    e.status = .ready ∧ (e.attempt x).2 = some (.fault .noInteger) ∧
      ∃ cause, Refusal.fault .noInteger = .fault cause ∧
        (e.attempt x).1.status = .faulted ∧
        (e.attempt x).1.lastFault = Refusal.message (.fault .noInteger) ∧
        e.Spared x cause (e.attempt x).1 := by
  intro e x
  have hready : e.status = .ready := rfl
  have hfits : (e.machine.setPc (e.machine.pc + 4)).memory.InRange 0x10 4 := by
    show 0x10 + 4 ≤ Memory.size (.zeros leastMemory)
    rw [Memory.size_zeros]
    decide
  have hnone : (e.machine.setPc (e.machine.pc + 4)).console.integer? = none := by
    show Console.integer? { input := [32, 120] } = none
    decide
  -- For every machine, so that nothing here is computed on the memory of this one.
  have insi : ∀ m : Machine, m.memory.InRange 0x10 4 → m.console.integer? = none →
      Exec.instruction { opcode := .insi, a := some (.address 0x10) } m =
        .error .noInteger { m with console := m.console.skipBlanks } :=
    fun _ hfits hnone => Exec.inputInteger_of_none hfits hnone
  have hfault : (e.attempt x).2 = some (.fault .noInteger) := by
    show (e.executeWord 0x52000010).2 = _
    rw [executeWord_of_ready hready, executeReady_of_error rfl (insi _ hfits hnone)]
    rfl
  exact ⟨hready, hfault, spared_of_fault hready hfault⟩

end Emulator

end WordMachine
