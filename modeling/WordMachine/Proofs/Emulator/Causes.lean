/-
**What makes an emulator fault.**

An attempt faults for one of a few causes.  The fetch is outside memory, or the word is no
instruction, or the instruction accesses memory outside its range, or it looks for a number that the
input does not hold.  No attempt faults because an operand is of a kind that its instruction cannot
use: words hold no such operands.

A run goes on until a step is refused, so that the same causes are those of every run.

* `Emulator.Explains` — the causes of a fault;
* `Emulator.explains_of_attempt` — every fault of an attempt has one of them;
* `Emulator.explained_fault` — **instructions, attempts and runs fault for these causes only**.
-/

import WordMachine.Proofs.Emulator.Runs
import WordMachine.Proofs.Machine.Agreement

set_option relaxedAutoImplicit false
set_option autoImplicit false

namespace WordMachine

/-- Memory that was never written reads as zero. -/
theorem Memory.read32_zeros {size : Nat} {a : UInt32} (h : a.toNat + 4 ≤ size) :
    (zeros size).read32 a = .ok 0 := by
  have hrange : (zeros size).InRange a 4 := by
    unfold InRange
    rwa [size_zeros]
  have hslice : (zeros size).slice a.toNat 4 = [0, 0, 0, 0] := by
    simp [slice, List.range', byte_zeros]
  rw [read32, read, if_pos hrange, hslice]
  rfl

namespace Emulator

open Exec

variable {e : Emulator} {x : Attempt} {w : UInt32} {cause : Fault} {r : Refusal}

/-! ### Causes -/

/-- **Why an attempt faults.** -/
inductive Explains (e : Emulator) : Attempt → Fault → Prop
  /-- There is no word at the program counter. -/
  | fetch (h : ¬ e.machine.memory.InRange e.machine.pc 4) :
      Explains e .step (.outOfBounds ⟨4, e.machine.pc, e.machine.memory.size⟩)
  /-- The word is no instruction. -/
  | word {x : Attempt} {w : UInt32} {error : DecodeError} (hword : e.attempted? x = some w)
      (hdecode : Instruction.decode w = .error error) : Explains e x (.undecodable error)
  /-- The word is an instruction, which faults. -/
  | instruction {x : Attempt} {w : UInt32} {i : Instruction} {cause : Fault}
      (hword : e.attempted? x = some w) (hdecode : Instruction.decode w = .ok i)
      (hcause : cause.Arises i.opcode e.machine) : Explains e x cause

/-- The program counter has no part in what goes wrong. -/
theorem arises_setPc {op : Opcode} {m : Machine} {a : UInt32} (h : cause.Arises op (m.setPc a)) :
    cause.Arises op m := by
  cases cause <;> exact h

/-! ### Attempts -/

theorem explains_of_word (hword : e.attempted? x = some w)
    (h : (e.executeReady w).2 = some (.fault cause)) : e.Explains x cause := by
  cases hdecode : Instruction.decode w with
  | error error =>
      rw [executeReady_of_undecodable hdecode] at h
      obtain rfl := Refusal.fault.inj (Option.some.inj h)
      exact .word hword hdecode
  | ok i =>
      cases hexec : Exec.instruction i (e.machine.setPc (e.machine.pc + 4)) with
      | ok u m =>
          rw [executeReady_of_ok hdecode hexec] at h
          exact nomatch h
      | error cause m =>
          rw [executeReady_of_error hdecode hexec] at h
          obtain rfl := Refusal.fault.inj (Option.some.inj h)
          have harises := Instruction.arises_of_decode hdecode hexec
          exact .instruction hword hdecode (arises_setPc harises)

/-- **Every fault of an attempt has a cause.**  An emulator that had stopped does not fault. -/
theorem explains_of_attempt (h : (e.attempt x).2 = some (.fault cause)) : e.Explains x cause := by
  cases hstatus : e.status with
  | halted =>
      rw [attempt_of_refusal (refusal?_of_halted hstatus)] at h
      cases h
  | faulted =>
      rw [attempt_of_refusal (refusal?_of_faulted hstatus)] at h
      cases h
  | ready =>
      cases x with
      | word w =>
          rw [attempt, executeWord_of_ready hstatus] at h
          exact explains_of_word rfl h
      | step =>
          cases hfetch : e.machine.fetch with
          | ok w =>
              have hword : e.attempted? .step = some w := by
                simp [attempted?, current?, hfetch, Except.toOption]
              rw [attempt, step_of_fetch hstatus hfetch] at h
              exact explains_of_word hword h
          | error error =>
              rw [attempt, step_of_outOfBounds hstatus hfetch] at h
              obtain rfl := Refusal.fault.inj (Option.some.inj h)
              have hrange : ¬ e.machine.memory.InRange e.machine.pc 4 := by
                intro hin
                rw [Machine.fetch, Memory.read32, Memory.read, if_pos hin] at hfetch
                cases hfetch
              rw [Machine.fetch, Memory.read32, Memory.read, if_neg hrange] at hfetch
              obtain rfl := Except.error.inj hfetch
              exact .fetch hrange

/-! ### Runs -/

/-- A run that is refused ends at a step that is. -/
theorem exists_step_of_run {budget maxSteps : Nat} {run : Run}
    (h : e.runUpTo budget maxSteps = some run) (hresult : run.result = .error r) :
    ∃ k e', Steps k e e' ∧ e'.step.2 = some r := by
  obtain ⟨n, rfl⟩ : ∃ n, run = e.run n := by
    rcases runUpTo_cases h with ⟨_, hrun⟩ | ⟨_, hrun, _⟩
    · exact ⟨maxSteps, hrun⟩
    · exact ⟨budget, hrun⟩
  have hgoes := goes_run n e
  generalize e.run n = run at hgoes hresult
  cases hgoes with
  | ended => exact nomatch hresult
  | limited => exact nomatch hresult
  | @refused k e₁ e' r' hsteps hlt hend hstep =>
      obtain rfl := Except.error.inj hresult
      exact ⟨k, e₁, hsteps, congrArg Prod.snd hstep⟩

/-- **Nothing faults for another cause.**  An instruction that was decoded is executed, or faults
because of memory or input; an attempt faults for such an instruction, or because there is none; and
a run faults where a step of it does. -/
theorem explained_fault :
    (∀ (w : UInt32) (i : Instruction) (m : Machine), Instruction.decode w = .ok i →
      (∃ m', m.execute i = .done m') ∨
        ∃ cause m', m.execute i = .faulted cause m' ∧ cause.Arises i.opcode m) ∧
      (∀ (e : Emulator) (x : Attempt) (cause : Fault),
        (e.attempt x).2 = some (.fault cause) → e.Explains x cause) ∧
      ∀ (e : Emulator) (budget maxSteps : Nat) (run : Run) (cause : Fault),
        e.runUpTo budget maxSteps = some run → run.result = .error (.fault cause) →
          ∃ k e', Steps k e e' ∧ e'.Explains .step cause := by
  refine ⟨fun w i m hdecode => Instruction.execute_of_decode hdecode m,
    fun e x cause h => explains_of_attempt h, ?_⟩
  intro e budget maxSteps run cause hrun hresult
  obtain ⟨k, e', hsteps, hstep⟩ := exists_step_of_run hrun hresult
  exact ⟨k, e', hsteps, explains_of_attempt hstep⟩

/-- Memory that was never written holds no instruction, and its last byte is not a whole word. -/
theorem explained_lastByte :
    let e := Emulator.ofSize .standard
    let i : Instruction :=
      { opcode := .lodw, a := some (.register .ax), b := some (.address 0xFFFF) }
    let x := Attempt.word 0x0400FFFF
    let outside := Fault.outOfBounds ⟨4, 0xFFFF, e.machine.memory.size⟩
    let blank := Fault.undecodable (.unknownOpcode 0)
    (Instruction.decode 0x0400FFFF = .ok i ∧
      ((∃ m', e.machine.execute i = .done m') ∨
        ∃ cause m', e.machine.execute i = .faulted cause m' ∧ cause.Arises i.opcode e.machine)) ∧
      ((e.attempt x).2 = some (.fault outside) ∧ e.Explains x outside) ∧
      ∃ run, e.runUpTo 1 1 = some run ∧ run.result = .error (.fault blank) ∧
        ∃ k e', Steps k e e' ∧ e'.Explains .step blank := by
  intro e i x outside blank
  have hdecode : Instruction.decode 0x0400FFFF = .ok i := rfl
  have hsize : e.machine.memory.size = 65536 := Memory.size_zeros 65536
  have hattempt : (e.attempt x).2 = some (.fault outside) := by
    have hrange : ¬ e.machine.memory.InRange 0xFFFF 4 := by
      unfold Memory.InRange
      rw [hsize]
      decide
    -- For every machine, so that nothing here is computed on the memory of this one.
    have lodw : ∀ m : Machine, ¬ m.memory.InRange 0xFFFF 4 →
        Exec.instruction i m = .error (.outOfBounds ⟨4, 0xFFFF, m.memory.size⟩) m := by
      intro m hm
      show (do let v ← Exec.load 0xFFFF; writeRegister .ax v : Exec Unit) m = _
      rw [bind_of_error (load_of_not_inRange hm)]
    show (e.executeWord 0x0400FFFF).2 = _
    rw [executeWord_of_ready rfl, executeReady_of_error hdecode (lodw (e.machine.setPc _) hrange)]
    rfl
  have hrun : e.runUpTo 1 1 = some
      { emulator := ⟨e.machine, .faulted, blank.message⟩, result := .error (.fault blank) } := by
    have hfetch : e.machine.fetch = .ok 0 := Memory.read32_zeros (by decide)
    have hend : e.termination? = none := by
      have hoff : e.machine.ranOff = false := by
        rw [Machine.ranOff, hsize]
        rfl
      rw [termination?, if_neg (fun h => nomatch h), hoff]
      rfl
    have hstep : e.step = (⟨e.machine, .faulted, blank.message⟩, some (.fault blank)) := by
      have back : (e.machine.setPc (e.machine.pc + 4)).setPc e.machine.pc = e.machine :=
        e.machine.setPc_back (e.machine.pc + 4) e.machine.console
      rw [step_of_fetch rfl hfetch, executeReady_of_undecodable rfl, faultAt, back]
    rw [runUpTo, if_neg (by decide), Emulator.run, runFrom_of_refusal hend hstep]
  obtain ⟨hinstruction, hattempts, hruns⟩ := explained_fault
  exact ⟨⟨hdecode, hinstruction _ _ _ hdecode⟩, ⟨hattempt, hattempts _ _ _ hattempt⟩,
    _, hrun, rfl, hruns _ _ _ _ _ hrun rfl⟩

end Emulator

end WordMachine
