/-
**What the end of a run says.**

A run that ends well reports how it ended, and after how many instructions.  The report describes
the emulator after the run: halted, or ready with its program counter outside memory, or ready after
as many instructions as allowed.

A run looks for the end of memory before its first step, and only a step looks for an earlier fault.
So there is one emulator that a report does not describe: one that had faulted before the run, with
its program counter outside memory.  Any other that had faulted refuses to run.

Main definitions:

* `Termination.Describes` — what the end of a run says about the emulator after it;
* `Emulator.FaultedOutside` — having faulted, with the program counter outside memory.

Main results:

* `Emulator.Steps.not_faulted` — no step that is executed leads to a fault;
* `Emulator.runUpTo_of_faulted` — how a run of an emulator goes that had faulted;
* `Emulator.describes_of_run` — **a report describes the emulator, unless it had faulted outside**.
-/

import WordMachine.Proofs.Emulator.Lifecycle

set_option relaxedAutoImplicit false
set_option autoImplicit false

namespace WordMachine

/-- What the end of a run **says** about the emulator after it, when `steps` instructions were
executed of at most `maxSteps`, zero standing for no limit. -/
def Termination.Describes (maxSteps steps : Nat) (e : Emulator) : Termination → Prop
  | .halted => e.status = .halted
  | .ranOff => e.status = .ready ∧ e.machine.memory.size ≤ e.machine.pc.toNat
  | .stepLimit => e.status = .ready ∧ maxSteps ≠ 0 ∧ steps = maxSteps

namespace Emulator

/-- The emulator has faulted, with its program counter outside memory. -/
def FaultedOutside (e : Emulator) : Prop :=
  e.status = .faulted ∧ e.machine.memory.size ≤ e.machine.pc.toNat

variable {e e' : Emulator} {t : Termination} {run : Run} {budget maxSteps k : Nat}

/-! ### Where a run ends -/

theorem ranOff_iff : e.machine.ranOff = true ↔ e.machine.memory.size ≤ e.machine.pc.toNat :=
  decide_eq_true_iff

/-- A run ends at an emulator that has halted, and at any other whose program counter is outside
memory. -/
theorem termination?_eq_some (h : e.termination? = some t) :
    (t = .halted ∧ e.status = .halted) ∨
      (t = .ranOff ∧ e.status ≠ .halted ∧ e.machine.memory.size ≤ e.machine.pc.toNat) := by
  unfold termination? at h
  split at h
  · rename_i hhalted
    exact .inl ⟨(Option.some.inj h).symm, hhalted⟩
  · rename_i hhalted
    split at h
    · rename_i hoff
      exact .inr ⟨(Option.some.inj h).symm, hhalted, ranOff_iff.1 hoff⟩
    · exact nomatch h

theorem not_halted_of_termination? (h : e.termination? = none) : e.status ≠ .halted := by
  intro hhalted
  rw [termination?, if_pos hhalted] at h
  exact nomatch h

/-- Only the program counter ends a run of an emulator that has faulted. -/
theorem termination?_of_faulted (h : e.status = .faulted) :
    e.termination? = if e.machine.ranOff then some .ranOff else none := by
  have hhalted : e.status ≠ .halted := by
    rw [h]
    exact nofun
  rw [termination?, if_neg hhalted]

/-! ### Steps and faults -/

/-- A step that is executed leaves an emulator that has halted or is ready. -/
theorem not_faulted_of_step (h : e.step = (e', none)) : e'.status ≠ .faulted := by
  have hstep : e.attempt .step = (e', none) := h
  obtain ⟨hready, -, m, -, rfl⟩ := done_of_attempt hstep
  cases hmark : m.halted <;> simp [hready]

/-- **No step that is executed leads to a fault**: what a chain of them ends at has not faulted, if
there is a step at all or the first emulator had not faulted. -/
theorem Steps.not_faulted (h : Steps k e e') (hk : k ≠ 0 ∨ e.status ≠ .faulted) :
    e'.status ≠ .faulted := by
  induction h with
  | refl e => exact hk.resolve_left fun hne => hne rfl
  | next hstep _ ih => exact ih (.inr (not_faulted_of_step hstep))

theorem ready_of_not {s : Status} (hhalted : s ≠ .halted) (hfault : s ≠ .faulted) :
    s = .ready := by
  cases s with
  | ready => rfl
  | halted => exact absurd rfl hhalted
  | faulted => exact absurd rfl hfault

/-! ### Reports -/

/-- The end that some steps lead to says what is so, unless the run ended where it began. -/
theorem describes_of_steps {steps : Nat} (h : Steps k e e') (hend : e'.termination? = some t)
    (hoff : ¬ e.FaultedOutside) : t.Describes maxSteps steps e' := by
  rcases termination?_eq_some hend with ⟨rfl, hhalted⟩ | ⟨rfl, hhalted, hpc⟩
  · exact hhalted
  · refine ⟨ready_of_not hhalted (h.not_faulted ?_), hpc⟩
    -- Without a step this is the emulator before the run, which may have faulted elsewhere.
    cases h with
    | refl => exact .inr fun hfault => hoff ⟨hfault, hpc⟩
    | next _ _ => exact .inl (Nat.succ_ne_zero _)

/-- What a run reports that ends well, where only a limit that was asked for counts as one. -/
theorem describes_of_goes {n : Nat} (h : Goes n 0 e run) (hresult : run.result = .ok ⟨t, k⟩)
    (hlimit : run.ended? = none → maxSteps ≠ 0 ∧ n = maxSteps) (hoff : ¬ e.FaultedOutside) :
    t.Describes maxSteps k run.emulator := by
  cases h with
  | ended hsteps _ hend =>
      obtain ⟨rfl, rfl⟩ := RunResult.mk.inj (Except.ok.inj hresult)
      exact describes_of_steps hsteps hend hoff
  | limited hsteps hend =>
      obtain ⟨rfl, rfl⟩ := RunResult.mk.inj (Except.ok.inj hresult)
      obtain ⟨hpos, rfl⟩ := hlimit rfl
      have hfault := hsteps.not_faulted (.inl hpos)
      exact ⟨ready_of_not (not_halted_of_termination? hend) hfault, hpos, Nat.zero_add n⟩
  | refused => exact nomatch hresult

theorem run_of_faulted {n : Nat} (h : e.status = .faulted) :
    e.run (n + 1) =
      { emulator := e
        result :=
          if e.machine.ranOff then .ok ⟨.ranOff, 0⟩ else .error (.faulted e.lastFault) } := by
  have hend := termination?_of_faulted h
  cases hoff : e.machine.ranOff with
  | true =>
      rw [hoff, if_pos rfl] at hend
      exact runFrom_of_termination hend
  | false =>
      rw [hoff, if_neg Bool.false_ne_true] at hend
      have hstep : e.step = (e, some (.faulted e.lastFault)) :=
        attempt_of_refusal (refusal?_of_faulted h) .step
      exact runFrom_of_refusal hend hstep

/-- **How a run goes of an emulator that had faulted**: it is refused, unless the program counter is
outside memory. -/
theorem runUpTo_of_faulted (h : e.status = .faulted) :
    e.runUpTo (budget + 1) maxSteps = some
      { emulator := e
        result :=
          if e.machine.ranOff then .ok ⟨.ranOff, 0⟩ else .error (.faulted e.lastFault) } := by
  by_cases hzero : maxSteps = 0
  · rw [runUpTo, if_pos hzero, runFreely, run_of_faulted h]
    cases e.machine.ranOff <;> rfl
  · obtain ⟨n, rfl⟩ := Nat.exists_eq_succ_of_ne_zero hzero
    rw [runUpTo, if_neg hzero, run_of_faulted h]

/-- **A report describes the emulator after the run**, unless the emulator had faulted before, with
its program counter outside memory.  That one is reported to have run off the end of memory after no
instruction; any other that had faulted refuses to run, with the wording of its last fault. -/
theorem describes_of_run (budget maxSteps : Nat) (e : Emulator) :
    (∀ run t k, e.runUpTo budget maxSteps = some run → run.result = .ok ⟨t, k⟩ →
      ¬ e.FaultedOutside → t.Describes maxSteps k run.emulator) ∧
      (e.status = .faulted →
        e.runUpTo (budget + 1) maxSteps = some
          { emulator := e
            result :=
              if e.machine.ranOff then .ok ⟨.ranOff, 0⟩ else .error (.faulted e.lastFault) }) := by
  refine ⟨?_, runUpTo_of_faulted⟩
  intro run t k hrun hresult hoff
  rcases runUpTo_cases hrun with ⟨hpos, rfl⟩ | ⟨_, rfl, hended⟩
  · exact describes_of_goes (goes_run maxSteps e) hresult (fun _ => ⟨hpos, rfl⟩) hoff
  · exact describes_of_goes (goes_run budget e) hresult (fun hnone => absurd hnone hended) hoff

/-- An emulator that has halted runs for no instruction. -/
theorem describes_haltedBefore :
    let e := ((Emulator.ofSize .standard).attempt (.word 0xFF000000)).1
    ∃ run, e.runUpTo 0 0 = some run ∧ run.result = .ok ⟨.halted, 0⟩ ∧ ¬ e.FaultedOutside ∧
      Termination.Describes 0 0 run.emulator .halted := by
  intro e
  have hhalted : e.status = .halted := status_halt rfl
  have hrun : e.runUpTo 0 0 = some { emulator := e, result := .ok ⟨.halted, 0⟩ } := by
    have hend : e.termination? = some .halted := if_pos hhalted
    rw [runUpTo, if_pos rfl, runFreely, Emulator.run, runFrom_of_termination hend]
    rfl
  have hoff : ¬ e.FaultedOutside := by
    rintro ⟨hfault, _⟩
    rw [hhalted] at hfault
    exact nomatch hfault
  exact ⟨_, hrun, rfl, hoff, (describes_of_run 0 0 e).1 _ _ _ hrun rfl hoff⟩

/-! ### An end that is no description -/

/-- A step beyond the end of memory faults there. -/
theorem faultedOutside_of_step (hready : e.status = .ready)
    (hoff : e.machine.memory.size ≤ e.machine.pc.toNat) :
    (e.attempt .step).1.FaultedOutside := by
  have hrange : ¬ e.machine.memory.InRange e.machine.pc 4 := by
    intro hin
    have hle : e.machine.pc.toNat + 4 ≤ e.machine.memory.size := hin
    omega
  have hfetch : e.machine.fetch = .error ⟨4, e.machine.pc, e.machine.memory.size⟩ := by
    rw [Machine.fetch, Memory.read32, Memory.read, if_neg hrange]
    rfl
  rw [attempt, step_of_outOfBounds hready hfetch]
  exact ⟨rfl, hoff⟩

/-- Every run of an emulator that had faulted outside memory reports that it ran off the end. -/
theorem runUpTo_of_faultedOutside (h : e.FaultedOutside) (budget maxSteps : Nat) :
    e.runUpTo budget maxSteps = some { emulator := e, result := .ok ⟨.ranOff, 0⟩ } := by
  obtain ⟨hfault, hoff⟩ := h
  have hend : e.termination? = some .ranOff := by
    rw [termination?_of_faulted hfault, if_pos (ranOff_iff.2 hoff)]
  by_cases hzero : maxSteps = 0
  · rw [runUpTo, if_pos hzero, runFreely, Emulator.run, runFrom_of_termination hend]
    rfl
  · rw [runUpTo, if_neg hzero, Emulator.run, runFrom_of_termination hend]

theorem not_describes_of_faultedOutside (h : e.FaultedOutside) (maxSteps steps : Nat) :
    ¬ Termination.Describes maxSteps steps e .ranOff := by
  rintro ⟨hready, _⟩
  obtain ⟨hfault, _⟩ := h
  rw [hready] at hfault
  exact nomatch hfault

/-- A jump to the end of memory, and a step there: the emulator has faulted, and yet every run of it
reports that it ran off the end of memory. -/
theorem not_describes_stepBeyondMemory :
    let e := (((Emulator.ofSize .standard).attempt (.word 0x40010000)).1.attempt .step).1
    Reachable .standard e ∧ e.status = .faulted ∧
      ∀ budget maxSteps,
        e.runUpTo budget maxSteps = some { emulator := e, result := .ok ⟨.ranOff, 0⟩ } ∧
          ¬ Termination.Describes maxSteps 0 e .ranOff := by
  intro e
  let e₁ := ((Emulator.ofSize .standard).attempt (.word 0x40010000)).1
  have hreach : Reachable .standard e₁ := .tail .refl ⟨_, .attempt _⟩
  -- For every machine, so that nothing here is computed on the memory of this one.
  have jump : ∀ m : Machine,
      Exec.instruction { opcode := .jmp, a := some (.address 0x10000) } m =
        .ok () (m.setPc 0x10000) := fun _ => rfl
  have hjump : ∃ m : Machine, e₁ = { machine := m.setPc 0x10000 } := by
    show ∃ m : Machine, ((ofSize .standard).executeWord 0x40010000).1 = _
    rw [executeWord_of_ready rfl, executeReady_of_ok rfl (jump _)]
    exact ⟨_, rfl⟩
  obtain ⟨m, hjump⟩ := hjump
  have hready : e₁.status = .ready := by rw [hjump]
  have hoff : e₁.machine.memory.size ≤ e₁.machine.pc.toNat := by
    have hpc : e₁.machine.pc = 0x10000 := by
      rw [hjump]
      exact (RegisterFile.get_set m.registers .pc .pc _).trans (if_pos rfl)
    rw [(coherent_of_reachable hreach).size_eq, hpc]
    decide
  have hfaulted : e.FaultedOutside := faultedOutside_of_step hready hoff
  refine ⟨.tail hreach ⟨_, .attempt _⟩, hfaulted.1, fun budget maxSteps => ⟨?_, ?_⟩⟩
  · exact runUpTo_of_faultedOutside hfaulted budget maxSteps
  · exact not_describes_of_faultedOutside hfaulted maxSteps 0

end Emulator

end WordMachine
