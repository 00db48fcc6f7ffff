/-
**Runs in two parts.**

A run that was stopped by its limit can be taken up again where it was left.  The two runs together
are the run with the sum of both limits, only that the second one starts to count anew.  A run that
ended before its limit ends in the same way with any larger one, and without a limit.

What makes this so is that a run never stops in front of a step that could be executed, unless at
its limit: a machine that has halted, or whose program counter is outside memory, has no such step.

Main results:

* `Emulator.termination?_of_step` — no run ends by itself in front of a step that is executed;
* `Emulator.Steps.run_add` — a run begins with the steps that it executes;
* `Emulator.run_add` — **a run is its first steps and the run of the rest**;
* `Emulator.runUpTo_cut` — **where a run can be cut, and where it makes no difference**.
-/

import WordMachine.Proofs.Emulator.Trails
import WordMachine.Proofs.Emulator.Termination
import WordMachine.Proofs.Memory.Blocks

set_option relaxedAutoImplicit false
set_option autoImplicit false

namespace WordMachine

theorem Run.after_zero (run : Run) : run.after 0 = run := by
  obtain ⟨notes, emulator, result⟩ := run
  cases result with
  | error r => rfl
  | ok r => simp [after, Except.map]

theorem Run.after_after (run : Run) (j k : Nat) : (run.after k).after j = run.after (j + k) := by
  obtain ⟨notes, emulator, result⟩ := run
  cases result with
  | error r => rfl
  | ok r => simp [after, Except.map, Nat.add_assoc]

namespace Emulator

variable {e e' : Emulator} {run : Run} {n m k budget : Nat}

/-! ### Steps of a run -/

/-- **No run ends by itself in front of a step that is executed.**  Such a step is one of a ready
emulator, and it finds its instruction inside memory. -/
theorem termination?_of_step (h : e.step = (e', none)) : e.termination? = none := by
  have hstep : e.attempt .step = (e', none) := h
  obtain ⟨hready, -⟩ := done_of_attempt hstep
  cases hend : e.termination? with
  | none => rfl
  | some t =>
      rcases termination?_eq_some hend with ⟨_, hhalted⟩ | ⟨_, _, hoff⟩
      · exact nomatch hready.symm.trans hhalted
      · obtain ⟨hfault, _⟩ := faultedOutside_of_step hready hoff
        rw [attempt, h] at hfault
        exact absurd hfault (not_faulted_of_step h)

/-- A run begins with the steps that it executes. -/
theorem Steps.run_add (h : Steps k e e') (n : Nat) : e.run (k + n) = (e'.run n).after k := by
  induction h with
  | refl e => rw [Nat.zero_add, Run.after_zero]
  | @next k e e₁ e' hstep _ ih =>
      have hadd : k + 1 + n = k + n + 1 := by omega
      rw [hadd, run_of_step (termination?_of_step hstep) hstep, ih, Run.after_after, Nat.add_comm 1]

/-- A run that is stopped by its limit has executed as many steps as it was allowed. -/
theorem steps_of_stepLimit (h : (e.run n).result = .ok ⟨.stepLimit, k⟩) :
    k = n ∧ Steps n e (e.run n).emulator := by
  have hgoes := goes_run n e
  generalize e.run n = run at hgoes h
  cases hgoes with
  | @ended k' e' t hsteps hle hend =>
      -- No emulator ends a run at a limit.
      obtain ⟨rfl, _⟩ := RunResult.mk.inj (Except.ok.inj h)
      rcases termination?_eq_some hend with ⟨hlimit, _⟩ | ⟨hlimit, _⟩
      · exact nomatch hlimit
      · exact nomatch hlimit
  | limited hsteps hend =>
      obtain ⟨_, rfl⟩ := RunResult.mk.inj (Except.ok.inj h)
      exact ⟨Nat.zero_add n, hsteps⟩
  | refused => exact nomatch h

/-! ### Runs in two parts -/

/-- **A run is its first steps and the run of the rest**, when the first steps do not end it. -/
theorem run_add (h : (e.run n).result = .ok ⟨.stepLimit, k⟩) (m : Nat) :
    e.run (n + m) = ((e.run n).emulator.run m).after n :=
  (steps_of_stepLimit h).2.run_add m

theorem ended?_of_ne (h : ∀ k, run.result ≠ .ok ⟨.stepLimit, k⟩) : run.ended? = some run := by
  unfold Run.ended?
  split
  · rename_i k hresult
    exact absurd hresult (h k)
  · rfl

theorem runUpTo_of_ne_zero (hn : n ≠ 0) (budget : Nat) : e.runUpTo budget n = some (e.run n) := by
  rw [runUpTo, if_neg hn]

/-- A run that ended by itself is the run with any larger limit. -/
theorem run_of_le (h : ∀ k, (e.run n).result ≠ .ok ⟨.stepLimit, k⟩) (hle : n ≤ m) :
    e.run m = e.run n := by
  refine runFrom_of_le ?_ hle
  rw [← run, ended?_of_ne h]
  exact Option.some_ne_none _

/-- A run that ended by itself is the run without a limit. -/
theorem runUpTo_zero_of_le (h : ∀ k, (e.run n).result ≠ .ok ⟨.stepLimit, k⟩) (hle : n ≤ budget) :
    e.runUpTo budget 0 = some (e.run n) := by
  rw [runUpTo, if_pos rfl, runFreely, run_of_le h hle, ended?_of_ne h]

/-- **Where a run can be cut, and where it makes no difference.**  A run that its limit stopped can
be taken up again: the second run ends like the one with the sum of both limits, and counts as many
instructions less as the first run had executed.  A run that ended by itself, or was refused, is the
run with any larger limit, and the only one without a limit.  No run tries more instructions than
its limit allows. -/
theorem runUpTo_cut (hn : n ≠ 0) (budget : Nat) (e : Emulator) :
    ∃ run, e.runUpTo budget n = some run ∧
      (∀ k, run.result = .ok ⟨.stepLimit, k⟩ → ∀ m, m ≠ 0 →
        ∃ rest, run.emulator.runUpTo budget m = some rest ∧
          e.runUpTo budget (n + m) = some (rest.after n)) ∧
      ((∀ k, run.result ≠ .ok ⟨.stepLimit, k⟩) →
        (∀ n', n ≤ n' → e.runUpTo budget n' = some run) ∧
          (∀ budget', n ≤ budget' → e.runUpTo budget' 0 = some run) ∧
          ∀ budget' run', e.runUpTo budget' 0 = some run' → run' = run) ∧
      ∃ es, run.HasTrail e es ∧ es.length ≤ n := by
  refine ⟨e.run n, runUpTo_of_ne_zero hn budget, ?_, ?_, e.trail n, hasTrail_run n e,
    length_trail_le n e⟩
  · intro k hlimit m hm
    refine ⟨_, runUpTo_of_ne_zero hm budget, ?_⟩
    rw [runUpTo_of_ne_zero (by omega), run_add hlimit m]
  · intro hended
    refine ⟨?_, fun budget' => runUpTo_zero_of_le hended, ?_⟩
    · intro n' hle
      rw [runUpTo_of_ne_zero (by omega), run_of_le hended hle]
    · intro budget' run' hrun'
      exact runUpTo_unique hrun' (runUpTo_zero_of_le hended (Nat.le_refl n))

/-- An instruction that jumps to itself, stopped after one step. -/
theorem runUpTo_cut_endlessJump :
    let e : Emulator :=
      { machine := { memory := (Memory.zeros 65536).put 0 (Memory.wordBytes 0x40000000) } }
    1 ≠ 0 ∧ ∃ run, e.runUpTo 0 1 = some run ∧ run.result = .ok ⟨.stepLimit, 1⟩ ∧
      (∀ m, m ≠ 0 → ∃ rest, run.emulator.runUpTo 0 m = some rest ∧
        e.runUpTo 0 (1 + m) = some (rest.after 1)) ∧
      ∃ es, run.HasTrail e es ∧ es.length ≤ 1 := by
  intro e
  have hstep : e.step = (e, none) := by
    have hfetch : e.machine.fetch = .ok 0x40000000 := by
      have hrange : (Memory.zeros 65536).InRange 0 4 := by
        rw [Memory.InRange, Memory.size_zeros]
        decide
      exact Memory.read32_put hrange 0x40000000
    -- For every machine, so that nothing here is computed on the memory of this one.
    have jump : ∀ m : Machine, Exec.instruction { opcode := .jmp, a := some (.address 0) } m =
        .ok () (m.setPc 0) := fun _ => rfl
    have back : (e.machine.setPc (e.machine.pc + 4)).setPc 0 = e.machine :=
      e.machine.setPc_back (e.machine.pc + 4) e.machine.console
    rw [step_of_fetch rfl hfetch, executeReady_of_ok rfl (jump _), back]
    rfl
  have hrun : e.runUpTo 0 1 = some { emulator := e, result := .ok ⟨.stepLimit, 1⟩ } := by
    have hend := termination?_of_step hstep
    rw [runUpTo_of_ne_zero Nat.one_ne_zero, run_of_step hend hstep, run, runFrom_zero hend]
    rfl
  obtain ⟨run, hrun', hcut, _, htrail⟩ := runUpTo_cut Nat.one_ne_zero 0 e
  obtain rfl := Option.some.inj (hrun'.symm.trans hrun)
  exact ⟨Nat.one_ne_zero, _, hrun', rfl, hcut 1 rfl, htrail⟩

end Emulator

end WordMachine
