/-
**Attempts and runs, inverted.**

An attempt has three outcomes: a stopped emulator refuses and stays as it is, a ready emulator
faults, or it executes an instruction.  A run is a chain of steps that were executed.  It ends at an
emulator that ends runs, at its limit, or at a step that is refused.  Whatever holds of a run is
read off these cases.

Main definitions:

* `Emulator.Leads` — the outcomes of an attempt;
* `Emulator.Steps` — a chain of executed steps;
* `Emulator.Goes` — the ways in which a run of at most `n` steps can go.

Main results:

* `Emulator.leads_attempt`, `Emulator.goes_run` — attempts and runs have no other outcomes;
* `Emulator.done_of_attempt` — what an attempt does that is carried out;
* `Emulator.run_preserves`, `Emulator.runUpTo_preserves` — what every step preserves, every run
  preserves;
* `Emulator.runUpTo_unique` — a run does not depend on the budget that it was given.
-/

import WordMachine.Emulator.Run
import WordMachine.Proofs.Emulator.Faults

set_option relaxedAutoImplicit false
set_option autoImplicit false

namespace WordMachine.Emulator

open Exec

variable {e e' : Emulator} {r : Refusal} {n m k steps : Nat}

/-! ### Attempts -/

/-- What an attempt can lead to. -/
inductive Leads (e : Emulator) : Emulator × Option Refusal → Prop
  /-- The emulator has stopped before. -/
  | refused {r : Refusal} (hstop : e.refusal? = some r) : Leads e (e, some r)
  /-- The instruction faults, and its wording is kept. -/
  | faulted (hready : e.status = .ready) (cause : Fault) (c : Console) :
      Leads e (⟨{ e.machine with console := c }, .faulted, cause.message⟩, some (.fault cause))
  /-- The instruction is executed.  The last fault is left alone. -/
  | done (hready : e.status = .ready) {i : Instruction} {m : Machine}
      (hexec : instruction i (e.machine.setPc (e.machine.pc + 4)) = .ok () m) :
      Leads e ({ e with machine := m, status := if m.halted then .halted else e.status }, none)

/-- A stopped emulator refuses every attempt and stays as it is. -/
theorem attempt_of_refusal (h : e.refusal? = some r) (x : Attempt) :
    e.attempt x = (e, some r) := by
  cases x with
  | step =>
      show e.step = _
      rw [step, h]
  | word w =>
      show e.executeWord w = _
      rw [executeWord, h]

theorem leads_executeReady (hready : e.status = .ready) (w : UInt32) :
    Leads e (e.executeReady w) := by
  have back : (e.machine.setPc (e.machine.pc + 4)).setPc e.machine.pc = e.machine :=
    e.machine.setPc_back (e.machine.pc + 4) e.machine.console
  cases hdecode : Instruction.decode w with
  | error cause =>
      rw [executeReady_of_undecodable hdecode, faultAt, back]
      exact .faulted hready _ e.machine.console
  | ok i =>
      cases hexec : instruction i (e.machine.setPc (e.machine.pc + 4)) with
      | ok u m =>
          rw [executeReady_of_ok hdecode hexec]
          exact .done hready hexec
      | error cause m =>
          rw [executeReady_of_error hdecode hexec, faultAt]
          -- The machine is the one before the instruction, up to white space of the input.
          rcases instruction_error hexec with ⟨rfl, _⟩ | ⟨_, _, _, rfl⟩
          · rw [back]
            exact .faulted hready cause e.machine.console
          · rw [e.machine.setPc_back]
            exact .faulted hready cause _

/-- **An attempt has no other outcomes.** -/
theorem leads_attempt (e : Emulator) (x : Attempt) : Leads e (e.attempt x) := by
  cases hstop : e.refusal? with
  | some r =>
      rw [attempt_of_refusal hstop]
      exact .refused hstop
  | none =>
      have hready := ready_of_refusal?_eq_none hstop
      cases x with
      | word w =>
          show Leads e (e.executeWord w)
          rw [executeWord_of_ready hready]
          exact leads_executeReady hready w
      | step =>
          show Leads e e.step
          cases hfetch : e.machine.fetch with
          | ok w =>
              rw [step_of_fetch hready hfetch]
              exact leads_executeReady hready w
          | error cause =>
              rw [step_of_outOfBounds hready hfetch]
              exact .faulted hready _ e.machine.console

/-- **An attempt that is carried out** is one of a ready emulator, and executes an instruction. -/
theorem done_of_attempt {x : Attempt} (h : e.attempt x = (e', none)) :
    e.status = .ready ∧ ∃ i m, instruction i (e.machine.setPc (e.machine.pc + 4)) = .ok () m ∧
      e' = { e with machine := m, status := if m.halted then .halted else e.status } := by
  have hleads : Leads e (e', none) := h ▸ leads_attempt e x
  cases hleads with
  | @done hready i m hexec => exact ⟨hready, i, m, hexec, rfl⟩

/-! ### Chains of steps -/

/-- `k` steps take one emulator to another, none of them refused. -/
inductive Steps : Nat → Emulator → Emulator → Prop
  | refl (e : Emulator) : Steps 0 e e
  | next {k : Nat} {e e₁ e₂ : Emulator} (hstep : e.step = (e₁, none)) (hrest : Steps k e₁ e₂) :
      Steps (k + 1) e e₂

/-- What every step preserves, every chain of steps preserves. -/
theorem Steps.preserves {P : Emulator → Prop} (hstep : ∀ e, P e → P e.step.1)
    (h : Steps k e e') (he : P e) : P e' := by
  induction h with
  | refl => exact he
  | next hfirst _ ih =>
      have hnext := hstep _ he
      rw [hfirst] at hnext
      exact ih hnext

/-! ### Runs -/

theorem runFrom_of_termination {t : Termination} (h : e.termination? = some t) :
    runFrom n steps e = { emulator := e, result := .ok ⟨t, steps⟩ } := by
  cases n <;> simp only [runFrom, h]

theorem runFrom_zero (h : e.termination? = none) :
    runFrom 0 steps e = { emulator := e, result := .ok ⟨.stepLimit, steps⟩ } := by
  simp only [runFrom, h]

theorem runFrom_of_step (h : e.termination? = none) (hstep : e.step = (e', none)) :
    runFrom (n + 1) steps e = runFrom n (steps + 1) e' := by
  simp only [runFrom, h, hstep]

theorem runFrom_of_refusal (h : e.termination? = none) (hstep : e.step = (e', some r)) :
    runFrom (n + 1) steps e = { emulator := e', result := .error r } := by
  simp only [runFrom, h, hstep]

/-- The ways in which a run of at most `n` steps can go, after `steps` others. -/
inductive Goes (n steps : Nat) (e : Emulator) : Run → Prop
  /-- Some steps lead to an emulator that ends the run. -/
  | ended {k : Nat} {e' : Emulator} {t : Termination} (hsteps : Steps k e e') (hle : k ≤ n)
      (hend : e'.termination? = some t) :
      Goes n steps e { emulator := e', result := .ok ⟨t, steps + k⟩ }
  /-- As many steps as allowed lead to an emulator that would go on. -/
  | limited {e' : Emulator} (hsteps : Steps n e e') (hend : e'.termination? = none) :
      Goes n steps e { emulator := e', result := .ok ⟨.stepLimit, steps + n⟩ }
  /-- Some steps lead to a step that is refused. -/
  | refused {k : Nat} {e₁ e' : Emulator} {r : Refusal} (hsteps : Steps k e e₁) (hlt : k < n)
      (hend : e₁.termination? = none) (hstep : e₁.step = (e', some r)) :
      Goes n steps e { emulator := e', result := .error r }

/-- **A run goes in no other way.** -/
theorem goes_runFrom (n steps : Nat) (e : Emulator) : Goes n steps e (runFrom n steps e) := by
  -- On the limit: after one step the rest is a run with a smaller limit that has counted one more.
  induction n generalizing steps e with
  | zero =>
      cases hend : e.termination? with
      | some t =>
          rw [runFrom_of_termination hend]
          exact .ended (.refl e) (Nat.le_refl 0) hend
      | none =>
          rw [runFrom_zero hend]
          exact .limited (.refl e) hend
  | succ n ih =>
      cases hend : e.termination? with
      | some t =>
          rw [runFrom_of_termination hend]
          exact .ended (.refl e) (Nat.zero_le _) hend
      | none =>
          rcases hstep : e.step with ⟨e₁, _ | r⟩
          · rw [runFrom_of_step hend hstep]
            have hrest := ih (steps + 1) e₁
            generalize runFrom n (steps + 1) e₁ = run at hrest
            cases hrest with
            | @ended k e' t hsteps hle hend =>
                rw [Nat.add_assoc, Nat.add_comm 1 k]
                exact .ended (.next hstep hsteps) (by omega) hend
            | limited hsteps hend =>
                rw [Nat.add_assoc, Nat.add_comm 1 n]
                exact .limited (.next hstep hsteps) hend
            | refused hsteps hlt hend hrefused =>
                exact .refused (.next hstep hsteps) (by omega) hend hrefused
          · rw [runFrom_of_refusal hend hstep]
            exact .refused (.refl e) (Nat.succ_pos n) hend hstep

theorem goes_run (n : Nat) (e : Emulator) : Goes n 0 e (e.run n) :=
  goes_runFrom n 0 e

/-- **What every step preserves, every run preserves**, also one that ends with a refusal. -/
theorem run_preserves {P : Emulator → Prop} (hstep : ∀ e, P e → P e.step.1) (he : P e) :
    P (e.run n).emulator := by
  have hgoes := goes_run n e
  generalize e.run n = run at hgoes
  cases hgoes with
  | ended hsteps _ _ => exact hsteps.preserves hstep he
  | limited hsteps _ => exact hsteps.preserves hstep he
  | refused hsteps _ _ hrefused =>
      have hlast := hstep _ (hsteps.preserves hstep he)
      rwa [hrefused] at hlast

/-! ### Runs without a limit -/

theorem ended?_eq_some {run run' : Run} (h : run.ended? = some run') : run' = run := by
  unfold Run.ended? at h
  split at h
  · exact nomatch h
  · exact (Option.some.inj h).symm

/-- A larger limit changes nothing about a run that ends by itself. -/
theorem runFrom_of_le (hended : (runFrom n steps e).ended? ≠ none) (hle : n ≤ m) :
    runFrom m steps e = runFrom n steps e := by
  -- Both runs take the same steps, and the one with the smaller limit does not get to it.
  induction n generalizing m steps e with
  | zero =>
      cases hend : e.termination? with
      | some t => rw [runFrom_of_termination hend, runFrom_of_termination hend]
      | none =>
          rw [runFrom_zero hend] at hended
          exact absurd rfl hended
  | succ n ih =>
      obtain ⟨m, rfl⟩ : ∃ m', m = m' + 1 := ⟨m - 1, by omega⟩
      cases hend : e.termination? with
      | some t => rw [runFrom_of_termination hend, runFrom_of_termination hend]
      | none =>
          rcases hstep : e.step with ⟨e₁, _ | r⟩
          · rw [runFrom_of_step hend hstep] at hended ⊢
            rw [runFrom_of_step hend hstep]
            exact ih hended (by omega)
          · rw [runFrom_of_refusal hend hstep, runFrom_of_refusal hend hstep]

/-- A run with a limit that may be absent is a run with some limit. -/
theorem runUpTo_cases {budget maxSteps : Nat} {run : Run}
    (h : e.runUpTo budget maxSteps = some run) :
    (maxSteps ≠ 0 ∧ run = e.run maxSteps) ∨
      (maxSteps = 0 ∧ run = e.run budget ∧ run.ended? ≠ none) := by
  unfold runUpTo at h
  split at h
  · rename_i hzero
    have hrun := ended?_eq_some h
    refine .inr ⟨hzero, hrun, ?_⟩
    rw [hrun]
    exact fun hnone => nomatch hnone.symm.trans h
  · rename_i hpos
    exact .inl ⟨hpos, (Option.some.inj h).symm⟩

/-- What every step preserves, every run preserves that ends. -/
theorem runUpTo_preserves {P : Emulator → Prop} (hstep : ∀ e, P e → P e.step.1) (he : P e)
    {budget maxSteps : Nat} {run : Run} (h : e.runUpTo budget maxSteps = some run) :
    P run.emulator := by
  rcases runUpTo_cases h with ⟨_, rfl⟩ | ⟨_, rfl, _⟩
  · exact run_preserves hstep he
  · exact run_preserves hstep he

/-- **A run does not depend on its budget**, as long as the budget is enough. -/
theorem runUpTo_unique {b₁ b₂ maxSteps : Nat} {run₁ run₂ : Run}
    (h₁ : e.runUpTo b₁ maxSteps = some run₁) (h₂ : e.runUpTo b₂ maxSteps = some run₂) :
    run₁ = run₂ := by
  rcases runUpTo_cases h₁ with ⟨hpos, h₁⟩ | ⟨hzero, h₁, hended₁⟩
  · rcases runUpTo_cases h₂ with ⟨_, h₂⟩ | ⟨hzero, _⟩
    · rw [h₁, h₂]
    · exact absurd hzero hpos
  · rcases runUpTo_cases h₂ with ⟨hpos, _⟩ | ⟨_, h₂, hended₂⟩
    · exact absurd hzero hpos
    · rw [h₁] at hended₁
      rw [h₂] at hended₂
      rw [h₁, h₂]
      rcases Nat.le_total b₁ b₂ with hle | hle
      · exact (runFrom_of_le hended₁ hle).symm
      · exact runFrom_of_le hended₂ hle

end WordMachine.Emulator
