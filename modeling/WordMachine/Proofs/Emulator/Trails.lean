/-
**The trail of a run.**

A run tries one step after another.  Its trail is the list of the emulators just before these steps,
also before a last one that is refused.  Each emulator of the trail is the one that as many steps
lead to as stand before it, so that the trail of a run is determined by the emulator before the run
and the number of steps.  A trace goes like the run without notes, and notes the trail.

Main definitions:

* `Run.after` — a run that others came before;
* `Emulator.trail` — the emulators just before the steps of a run;
* `Run.HasTrail` — what makes a list of emulators the trail of a run.

Main results:

* `Emulator.runFrom_add` — a run counts on from where it starts to count;
* `Emulator.hasTrail_run`, `Emulator.length_trail_le` — a run has a trail, which is not longer than
  its limit;
* `Emulator.trace_eq`, `Emulator.traceUpTo_of_runUpTo` — **a trace is the run, with a note on each
  emulator of the trail**.
-/

import WordMachine.Proofs.Emulator.Runs

set_option relaxedAutoImplicit false
set_option autoImplicit false

namespace WordMachine

/-! ### Counting on -/

/-- The same run, when `k` instructions were executed before it and count too. -/
def Run.after (k : Nat) (run : Run) : Run :=
  { run with result := run.result.map fun r => { r with steps := k + r.steps } }

namespace Emulator

variable {e e' : Emulator} {r : Refusal} {n k steps : Nat}

/-- **A run counts on** from where it starts to count. -/
theorem runFrom_add (n k steps : Nat) (e : Emulator) :
    runFrom n (k + steps) e = (runFrom n steps e).after k := by
  induction n generalizing steps e with
  | zero =>
      cases hend : e.termination? with
      | some t => rw [runFrom_of_termination hend, runFrom_of_termination hend]; rfl
      | none => rw [runFrom_zero hend, runFrom_zero hend]; rfl
  | succ n ih =>
      cases hend : e.termination? with
      | some t => rw [runFrom_of_termination hend, runFrom_of_termination hend]; rfl
      | none =>
          rcases hstep : e.step with ⟨e₁, _ | r⟩
          · rw [runFrom_of_step hend hstep, runFrom_of_step hend hstep, Nat.add_assoc]
            exact ih (steps + 1) e₁
          · rw [runFrom_of_refusal hend hstep, runFrom_of_refusal hend hstep]; rfl

/-- A run that can take a step is that step and the run after it. -/
theorem run_of_step (hend : e.termination? = none) (hstep : e.step = (e', none)) :
    e.run (n + 1) = (e'.run n).after 1 := by
  rw [run, runFrom_of_step hend hstep]
  exact runFrom_add n 1 0 e'

/-! ### Trails -/

/-- The emulators just before the steps that a run of at most `n` steps tries. -/
def trail : Nat → Emulator → List Emulator
  | 0, _ => []
  | n + 1, e =>
    match e.termination? with
    | some _ => []
    | none =>
      match e.step with
      | (e', none) => e :: trail n e'
      | (_, some _) => [e]

theorem trail_of_termination {t : Termination} (h : e.termination? = some t) : e.trail n = [] := by
  cases n with
  | zero => rfl
  | succ n => simp only [trail, h]

theorem trail_of_step (hend : e.termination? = none) (hstep : e.step = (e', none)) :
    e.trail (n + 1) = e :: e'.trail n := by
  simp only [trail, hend, hstep]

theorem trail_of_refusal (hend : e.termination? = none) (hstep : e.step = (e', some r)) :
    e.trail (n + 1) = [e] := by
  simp only [trail, hend, hstep]

/-- No run tries more steps than it is allowed. -/
theorem length_trail_le (n : Nat) (e : Emulator) : (e.trail n).length ≤ n := by
  induction n generalizing e with
  | zero => exact Nat.le_refl 0
  | succ n ih =>
      cases hend : e.termination? with
      | some t => simp [trail_of_termination hend]
      | none =>
          rcases hstep : e.step with ⟨e', _ | r⟩
          · rw [trail_of_step hend hstep, List.length_cons]
            exact Nat.succ_le_succ (ih e')
          · simp [trail_of_refusal hend hstep]

end Emulator

/-- The emulators `es` are **the trail** of a run of `e`: those just before each step that it tried,
in order. -/
structure Run.HasTrail (run : Run) (e : Emulator) (es : List Emulator) : Prop where
  /-- As many steps lead to an emulator of the trail as stand before it. -/
  steps : ∀ i e', es[i]? = some e' → Emulator.Steps i e e'
  /-- A run that ends well has executed and counted each of its steps. -/
  counted : ∀ r, run.result = .ok r →
    r.steps = es.length ∧ Emulator.Steps es.length e run.emulator
  /-- A run that is refused ends with the step that is. -/
  refused : ∀ r, run.result = .error r →
    ∃ e', es.getLast? = some e' ∧ e'.step = (run.emulator, some r)

namespace Run

variable {e e₁ : Emulator} {run : Run} {es : List Emulator}

/-- A run that tries no step. -/
theorem hasTrail_nil (t : Termination) :
    HasTrail { emulator := e, result := .ok ⟨t, 0⟩ } e [] where
  steps := by simp
  counted := by
    intro r hr
    obtain rfl := Except.ok.inj hr
    exact ⟨rfl, .refl e⟩
  refused := by simp

/-- A run whose first step is refused. -/
theorem hasTrail_singleton {r : Refusal} (hstep : e.step = (e₁, some r)) :
    HasTrail { emulator := e₁, result := .error r } e [e] where
  steps := by
    intro i e' he'
    cases i with
    | zero =>
        obtain rfl := Option.some.inj he'
        exact .refl e
    | succ i => exact nomatch he'
  counted := by simp
  refused := by
    intro r' hr
    obtain rfl := Except.error.inj hr
    exact ⟨e, rfl, hstep⟩

/-- A step in front of a run stands in front of its trail. -/
theorem HasTrail.cons (hstep : e.step = (e₁, none)) (h : run.HasTrail e₁ es) :
    (run.after 1).HasTrail e (e :: es) where
  steps := by
    intro i e' he'
    cases i with
    | zero =>
        obtain rfl := Option.some.inj he'
        exact .refl e
    | succ i => exact .next hstep (h.steps i e' he')
  counted := by
    intro r hr
    obtain ⟨notes, emulator, result⟩ := run
    cases result with
    | error r' => exact nomatch hr
    | ok r' =>
        obtain rfl := Except.ok.inj hr
        obtain ⟨hcount, hsteps⟩ := h.counted r' rfl
        refine ⟨?_, .next hstep hsteps⟩
        rw [List.length_cons, ← hcount]
        exact Nat.add_comm 1 r'.steps
  refused := by
    intro r hr
    obtain ⟨notes, emulator, result⟩ := run
    cases result with
    | ok r' => exact nomatch hr
    | error r' =>
        obtain rfl := Except.error.inj hr
        obtain ⟨e', hlast, hrefused⟩ := h.refused r' rfl
        refine ⟨e', ?_, hrefused⟩
        rw [List.getLast?_cons, hlast]
        rfl

end Run

namespace Emulator

/-- **A run has a trail.** -/
theorem hasTrail_run (n : Nat) (e : Emulator) : (e.run n).HasTrail e (e.trail n) := by
  induction n generalizing e with
  | zero =>
      cases hend : e.termination? with
      | some t =>
          rw [run, runFrom_of_termination hend]
          exact Run.hasTrail_nil t
      | none =>
          rw [run, runFrom_zero hend]
          exact Run.hasTrail_nil .stepLimit
  | succ n ih =>
      cases hend : e.termination? with
      | some t =>
          rw [run, runFrom_of_termination hend, trail_of_termination hend]
          exact Run.hasTrail_nil t
      | none =>
          rcases hstep : e.step with ⟨e', _ | r⟩
          · rw [run_of_step hend hstep, trail_of_step hend hstep]
            exact (ih e').cons hstep
          · rw [run, runFrom_of_refusal hend hstep, trail_of_refusal hend hstep]
            exact Run.hasTrail_singleton hstep

/-! ### Traces -/

theorem traceFrom_eq (n steps : Nat) (notes : Array Text) (e : Emulator) :
    traceFrom n steps notes e =
      { runFrom n steps e with notes := notes ++ (e.trail n).map note } := by
  -- The two loops look for the same ends in the same order; only one of them keeps the notes.
  induction n generalizing steps notes e with
  | zero => cases hend : e.termination? <;> simp [traceFrom, runFrom, trail, hend]
  | succ n ih =>
      cases hend : e.termination? with
      | some t => simp [traceFrom, runFrom, trail, hend]
      | none =>
          rcases hstep : e.step with ⟨e', _ | r⟩
          · simp [traceFrom, runFrom, trail, hend, hstep, ih]
          · simp [traceFrom, runFrom, trail, hend, hstep]

/-- **A trace is the run**, with a note on each emulator of the trail. -/
theorem trace_eq (n : Nat) (e : Emulator) :
    e.trace n = { e.run n with notes := ((e.trail n).map note).toArray } := by
  rw [trace, traceFrom_eq]
  simp [run]

/-- A run takes no notes. -/
theorem notes_run (n : Nat) (e : Emulator) : (e.run n).notes = #[] := by
  have hgoes := goes_run n e
  generalize e.run n = run at hgoes
  cases hgoes with
  | ended => rfl
  | limited => rfl
  | refused => rfl

/-- A run that ends, with a limit or without one, has taken no notes, and its trace is the same run
with a note on each emulator of its trail. -/
theorem traceUpTo_of_runUpTo {e : Emulator} {budget maxSteps : Nat} {run : Run}
    (h : e.runUpTo budget maxSteps = some run) :
    run.notes = #[] ∧ ∃ es, run.HasTrail e es ∧
      e.traceUpTo budget maxSteps = some { run with notes := (es.map note).toArray } := by
  rcases runUpTo_cases h with ⟨hpos, rfl⟩ | ⟨hzero, rfl, hended⟩
  · refine ⟨notes_run maxSteps e, _, hasTrail_run maxSteps e, ?_⟩
    rw [traceUpTo, if_neg hpos, trace_eq]
  · refine ⟨notes_run budget e, _, hasTrail_run budget e, ?_⟩
    rw [traceUpTo, if_pos hzero, traceFreely, trace_eq]
    -- Whether a run ended by itself does not depend on its notes.
    unfold Run.ended? at hended ⊢
    split at hended
    · exact absurd rfl hended
    · rfl

end Emulator

end WordMachine
