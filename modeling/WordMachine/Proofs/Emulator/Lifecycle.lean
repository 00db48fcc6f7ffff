/-
**The life of an emulator.**

A host works an emulator through a few operations, in any order and any number of times; some of
them fail.  Whatever it does, the status of the emulator agrees with the mark of its machine and
with the wording of its last fault, and memory keeps its size.  None of this is built into the
emulator, which keeps the three side by side: it holds when the emulator is switched on, and every
operation preserves it.  What carries it through a fault is that every fault has a wording, and
through an instruction, that a ready emulator has no last fault.

An emulator that has halted or faulted has stopped: it refuses every attempt and nothing changes but
its console, until it is reset or a program is loaded.

Main definitions:

* `HostAction`, `Emulator.Takes` — what a host can do, and where it leads;
* `Emulator.Reachable` — an emulator after any number of operations;
* `Emulator.Coherent` — status, mark and last fault agree;
* `Emulator.Revives`, `Emulator.Idles` — operations that start afresh, and all others;
* `Emulator.Stopped` — refusing every attempt until revived.

Main results:

* `Emulator.Takes.unique` — an operation leads to one emulator at most;
* `Emulator.Takes.coherent` — every operation preserves coherence, also one that fails;
* `Emulator.stopped_of_refusal` — what has stopped stays as it is until it is revived;
* `Emulator.lifecycle_of_reachable` — **what holds of every emulator that a host can come to**.
-/

import WordMachine.Proofs.Emulator.Runs
import WordMachine.Proofs.Machine.Views
import Mathlib.Logic.Relation

set_option relaxedAutoImplicit false
set_option autoImplicit false

namespace WordMachine

/-! ### Messages -/

theorem append_ne_empty_of_left {s : String} (h : s ≠ "") (t : String) : s ++ t ≠ "" :=
  fun happend => h (String.append_eq_empty_iff.1 happend).1

theorem append_ne_empty_of_right (s : String) {t : String} (h : t ≠ "") : s ++ t ≠ "" :=
  fun happend => h (String.append_eq_empty_iff.1 happend).2

theorem DecodeError.message_ne_empty (e : DecodeError) : e.message ≠ "" := by
  unfold message
  refine append_ne_empty_of_left (append_ne_empty_of_right _ ?_) _
  decide

theorem Memory.OutOfBounds.message_ne_empty (e : OutOfBounds) : e.message ≠ "" := by
  unfold message
  refine append_ne_empty_of_right _ (append_ne_empty_of_left (append_ne_empty_of_left ?_ _) _)
  decide

/-- Every fault has something to say. -/
theorem Fault.message_ne_empty (cause : Fault) : cause.message ≠ "" := by
  cases cause with
  | undecodable cause => exact cause.message_ne_empty
  | outOfBounds cause => exact cause.message_ne_empty
  | inputTooLong pending address =>
      unfold message
      refine append_ne_empty_of_right _ (append_ne_empty_of_left ?_ _)
      decide
  | noInteger =>
      unfold message
      decide
  | wrongOperand opcode expected got =>
      unfold message
      refine append_ne_empty_of_left (append_ne_empty_of_right _ ?_) _
      decide
  | invalidFlag opcode n =>
      unfold message
      refine append_ne_empty_of_left (append_ne_empty_of_right _ ?_) _
      decide

/-! ### Operations -/

/-- What a host can do with an emulator. -/
inductive HostAction
  | load (p : Image)
  | reset
  | attempt (x : Attempt)
  /-- Runs for at most `maxSteps` instructions, where zero stands for no limit. -/
  | run (maxSteps : Nat)
  | pushInput (bytes : List UInt8)
  | takeOutput

namespace Emulator

/-- The emulator after its output was collected. -/
def takeOutput (e : Emulator) : Emulator :=
  { e with machine.console := e.machine.console.takeOutput.2 }

/-- Where an operation leads, whether it succeeds or fails.  A run without a limit leads somewhere
if it ends. -/
inductive Takes (e : Emulator) : HostAction → Emulator → Prop
  | load (p : Image) : Takes e (.load p) (e.load p).1
  | reset : Takes e .reset e.reset
  | attempt (x : Attempt) : Takes e (.attempt x) (e.attempt x).1
  | run {budget maxSteps : Nat} {r : Run} (hrun : e.runUpTo budget maxSteps = some r) :
      Takes e (.run maxSteps) r.emulator
  | pushInput (bytes : List UInt8) : Takes e (.pushInput bytes) (e.pushInput bytes)
  | takeOutput : Takes e .takeOutput e.takeOutput

/-- One operation. -/
def Follows (e e' : Emulator) : Prop := ∃ op, e.Takes op e'

/-- An emulator that is **reachable** from one that was switched on with a memory of the given
size, by any number of operations. -/
def Reachable (memory : MemorySize) (e : Emulator) : Prop :=
  Relation.ReflTransGen Follows (.ofSize memory) e

/-- A reset, or the load of a program that fits. -/
def Revives (e : Emulator) : HostAction → Prop
  | .reset => True
  | .load p => (e.load p).2 = none
  | .attempt _ | .run _ | .pushInput _ | .takeOutput => False

/-- One operation that does not revive. -/
def Idles (e e' : Emulator) : Prop := ∃ op, ¬ e.Revives op ∧ e.Takes op e'

/-- An emulator has **stopped** when it refuses every attempt for the given reason and stays as it
is, and when no operations, short of one that revives it, change that or anything but the
console. -/
def Stopped (e : Emulator) (r : Refusal) : Prop :=
  ∀ e', Relation.ReflTransGen Idles e e' →
    e' = { e with machine.console := e'.machine.console } ∧ ∀ x, e'.attempt x = (e', some r)

variable {memory : MemorySize} {e e' e₁ e₂ : Emulator} {op : HostAction} {p : Image} {r : Refusal}

/-- **An operation leads to one emulator at most.** -/
theorem Takes.unique (h₁ : e.Takes op e₁) (h₂ : e.Takes op e₂) : e₁ = e₂ := by
  cases h₁ with
  | load p => cases h₂; rfl
  | reset => cases h₂; rfl
  | attempt x => cases h₂; rfl
  | run hrun₁ =>
      cases h₂ with
      | run hrun₂ => rw [runUpTo_unique hrun₁ hrun₂]
  | pushInput bytes => cases h₂; rfl
  | takeOutput => cases h₂; rfl

theorem load_of_fits (h : e.fits p = true) :
    e.load p = ({ e.reset with machine := boot e.machine p }, none) :=
  if_pos h

theorem load_of_not_fits (h : e.fits p ≠ true) :
    e.load p =
      (e, some ⟨e.machine.memory.size, p.textEnd, p.dataEnd, p.stackStart.toNat⟩) :=
  if_neg h

theorem size_boot (m : Machine) (p : Image) : (boot m p).memory.size = m.memory.size := by
  rw [boot, Memory.size_put, Memory.size_put, Memory.size_clear]

/-- A load that fails changes nothing. -/
theorem load_of_error {cause : LoadError} (h : (e.load p).2 = some cause) : (e.load p).1 = e := by
  by_cases hfits : e.fits p = true
  · rw [load_of_fits hfits] at h
    exact nomatch h
  · rw [load_of_not_fits hfits]

/-! ### Coherence -/

/-- An emulator is **coherent** when its status agrees with the mark of its machine and with the
wording of its last fault, and its memory has the size that it was made with. -/
structure Coherent (memory : MemorySize) (e : Emulator) : Prop where
  halted_iff : e.status = .halted ↔ e.machine.halted = true
  faulted_iff : e.status = .faulted ↔ e.lastFault ≠ ""
  size_eq : e.machine.memory.size = memory.bytes

/-- An emulator that is ready, not marked and without a last fault is coherent. -/
theorem coherent_of_ready (hready : e.status = .ready) (hmark : e.machine.halted = false)
    (hfault : e.lastFault = "") (hsize : e.machine.memory.size = memory.bytes) :
    Coherent memory e where
  halted_iff := by simp [hready, hmark]
  faulted_iff := by simp [hready, hfault]
  size_eq := hsize

theorem coherent_ofSize (memory : MemorySize) : Coherent memory (.ofSize memory) :=
  coherent_of_ready rfl rfl rfl (Memory.size_zeros memory.bytes)

theorem Coherent.reset (h : Coherent memory e) : Coherent memory e.reset :=
  coherent_of_ready rfl rfl rfl ((Memory.size_clear e.machine.memory).trans h.size_eq)

theorem Coherent.load (h : Coherent memory e) (p : Image) : Coherent memory (e.load p).1 := by
  by_cases hfits : e.fits p = true
  · rw [load_of_fits hfits]
    exact coherent_of_ready rfl rfl rfl ((size_boot e.machine p).trans h.size_eq)
  · rw [load_of_not_fits hfits]
    exact h

/-- A ready emulator that is coherent is not marked. -/
theorem Coherent.unmarked (h : Coherent memory e) (hready : e.status = .ready) :
    e.machine.halted = false := by
  cases hmark : e.machine.halted with
  | false => rfl
  | true => exact nomatch hready.symm.trans (h.halted_iff.2 hmark)

/-- A ready emulator that is coherent has no last fault. -/
theorem Coherent.lastFault_eq (h : Coherent memory e) (hready : e.status = .ready) :
    e.lastFault = "" :=
  Classical.byContradiction fun hfault => nomatch hready.symm.trans (h.faulted_iff.2 hfault)

/-- **A fault is remembered with its wording**, and leaves the mark of the machine alone. -/
theorem Coherent.fault (h : Coherent memory e) (hready : e.status = .ready) (cause : Fault)
    (c : Console) :
    Coherent memory ⟨{ e.machine with console := c }, .faulted, cause.message⟩ where
  halted_iff := by simp [h.unmarked hready]
  faulted_iff := by simp [cause.message_ne_empty]
  size_eq := h.size_eq

/-- **An executed instruction can halt the emulator, and does nothing to its last fault**, of which
there is none. -/
theorem Coherent.done (h : Coherent memory e) (hready : e.status = .ready) {m : Machine}
    (hsize : m.memory.size = e.machine.memory.size) :
    Coherent memory
      { e with machine := m, status := if m.halted then .halted else e.status } where
  halted_iff := by cases hmark : m.halted <;> simp [hready]
  faulted_iff := by cases hmark : m.halted <;> simp [hready, h.lastFault_eq hready]
  size_eq := hsize.trans h.size_eq

/-- Neither an executed instruction nor a fault puts status, mark and last fault at odds. -/
theorem Coherent.attempt (h : Coherent memory e) (x : Attempt) :
    Coherent memory (e.attempt x).1 := by
  have hleads := leads_attempt e x
  generalize e.attempt x = result at hleads
  cases hleads with
  | refused hstop => exact h
  | faulted hready cause c => exact h.fault hready cause c
  | @done hready i m hexec =>
      have hsize := Exec.keepsSize_instruction i (e.machine.setPc (e.machine.pc + 4))
      rw [Exec.after_of_ok hexec] at hsize
      exact h.done hready hsize

/-- **Every operation preserves coherence**, also one that fails. -/
theorem Takes.coherent (hop : e.Takes op e') (h : Coherent memory e) : Coherent memory e' := by
  cases hop with
  | load p => exact h.load p
  | reset => exact h.reset
  | attempt x => exact h.attempt x
  | run hrun =>
      have hstep : ∀ e, Coherent memory e → Coherent memory e.step.1 := by
        intro e he
        exact he.attempt .step
      exact runUpTo_preserves hstep h hrun
  | pushInput bytes => exact ⟨h.halted_iff, h.faulted_iff, h.size_eq⟩
  | takeOutput => exact ⟨h.halted_iff, h.faulted_iff, h.size_eq⟩

/-- Every reachable emulator is coherent. -/
theorem coherent_of_reachable (h : Reachable memory e) : Coherent memory e := by
  induction h with
  | refl => exact coherent_ofSize memory
  | tail _ hop ih =>
      obtain ⟨op, hop⟩ := hop
      exact hop.coherent ih

/-! ### Stopping -/

/-- An idle operation of a stopped emulator changes its console at most. -/
theorem Idles.eq_of_refusal (h : Idles e e') (hstop : e.refusal? = some r) :
    e' = { e with machine.console := e'.machine.console } := by
  obtain ⟨op, hidle, hop⟩ := h
  cases hop with
  | load p =>
      cases hload : (e.load p).2 with
      | none => exact absurd hload hidle
      | some cause => rw [load_of_error hload]
  | reset => exact absurd trivial hidle
  | attempt x => rw [attempt_of_refusal hstop]
  | @run budget maxSteps run hrun =>
      have hstep : ∀ e₁, e₁ = e → e₁.step.1 = e := by
        rintro e₁ rfl
        exact congrArg Prod.fst (attempt_of_refusal hstop .step)
      have hsame : run.emulator = e := runUpTo_preserves (P := (· = e)) hstep rfl hrun
      rw [hsame]
  | pushInput bytes => rfl
  | takeOutput => rfl

/-- **What has stopped stays as it is until it is revived.** -/
theorem stopped_of_refusal (hstop : e.refusal? = some r) : e.Stopped r := by
  intro e' h
  -- On the operations: each of them finds the emulator still refusing.
  have hsame : e' = { e with machine.console := e'.machine.console } := by
    induction h with
    | refl => rfl
    | @tail e₁ e₂ _ hidle ih =>
        have hstop₁ : e₁.refusal? = some r := by rw [ih]; exact hstop
        rw [hidle.eq_of_refusal hstop₁, ih]
  have hstop' : e'.refusal? = some r := by rw [hsame]; exact hstop
  exact ⟨hsame, attempt_of_refusal hstop'⟩

/-- An operation that revives leaves the emulator ready. -/
theorem Takes.ready_of_revives (hop : e.Takes op e') (h : e.Revives op) : e'.status = .ready := by
  cases hop with
  | load p =>
      by_cases hfits : e.fits p = true
      · rw [load_of_fits hfits]
        rfl
      · have hload : (e.load p).2 = none := h
        rw [load_of_not_fits hfits] at hload
        exact nomatch hload
  | reset => rfl
  | attempt x => exact False.elim h
  | run hrun => exact False.elim h
  | pushInput bytes => exact False.elim h
  | takeOutput => exact False.elim h

/-- **What holds of every emulator that a host can come to**, by whatever operations, failing ones
included.  Its status, the mark of its machine and the message of its last fault agree; memory has
the size that it was made with; once halted or faulted it has stopped, until an operation revives
it; and a program that does not fit changes nothing. -/
theorem lifecycle_of_reachable (h : Reachable memory e) :
    (e.status = .halted ↔ e.machine.halted = true) ∧
      (e.status = .faulted ↔ e.lastFault ≠ "") ∧
      e.machine.memory.size = memory.bytes ∧
      (e.status = .halted → e.Stopped .halted) ∧
      (e.status = .faulted → e.Stopped (.faulted e.lastFault)) ∧
      (∀ op e', e.Takes op e' → e.Revives op → e'.status = .ready) ∧
      ∀ p cause, (e.load p).2 = some cause → (e.load p).1 = e := by
  have hcoherent := coherent_of_reachable h
  refine ⟨hcoherent.halted_iff, hcoherent.faulted_iff, hcoherent.size_eq, ?_, ?_, ?_, ?_⟩
  · intro hhalted
    exact stopped_of_refusal (refusal?_of_halted hhalted)
  · intro hfaulted
    exact stopped_of_refusal (refusal?_of_faulted hfaulted)
  · intro op e' hop hrevives
    exact hop.ready_of_revives hrevives
  · intro p cause hload
    exact load_of_error hload

theorem status_halt (hready : e.status = .ready) :
    (e.attempt (.word 0xFF000000)).1.status = .halted := by
  have halt : ∀ m : Machine,
      Exec.instruction { opcode := .halt } m = .ok () { m with halted := true } := fun _ => rfl
  rw [attempt, executeWord_of_ready hready, executeReady_of_ok rfl (halt _)]
  rfl

/-- An emulator that has faulted, was reset and has halted: twice it has stopped. -/
theorem lifecycle_haltedAfterReset :
    let e₁ := ((Emulator.ofSize .standard).attempt (.word 0x77000000)).1
    let e₂ := (e₁.reset.attempt (.word 0xFF000000)).1
    let wording := "general fault: unknown opcode 0x77 in word 0x77000000"
    Reachable .standard e₁ ∧ e₁.Stopped (.faulted wording) ∧
      Reachable .standard e₂ ∧ e₂.Stopped .halted := by
  intro e₁ e₂ wording
  have hreach₁ : Reachable .standard e₁ := .tail .refl ⟨_, .attempt _⟩
  have hreach₂ : Reachable .standard e₂ := .tail (.tail hreach₁ ⟨_, .reset⟩) ⟨_, .attempt _⟩
  have hfaulted : e₁.status = .faulted := rfl
  have hwording : e₁.lastFault = wording := by decide
  have hhalted : e₂.status = .halted := status_halt rfl
  obtain ⟨_, _, _, _, hstopped₁, _⟩ := lifecycle_of_reachable hreach₁
  obtain ⟨_, _, _, hstopped₂, _⟩ := lifecycle_of_reachable hreach₂
  exact ⟨hreach₁, hwording ▸ hstopped₁ hfaulted, hreach₂, hstopped₂ hhalted⟩

end Emulator

end WordMachine
