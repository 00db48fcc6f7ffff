/-
**Runs with more memory.**

Two emulators that show the same, only that the second one has more memory, go on alike as long as
the first one is not refused: every attempt that it carries out is carried out by the second one,
too, and they show the same again.  The bytes that only the second one has are not touched.  So a
run of the first one that halts, or is stopped by its limit, is a run of the second one of as many
steps and with the same end.

A run that leaves memory or faults may go on where there is more memory.

Main definitions:

* `Memory.SameFrom` — memory that is the same from an address on;
* `Emulator.EnlargedTo` — two emulators that show the same, the second one with more memory.

Main results:

* `Emulator.EnlargedTo.attempt` — what an attempt does to such a pair;
* `Emulator.EnlargedTo.steps` — what a chain of steps does to it;
* `Emulator.EnlargedTo.alike` — **more memory never changes a run that works**.
-/

import WordMachine.Proofs.Emulator.Cuts
import WordMachine.Proofs.Machine.Enlargement

set_option relaxedAutoImplicit false
set_option autoImplicit false

namespace WordMachine

/-! ### The further bytes -/

namespace Memory

/-- Memory of the same size, with the same bytes from an address on. -/
structure SameFrom (n : Nat) (m m' : Memory) : Prop where
  size : m'.size = m.size
  bytes : ∀ a, n ≤ a → m'.byte a = m.byte a

theorem SameFrom.refl (n : Nat) (m : Memory) : SameFrom n m m :=
  ⟨rfl, fun _ _ => rfl⟩

theorem SameFrom.trans {n : Nat} {m₁ m₂ m₃ : Memory} (h : SameFrom n m₁ m₂)
    (h' : SameFrom n m₂ m₃) : SameFrom n m₁ m₃ :=
  ⟨h'.size.trans h.size, fun a ha => (h'.bytes a ha).trans (h.bytes a ha)⟩

theorem byte_enlarge_of_le {m : Memory} {a : Nat} (h : m.size ≤ a) (tail : Array UInt8) :
    (m.enlarge tail).byte a = tail[a - m.size]?.getD 0 := by
  rw [byte, enlarge, Array.getElem?_append_right h, size]

/-- Memories of one size have the same bytes after it when they are enlarged by the same. -/
theorem sameFrom_enlarge {m m' : Memory} (hsize : m'.size = m.size) (tail : Array UInt8) :
    SameFrom m.size (m.enlarge tail) (m'.enlarge tail) := by
  refine ⟨by rw [size_enlarge, size_enlarge, hsize], ?_⟩
  intro a ha
  rw [byte_enlarge_of_le ha, byte_enlarge_of_le (hsize.trans_le ha), hsize]

/-- Memory that begins with the bytes of a smaller one is that one, enlarged. -/
theorem exists_eq_enlarge {m m' : Memory} (hsize : m.size ≤ m'.size)
    (hbytes : ∀ a < m.size, m'.byte a = m.byte a) : ∃ tail, m' = m.enlarge tail := by
  refine ⟨m'.bytes.extract m.size m'.size, ?_⟩
  have heq : m'.bytes = m.bytes ++ m'.bytes.extract m.size m'.size := by
    unfold size at hsize hbytes ⊢
    refine Array.ext (by simp; omega) ?_
    intro a h₁ h₂
    by_cases ha : a < m.bytes.size
    · have hbyte := hbytes a ha
      rw [byte, byte, Array.getElem?_eq_getElem h₁, Array.getElem?_eq_getElem ha] at hbyte
      rw [Array.getElem_append_left ha]
      exact hbyte
    · rw [Array.getElem_append_right (Nat.le_of_not_lt ha), Array.getElem_extract]
      congr 1
      omega
  rw [enlarge, ← heq]

end Memory

/-! ### Emulators with more memory -/

namespace Emulator

open Exec

/-- Two emulators **show the same, the second one with more memory**: the registers, the status, the
last fault, the mark of having halted and the console are the same, and so are the bytes that both
have. -/
structure EnlargedTo (small large : Emulator) : Prop where
  registers : large.machine.registers = small.machine.registers
  status : large.status = small.status
  lastFault : large.lastFault = small.lastFault
  halted : large.machine.halted = small.machine.halted
  input : large.machine.console.input = small.machine.console.input
  output : large.machine.console.output = small.machine.console.output
  size : small.machine.memory.size ≤ large.machine.memory.size
  bytes : ∀ a < small.machine.memory.size,
    large.machine.memory.byte a = small.machine.memory.byte a

/-- The emulator with further bytes at the end of memory. -/
def enlarge (e : Emulator) (tail : Array UInt8) : Emulator :=
  { e with machine := e.machine.enlarge tail }

variable {e e' small large small' : Emulator} {tail : Array UInt8} {n k : Nat}

theorem enlargedTo_enlarge (e : Emulator) (tail : Array UInt8) : e.EnlargedTo (e.enlarge tail) where
  registers := rfl
  status := rfl
  lastFault := rfl
  halted := rfl
  input := rfl
  output := rfl
  size := by
    show _ ≤ (e.machine.memory.enlarge tail).size
    rw [Memory.size_enlarge]
    exact Nat.le_add_right _ _
  bytes _ ha := Memory.byte_enlarge ha tail

/-- **The larger emulator of a pair is the smaller one, enlarged.** -/
theorem EnlargedTo.eq_enlarge (h : small.EnlargedTo large) :
    ∃ tail, large = small.enlarge tail := by
  obtain ⟨tail, hmemory⟩ := Memory.exists_eq_enlarge h.size h.bytes
  refine ⟨tail, ?_⟩
  obtain ⟨hregisters, hstatus, hlastFault, hhalted, hinput, houtput, -, -⟩ := h
  obtain ⟨⟨registers, memory, ⟨input, output⟩, halted⟩, status, lastFault⟩ := large
  simp only at hmemory hstatus hlastFault hregisters hhalted hinput houtput
  rw [hmemory, hstatus, hlastFault, hregisters, hhalted, hinput, houtput]
  rfl

/-! ### Attempts -/

theorem executeReady_enlarge {w : UInt32} (h : e.executeReady w = (e', none)) :
    (e.enlarge tail).executeReady w = (e'.enlarge tail, none) := by
  cases hdecode : Instruction.decode w with
  | error cause =>
      rw [executeReady_of_undecodable hdecode] at h
      exact nomatch h
  | ok i =>
      cases hexec : instruction i (e.machine.setPc (e.machine.pc + 4)) with
      | ok u m =>
          rw [executeReady_of_ok hdecode hexec] at h
          obtain ⟨rfl, -⟩ := Prod.mk.inj h
          exact executeReady_of_ok hdecode (enlarges_instruction i _ _ _ hexec tail)
      | error cause m =>
          rw [executeReady_of_error hdecode hexec] at h
          exact nomatch h

/-- An attempt that is carried out is carried out with more memory. -/
theorem attempt_enlarge {x : Attempt} (h : e.attempt x = (e', none)) (tail : Array UInt8) :
    (e.enlarge tail).attempt x = (e'.enlarge tail, none) := by
  have hready := (done_of_attempt h).1
  have hlarge : (e.enlarge tail).status = .ready := hready
  cases x with
  | word w =>
      have hw : e.executeReady w = (e', none) :=
        (executeWord_of_ready hready w).symm.trans h
      exact (executeWord_of_ready hlarge w).trans (executeReady_enlarge hw)
  | step =>
      cases hfetch : e.machine.fetch with
      | ok w =>
          have hw : e.executeReady w = (e', none) :=
            (step_of_fetch hready hfetch).symm.trans h
          have hfetch' : (e.enlarge tail).machine.fetch = .ok w :=
            Memory.read32_enlarge hfetch tail
          exact (step_of_fetch hlarge hfetch').trans (executeReady_enlarge hw)
      | error cause => exact nomatch (step_of_outOfBounds hready hfetch).symm.trans h

theorem size_of_attempt {x : Attempt} (h : e.attempt x = (e', none)) :
    e'.machine.memory.size = e.machine.memory.size := by
  obtain ⟨-, i, m, hexec, rfl⟩ := done_of_attempt h
  have hkeeps := keepsSize_instruction i (e.machine.setPc (e.machine.pc + 4))
  rw [after_of_ok hexec] at hkeeps
  exact hkeeps

/-- **What an attempt does to a pair.**  If it is carried out on the smaller emulator, it is carried
out on the larger one, they show the same again, and the further bytes stay as they were. -/
theorem EnlargedTo.attempt (h : small.EnlargedTo large) {x : Attempt}
    (hx : small.attempt x = (small', none)) :
    ∃ large', large.attempt x = (large', none) ∧ small'.EnlargedTo large' ∧
      large.machine.memory.SameFrom small.machine.memory.size large'.machine.memory := by
  obtain ⟨tail, rfl⟩ := h.eq_enlarge
  exact ⟨small'.enlarge tail, attempt_enlarge hx tail, enlargedTo_enlarge small' tail,
    Memory.sameFrom_enlarge (size_of_attempt hx) tail⟩

/-! ### Runs -/

/-- **What a chain of steps does to a pair.** -/
theorem EnlargedTo.steps (h : small.EnlargedTo large) (hsteps : Steps k small small') :
    ∃ large', Steps k large large' ∧ small'.EnlargedTo large' ∧
      large.machine.memory.SameFrom small.machine.memory.size large'.machine.memory := by
  induction hsteps generalizing large with
  | refl e => exact ⟨large, .refl large, h, .refl _ _⟩
  | @next k e e₁ e₂ hstep _ ih =>
      obtain ⟨large₁, hstep', h₁, hsame₁⟩ := h.attempt (x := .step) hstep
      obtain ⟨large', hrest, h', hsame'⟩ := ih h₁
      rw [size_of_attempt (x := .step) hstep] at hsame'
      exact ⟨large', .next hstep' hrest, h', hsame₁.trans hsame'⟩

theorem EnlargedTo.termination?_of_halted (h : small.EnlargedTo large)
    (hend : small.termination? = some .halted) : large.termination? = some .halted := by
  rcases termination?_eq_some hend with ⟨-, hhalted⟩ | ⟨hoff, -⟩
  · exact if_pos (h.status.trans hhalted)
  · exact nomatch hoff

/-- Where there is more memory, the program counter is inside it all the more. -/
theorem EnlargedTo.termination?_of_none (h : small.EnlargedTo large)
    (hend : small.termination? = none) : large.termination? = none := by
  have hhalted : large.status ≠ .halted := h.status ▸ not_halted_of_termination? hend
  have hoff : ¬ large.machine.ranOff = true := by
    intro hlarge
    have hle : small.machine.memory.size ≤ small.machine.pc.toNat := by
      have hpc : large.machine.pc = small.machine.pc := by rw [Machine.pc, h.registers, Machine.pc]
      rw [← hpc]
      exact h.size.trans (ranOff_iff.1 hlarge)
    rw [termination?, if_neg (not_halted_of_termination? hend), if_pos (ranOff_iff.2 hle)] at hend
    cases hend
  rw [termination?, if_neg hhalted, if_neg hoff]

/-- A run begins with the steps that it executes, and ends where they lead if they lead to an
emulator that ends runs. -/
theorem Steps.run_of_termination {t : Termination} (h : Steps k e e') (hle : k ≤ n)
    (hend : e'.termination? = some t) : e.run n = { emulator := e', result := .ok ⟨t, k⟩ } := by
  obtain ⟨j, rfl⟩ := Nat.exists_eq_add_of_le hle
  rw [h.run_add, Emulator.run, runFrom_of_termination hend]
  rfl

/-- A run ends at its limit if the steps up to there lead to an emulator that would go on. -/
theorem Steps.run_of_none (h : Steps n e e') (hend : e'.termination? = none) :
    e.run n = { emulator := e', result := .ok ⟨.stepLimit, n⟩ } := by
  have hrun : e'.run 0 = { emulator := e', result := .ok ⟨.stepLimit, 0⟩ } := runFrom_zero hend
  have hadd := h.run_add 0
  rw [hrun] at hadd
  exact hadd

/-- **What a run does to a pair**, if it does not leave memory and is not refused. -/
theorem EnlargedTo.run {t : Termination} (h : small.EnlargedTo large)
    (hresult : (small.run n).result = .ok ⟨t, k⟩) (ht : t ≠ .ranOff) :
    (large.run n).result = .ok ⟨t, k⟩ ∧
      (small.run n).emulator.EnlargedTo (large.run n).emulator ∧
      large.machine.memory.SameFrom small.machine.memory.size
        (large.run n).emulator.machine.memory := by
  have hgoes := goes_run n small
  generalize small.run n = run at hgoes hresult ⊢
  cases hgoes with
  | @ended k' small' t' hsteps hle hend =>
      obtain ⟨rfl, rfl⟩ := RunResult.mk.inj (Except.ok.inj hresult)
      obtain rfl : t' = .halted :=
        (termination?_eq_some hend).elim And.left fun hoff => absurd hoff.1 ht
      obtain ⟨large', hsteps', h', hsame⟩ := h.steps hsteps
      rw [hsteps'.run_of_termination hle (h'.termination?_of_halted hend), Nat.zero_add]
      exact ⟨rfl, h', hsame⟩
  | limited hsteps hend =>
      obtain ⟨rfl, rfl⟩ := RunResult.mk.inj (Except.ok.inj hresult)
      obtain ⟨large', hsteps', h', hsame⟩ := h.steps hsteps
      rw [hsteps'.run_of_none (h'.termination?_of_none hend), Nat.zero_add]
      exact ⟨rfl, h', hsame⟩
  | refused => exact nomatch hresult

/-- **More memory never changes a run that works.**  Every attempt that the smaller of two emulators
carries out, the larger one carries out, too; they show the same again, and the bytes that only the
larger one has stay as they were.  Every run of the smaller one that halts or is stopped by its
limit is one of the larger one, with the same end after as many steps. -/
theorem EnlargedTo.alike (h : small.EnlargedTo large) :
    (∀ x small', small.attempt x = (small', none) →
      ∃ large', large.attempt x = (large', none) ∧ small'.EnlargedTo large' ∧
        large.machine.memory.SameFrom small.machine.memory.size large'.machine.memory) ∧
      ∀ budget maxSteps run t k, small.runUpTo budget maxSteps = some run →
        run.result = .ok ⟨t, k⟩ → t ≠ .ranOff →
          ∃ run', large.runUpTo budget maxSteps = some run' ∧ run'.result = .ok ⟨t, k⟩ ∧
            run.emulator.EnlargedTo run'.emulator ∧
            large.machine.memory.SameFrom small.machine.memory.size
              run'.emulator.machine.memory := by
  refine ⟨fun x small' hx => h.attempt hx, ?_⟩
  intro budget maxSteps run t k hrun hresult ht
  rcases runUpTo_cases hrun with ⟨hpos, rfl⟩ | ⟨rfl, rfl, hended⟩
  · exact ⟨large.run maxSteps, runUpTo_of_ne_zero hpos budget, h.run hresult ht⟩
  · -- Without a limit only a run that ended by itself counts, and the larger one ended so, too.
    obtain ⟨hlarge, hshow, hsame⟩ := h.run hresult ht
    have hlimit : ∀ j, (large.run budget).result ≠ .ok ⟨.stepLimit, j⟩ := by
      intro j hj
      obtain ⟨rfl, -⟩ := RunResult.mk.inj (Except.ok.inj (hlarge.symm.trans hj))
      exact hended (by rw [Run.ended?, hresult])
    exact ⟨large.run budget, runUpTo_zero_of_le hlimit (Nat.le_refl _), hlarge, hshow, hsame⟩

/-- A program that halts at once, in the smallest memory and in twice as much, where the second half
is full of ones. -/
theorem EnlargedTo.alike_haltAtOnce :
    let small : Emulator :=
      { machine := { memory := (Memory.zeros 65536).put 0 (Memory.wordBytes 0xFF000000) } }
    let large := small.enlarge (Array.replicate 65536 1)
    small.EnlargedTo large ∧
      (∃ small' large', small.attempt .step = (small', none) ∧
        large.attempt .step = (large', none) ∧ small'.EnlargedTo large' ∧
        large.machine.memory.SameFrom 65536 large'.machine.memory) ∧
      ∃ run run', small.runUpTo 1 0 = some run ∧ run.result = .ok ⟨.halted, 1⟩ ∧
        large.runUpTo 1 0 = some run' ∧ run'.result = .ok ⟨.halted, 1⟩ ∧
        run.emulator.EnlargedTo run'.emulator := by
  intro small large
  have hsize : small.machine.memory.size = 65536 := by
    show ((Memory.zeros 65536).put 0 _).size = 65536
    rw [Memory.size_put, Memory.size_zeros]
  have hfetch : small.machine.fetch = .ok 0xFF000000 := by
    have hrange : (Memory.zeros 65536).InRange 0 4 := by
      rw [Memory.InRange, Memory.size_zeros]
      decide
    exact Memory.read32_put hrange 0xFF000000
  -- For every machine, so that nothing here is computed on the memory of this one.
  have halt : ∀ m : Machine,
      Exec.instruction { opcode := .halt } m = .ok () { m with halted := true } := fun _ => rfl
  let small' : Emulator :=
    { machine := { small.machine.setPc 4 with halted := true }, status := .halted }
  have hstep : small.step = (small', none) := by
    rw [step_of_fetch rfl hfetch, executeReady_of_ok rfl (halt _)]
    rfl
  have hrun : small.runUpTo 1 0 = some { emulator := small', result := .ok ⟨.halted, 1⟩ } := by
    have hsteps : Steps 1 small small' := .next hstep (.refl small')
    rw [runUpTo, if_pos rfl, runFreely, hsteps.run_of_termination (Nat.le_refl 1) rfl]
    rfl
  have h : small.EnlargedTo large := enlargedTo_enlarge small _
  obtain ⟨hattempt, hruns⟩ := h.alike
  obtain ⟨large', hlarge, hshow, hsame⟩ := hattempt .step small' hstep
  have hhalted : Termination.halted ≠ .ranOff := by decide
  obtain ⟨run', hrun', hresult', hshow', -⟩ := hruns 1 0 _ .halted 1 hrun rfl hhalted
  rw [hsize] at hsame
  exact ⟨h, ⟨small', large', hstep, hlarge, hshow, hsame⟩,
    _, run', hrun, rfl, hrun', hresult', hshow'⟩

end Emulator

end WordMachine
