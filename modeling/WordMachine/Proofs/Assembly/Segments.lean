/-
**The segments of an assembled program.**

The text, the data and the stack of an assembled program lie in memory one after the other, whatever
places and sizes the source asks for.  The first walk only counts bytes and places the segments; the
words and bytes are made by the second walk.  That the counts are right is what the two walks have in
common, and with it the placement speaks of the program itself.

Main definitions:

* `Image.textRange`, `Image.dataRange`, `Program.stackRange` — the addresses of the segments;
* `Program.WellPlaced` — the segments follow each other and lie inside memory.

Main results:

* `Program.wellPlaced_of_assemble` — **every assembled program is well placed**, and its segments
  are pairwise disjoint.
-/

import WordMachine.Proofs.Assembly.Placement
import Mathlib.Order.CompletePartialOrder
import Mathlib.Order.Interval.Set.Disjoint

set_option relaxedAutoImplicit false
set_option autoImplicit false

namespace WordMachine

/-- The addresses of the text. -/
def Image.textRange (p : Image) : Set ℕ := Set.Ico p.textStart.toNat p.textEnd

/-- The addresses of the data. -/
def Image.dataRange (p : Image) : Set ℕ := Set.Ico p.dataStart.toNat p.dataEnd

namespace Program

/-- The address after the stack. -/
def stackEnd (p : Program) : Nat := p.stackStart.toNat + p.stackSize.toNat

/-- The addresses of the stack. -/
def stackRange (p : Program) : Set ℕ := Set.Ico p.stackStart.toNat p.stackEnd

/-- **The segments of a program follow each other** and lie inside a memory of the given size.  The
sums are those of unbounded numbers. -/
structure WellPlaced (p : Program) (memory : Nat) : Prop where
  text_lt : p.textStart.toNat < memory
  text_le : p.textEnd ≤ p.dataStart.toNat
  data_eq : p.dataEnd = p.stackStart.toNat
  stack_lt : p.stackStart.toNat < memory
  stack_le : p.stackEnd ≤ memory

variable {memory : MemorySize} {n : Nat} {source : Text} {cs : List Command} {p : Program}

/-- The places that the first walk chooses hold what the second walk makes. -/
theorem Built.wellPlaced (h : Built memory cs p) : p.WellPlaced memory.bytes := by
  have hplaced := h.placed
  have htext := h.textSize_eq
  have hdata := h.dataSize_eq
  refine ⟨?_, ?_, ?_, ?_, ?_⟩
  · rw [h.textStart]
    exact hplaced.text_lt
  · rw [Image.textEnd, h.textStart, h.dataStart, ← htext]
    exact hplaced.text_le
  · rw [Image.dataEnd, h.dataStart, h.stackStart, ← hdata]
    exact hplaced.data_eq
  · rw [h.stackStart]
    exact hplaced.stack_lt
  · rw [stackEnd, h.stackStart, h.stackSize]
    exact hplaced.stack_le

/-- A range that ends before another one starts does not meet it. -/
theorem disjoint_Ico {a b c d : ℕ} (h : b ≤ c) : Disjoint (Set.Ico a b) (Set.Ico c d) :=
  Set.Ico_disjoint_Ico.2 ((min_le_left b d).trans (h.trans (le_max_right a c)))

/-- Segments that follow each other do not meet. -/
theorem WellPlaced.disjoint (h : p.WellPlaced n) :
    Disjoint p.textRange p.dataRange ∧ Disjoint p.textRange p.stackRange ∧
      Disjoint p.dataRange p.stackRange := by
  have htext := h.text_le
  have hdata : p.dataStart.toNat ≤ p.dataEnd := Nat.le_add_right _ _
  have hstack : p.dataEnd ≤ p.stackStart.toNat := h.data_eq.le
  refine ⟨?_, ?_, ?_⟩
  · exact disjoint_Ico htext
  · exact disjoint_Ico (htext.trans (hdata.trans hstack))
  · exact disjoint_Ico hstack

/-- Segments that follow each other and end inside memory lie inside memory. -/
theorem WellPlaced.subset (h : p.WellPlaced n) :
    p.textRange ∪ p.dataRange ∪ p.stackRange ⊆ Set.Iio n := by
  have hdata : p.dataStart.toNat ≤ p.dataEnd := Nat.le_add_right _ _
  have hstack : p.dataEnd ≤ n := h.data_eq.trans_le h.stack_lt.le
  rintro a ((⟨_, ha⟩ | ⟨_, ha⟩) | ⟨_, ha⟩)
  · exact ha.trans_le (h.text_le.trans (hdata.trans hstack))
  · exact ha.trans_le hstack
  · exact ha.trans_le h.stack_le

/-- **Every assembled program is well placed**, whatever its source asks for: the text, the data and
the stack follow each other, do not meet, and lie inside memory. -/
theorem wellPlaced_of_assemble (h : assemble memory source = .ok p) :
    p.WellPlaced memory.bytes ∧
      (Disjoint p.textRange p.dataRange ∧ Disjoint p.textRange p.stackRange ∧
        Disjoint p.dataRange p.stackRange) ∧
      p.textRange ∪ p.dataRange ∪ p.stackRange ⊆ Set.Iio memory.bytes := by
  obtain ⟨_, _, hbuilt⟩ := built_of_assemble h
  have hplaced := hbuilt.wellPlaced
  exact ⟨hplaced, hplaced.disjoint, hplaced.subset⟩

/-- A source that asks for the places of its segments. -/
def placingSource : Text :=
  (".text_start 256\n.stack_start 4096\n.stack_size 61440\nHALT\n" ++
    ".data\n.byte 1\n.align 4\n.bitv 5,8\n.space 1").toList

/-- The nine bytes of data end where the stack is told to start. -/
theorem wellPlaced_placingSource :
    ∃ p, assemble .standard placingSource = .ok p ∧ p.textEnd = 260 ∧ p.dataStart = 4087 ∧
      p.stackEnd = 65536 ∧ p.WellPlaced 65536 := by
  have h : assemble .standard placingSource = .ok
      { text := [0xFF000000], data := [1, 0, 0, 0, 0, 0, 0, 0, 0], textStart := 256,
        dataStart := 4087, stackStart := 4096, lines := [4], stackSize := 61440,
        symbols := [] } := by decide +kernel
  exact ⟨_, h, rfl, rfl, rfl, (wellPlaced_of_assemble h).1⟩

end Program

end WordMachine
