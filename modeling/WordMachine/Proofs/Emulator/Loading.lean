/-
**Loading an assembled program.**

An assembled program fits every memory that is at least as large as the one it was assembled for.
Loading it clears the memory, copies the text and then the data, and leaves nothing of what the
emulator was before.  The loader tests the ends of the segments once; the copies test their ranges
again, and none of them is refused.

Main definitions:

* `Memory.Holds` — memory with a program in it, byte by byte, and zeros elsewhere;
* `Image.copyInto` — copying text and data, each with its own tests;
* `Emulator.Loaded` — an emulator about to execute the first instruction of a program.

Main results:

* `Emulator.copyInto_of_le` — no copy is refused when the segments end inside memory;
* `Emulator.holds_boot` — where the loader puts the bytes of a program;
* `Emulator.loaded_of_assemble` — **an assembled program is loaded, whatever the emulator was**.
-/

import WordMachine.Proofs.Assembly.Segments
import WordMachine.Proofs.Emulator.Lifecycle
import WordMachine.Proofs.Memory.Blocks

set_option relaxedAutoImplicit false
set_option autoImplicit false

namespace WordMachine

/-- Memory **holds** a program: the words of its text, the least significant byte of each first, the
bytes of its data, and zeros everywhere else. -/
structure Memory.Holds (m : Memory) (p : Image) : Prop where
  text : ∀ k j, (hk : k < p.text.length) → j < 4 →
    m.byte (p.textStart.toNat + (4 * k + j)) = (p.text[k].toNat / 256 ^ j).toUInt8
  data : ∀ k, (hk : k < p.data.length) → m.byte (p.dataStart.toNat + k) = p.data[k]
  rest : ∀ a, a ∉ p.textRange → a ∉ p.dataRange → m.byte a = 0

/-- Copies the text and the data of a program into memory. -/
def Image.copyInto (p : Image) (m : Memory) : Memory × Option Memory.OutOfBounds :=
  match m.copyWords p.textStart p.text with
  | (m, none) => m.write p.dataStart p.data
  | (m, some cause) => (m, some cause)

namespace Emulator

/-- An emulator that a program was **loaded** into, and nothing else. -/
structure Loaded (e : Emulator) (p : Image) : Prop where
  memory : e.machine.memory.Holds p
  pc : e.machine.registers.get .pc = p.textStart
  sp : e.machine.registers.get .sp = p.stackStart
  zero : ∀ r, r ≠ .pc → r ≠ .sp → e.machine.registers.get r = 0
  input : e.machine.console.input = []
  output : e.machine.console.output = #[]
  halted : e.machine.halted = false
  ready : e.status = .ready
  lastFault : e.lastFault = ""

variable {e : Emulator} {m : Machine} {p : Image} {memory n : MemorySize} {source : Text}

theorem fits_iff :
    e.fits p = true ↔ p.textEnd ≤ e.machine.memory.size ∧ p.dataEnd ≤ e.machine.memory.size ∧
      p.stackStart.toNat < e.machine.memory.size := by
  simp only [fits, Bool.and_eq_true, decide_eq_true_eq, and_assoc]

/-! ### The copies -/

/-- **No copy is refused** when the segments end inside memory, and the copies lead to the memory
that the loader makes. -/
theorem copyInto_of_le (hsize : m.memory.size < 2 ^ 32) (htext : p.textEnd ≤ m.memory.size)
    (hdata : p.dataEnd ≤ m.memory.size) :
    p.copyInto m.memory.clear = ((boot m p).memory, none) := by
  have hwords : m.memory.clear.copyWords p.textStart p.text =
      (m.memory.clear.put p.textStart.toNat (p.text.flatMap Memory.wordBytes), none) := by
    have hin : m.memory.clear.InRange p.textStart (p.text.flatMap Memory.wordBytes).length := by
      rw [Memory.InRange, Memory.length_flatMap_wordBytes, Memory.size_clear]
      exact htext
    rw [Memory.copyWords_eq (by rwa [Memory.size_clear]), Memory.writeWords, Memory.write,
      if_pos hin]
  have hin : (m.memory.clear.put p.textStart.toNat
      (p.text.flatMap Memory.wordBytes)).InRange p.dataStart p.data.length := by
    rw [Memory.InRange, Memory.size_put, Memory.size_clear]
    exact hdata
  rw [Image.copyInto, hwords]
  show Memory.write _ _ _ = _
  rw [Memory.write, if_pos hin]
  rfl

/-! ### Memory after loading -/

/-- **Where the loader puts the bytes of a program.**  The data comes after the text, so writing it
spares the text. -/
theorem holds_boot (htext : p.textEnd ≤ p.dataStart.toNat) (hdata : p.dataEnd ≤ m.memory.size) :
    (boot m p).memory.Holds p := by
  let words := m.memory.clear.put p.textStart.toNat (p.text.flatMap Memory.wordBytes)
  have hlength := Memory.length_flatMap_wordBytes p.text
  have hwords : p.textStart.toNat + (p.text.flatMap Memory.wordBytes).length ≤
      m.memory.clear.size := by
    have hle : p.dataStart.toNat ≤ p.dataEnd := Nat.le_add_right _ _
    rw [hlength, Memory.size_clear]
    exact htext.trans (hle.trans hdata)
  have hbytes : p.dataStart.toNat + p.data.length ≤ words.size := by
    rw [Memory.size_put, Memory.size_clear]
    exact hdata
  have hmemory : (boot m p).memory = words.put p.dataStart.toNat p.data := rfl
  rw [hmemory]
  refine ⟨?_, ?_, ?_⟩
  -- Read through the second copy, which lies after the text, and then from the first.
  · intro k j hk hj
    have hpos : 4 * k + j < (p.text.flatMap Memory.wordBytes).length := by
      rw [hlength]
      omega
    have hbefore : p.textStart.toNat + (4 * k + j) ∉
        Set.Ico p.dataStart.toNat (p.dataStart.toNat + p.data.length) := by
      rintro ⟨hle, _⟩
      have hend : p.textStart.toNat + 4 * p.text.length ≤ p.dataStart.toNat := htext
      omega
    rw [Memory.byte_put_of_not_mem hbytes hbefore, Memory.byte_put_add hwords hpos]
    have hget := Memory.getElem?_flatMap_wordBytes hk hj
    rw [List.getElem?_eq_getElem hpos] at hget
    exact Option.some.inj hget
  · intro k hk
    exact Memory.byte_put_add hbytes hk
  · intro a hatext hadata
    have hout : a ∉ Set.Ico p.textStart.toNat
        (p.textStart.toNat + (p.text.flatMap Memory.wordBytes).length) := by
      rw [hlength]
      exact hatext
    rw [Memory.byte_put_of_not_mem hbytes hadata, Memory.byte_put_of_not_mem hwords hout]
    exact Memory.byte_zeros m.memory.size a

/-- The loader leaves nothing of the machine but the size of its memory. -/
theorem boot_congr {m₁ m₂ : Machine} (h : m₁.memory.size = m₂.memory.size) (p : Image) :
    boot m₁ p = boot m₂ p := by
  have hclear : m₁.memory.clear = m₂.memory.clear := by rw [Memory.clear, Memory.clear, h]
  rw [boot, boot, hclear]

/-! ### The emulator after loading -/

theorem register_boot (m : Machine) (p : Image) (r : Register) :
    (boot m p).registers.get r =
      if Register.sp = r then p.stackStart else if Register.pc = r then p.textStart else 0 := by
  have hzero : RegisterFile.zeros.get r = 0 := by cases r <;> rfl
  rw [boot, RegisterFile.get_set, RegisterFile.get_set, hzero]

theorem loaded_boot (htext : p.textEnd ≤ p.dataStart.toNat)
    (hdata : p.dataEnd ≤ e.machine.memory.size) :
    Loaded { e.reset with machine := boot e.machine p } p where
  memory := holds_boot htext hdata
  pc := register_boot e.machine p .pc
  sp := register_boot e.machine p .sp
  zero := by
    intro r hpc hsp
    rw [register_boot, if_neg hsp.symm, if_neg hpc.symm]
  input := rfl
  output := rfl
  halted := rfl
  ready := rfl
  lastFault := rfl

/-- The loader accepts a well placed program, also in a larger memory. -/
theorem fits_of_wellPlaced {p : Program} (h : p.WellPlaced memory.bytes)
    (hle : memory.bytes ≤ e.machine.memory.size) : e.fits p.toImage = true := by
  have hstack := h.stack_lt
  have hdata := h.data_eq
  have hstart : p.dataStart.toNat ≤ p.dataEnd := Nat.le_add_right _ _
  have htext := h.text_le
  rw [fits_iff]
  omega

/-- **An assembled program is loaded, whatever the emulator was before.**  It fits every memory that
is not smaller than the one it was assembled for, no copy is refused, the emulator holds the program
and nothing else, and is the same as a new one with the program loaded. -/
theorem loaded_of_assemble {p : Program} (h : Program.assemble memory source = .ok p)
    (hle : memory.bytes ≤ n.bytes) (hsize : e.machine.memory.size = n.bytes) :
    ∃ e', e.load p.toImage = (e', none) ∧ e'.Loaded p.toImage ∧
      e'.machine.memory.size = n.bytes ∧
      p.toImage.copyInto e.machine.memory.clear = (e'.machine.memory, none) ∧
      (Emulator.ofSize n).load p.toImage = (e', none) := by
  obtain ⟨_, _, hbuilt⟩ := Program.built_of_assemble h
  have hplaced := hbuilt.wellPlaced
  have hfits : e.fits p.toImage = true := fits_of_wellPlaced hplaced (hsize ▸ hle)
  obtain ⟨htextEnd, hdataEnd, _⟩ := fits_iff.1 hfits
  have hnew : (ofSize n).machine.memory.size = n.bytes := Memory.size_zeros n.bytes
  have hnewFits : (ofSize n).fits p.toImage = true := fits_of_wellPlaced hplaced (hnew ▸ hle)
  refine ⟨_, load_of_fits hfits, ?_, ?_, ?_, ?_⟩
  · exact loaded_boot hplaced.text_le hdataEnd
  · exact (size_boot e.machine p.toImage).trans hsize
  · exact copyInto_of_le (hsize ▸ n.bytes_lt) htextEnd hdataEnd
  · rw [load_of_fits hnewFits, boot_congr (hnew.trans hsize.symm)]
    rfl

/-- Twice the memory that is needed, filled with sevens, in an emulator that had halted in the
middle of things. -/
theorem loaded_intoUsedMemory :
    let e : Emulator :=
      { machine :=
          { registers := ⟨Vector.replicate 14 5⟩
            memory := ⟨Array.replicate 131072 7⟩
            console := { input := [49], output := #[50] }
            halted := true }
        status := .halted }
    let source : Text := "LODW AX, [WORD]\nHALT\n.data\nWORD: .word 0x01020304".toList
    ∃ p e', Program.assemble .standard source = .ok p ∧ p.text = [0x0400EFFC, 0xFF000000] ∧
      p.data = [4, 3, 2, 1] ∧ p.dataStart = 0xEFFC ∧ e.load p.toImage = (e', none) ∧
      e'.Loaded p.toImage := by
  intro e source
  have h : Program.assemble .standard source = .ok
      { text := [0x0400EFFC, 0xFF000000], data := [4, 3, 2, 1], textStart := 0,
        dataStart := 0xEFFC, stackStart := 0xF000, lines := [1, 2], stackSize := 4096,
        symbols := [("WORD".toList, 0xEFFC)] } := by decide +kernel
  have hsize : e.machine.memory.size = MemorySize.bytes { bytes := 131072 } :=
    Array.size_replicate
  obtain ⟨e', hload, hloaded, _⟩ := loaded_of_assemble h (by decide) hsize
  exact ⟨_, e', h, rfl, rfl, rfl, hload, hloaded⟩

end Emulator

end WordMachine
