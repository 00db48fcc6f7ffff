/-
**Instructions with more memory.**

Memory can be enlarged by further bytes at its end.  An access that lies inside the smaller memory
lies inside the larger one and finds the same bytes there, and a test that the smaller memory passes
is passed by the larger one.  No instruction looks at the size of memory in any other way, so one
that is executed does the same with more memory, and leaves the further bytes alone.

A fault, in contrast, may go away with more memory.

Main definitions:

* `Memory.enlarge`, `Machine.enlarge` — further bytes at the end of memory;
* `Exec.Enlarges` — a computation that does the same with more memory, if it succeeds.

Main results:

* `Exec.enlarges_instruction` — **an instruction that is executed does the same with more memory**.
-/

import WordMachine.Proofs.Machine.Atomicity
import WordMachine.Proofs.Machine.Stepwise
import WordMachine.Proofs.Memory.Strings

set_option relaxedAutoImplicit false
set_option autoImplicit false

namespace WordMachine

/-! ### Memory -/

namespace Memory

variable {m : Memory} {tail : Array UInt8}

/-- Memory with further bytes at its end. -/
def enlarge (m : Memory) (tail : Array UInt8) : Memory := ⟨m.bytes ++ tail⟩

@[simp] theorem size_enlarge (m : Memory) (tail : Array UInt8) :
    (m.enlarge tail).size = m.size + tail.size := by
  simp [enlarge, size]

theorem lt_size_enlarge {a : Nat} (h : a < m.size) (tail : Array UInt8) :
    a < (m.enlarge tail).size := by
  rw [size_enlarge]
  exact Nat.lt_add_right _ h

theorem byte_enlarge {a : Nat} (h : a < m.size) (tail : Array UInt8) :
    (m.enlarge tail).byte a = m.byte a := by
  rw [byte, enlarge, Array.getElem?_append_left h, byte]

theorem inRange_enlarge {a : UInt32} {width : Nat} (h : m.InRange a width) (tail : Array UInt8) :
    (m.enlarge tail).InRange a width := by
  rw [InRange, size_enlarge]
  exact Nat.le_add_right_of_le h

theorem slice_enlarge {a width : Nat} (h : a + width ≤ m.size) (tail : Array UInt8) :
    (m.enlarge tail).slice a width = m.slice a width := by
  refine List.map_congr_left ?_
  intro x hx
  exact byte_enlarge (Nat.lt_of_lt_of_le (List.mem_range'_1.1 hx).2 h) tail

theorem put_enlarge {a : Nat} {bs : List UInt8} (h : a + bs.length ≤ m.size)
    (tail : Array UInt8) : (m.enlarge tail).put a bs = (m.put a bs).enlarge tail := by
  induction bs generalizing m a with
  | nil => rfl
  | cons b bs ih =>
      simp only [size, List.length_cons] at h
      have hfirst : (m.bytes ++ tail).setIfInBounds a b = m.bytes.setIfInBounds a b ++ tail :=
        Array.setIfInBounds_append_left (by omega)
      have hrest : a + 1 + bs.length ≤ size ⟨m.bytes.setIfInBounds a b⟩ := by
        simp only [size, Array.size_setIfInBounds]
        omega
      rw [put, enlarge, hfirst]
      exact ih hrest

theorem check_enlarge {a : UInt32} {width : Nat} (h : m.check a width = .ok ())
    (tail : Array UInt8) : (m.enlarge tail).check a width = .ok () := by
  unfold check at h
  split at h
  · rename_i hin
    exact if_pos (inRange_enlarge hin tail)
  · exact nomatch h

theorem read32_enlarge {a v : UInt32} (h : m.read32 a = .ok v) (tail : Array UInt8) :
    (m.enlarge tail).read32 a = .ok v := by
  unfold read32 read at h ⊢
  split at h
  · rename_i hin
    rw [if_pos (inRange_enlarge hin tail), slice_enlarge hin, h]
  · exact nomatch h

/-- A zero that lies inside memory is the first one with more memory, too. -/
theorem firstZero_enlarge {a : Nat} (h : m.firstZero a < m.size) (tail : Array UInt8) :
    (m.enlarge tail).firstZero a = m.firstZero a := by
  fun_induction firstZero m a with
  | case1 a hlt hzero =>
      rw [firstZero, if_pos (lt_size_enlarge hlt tail), byte_enlarge hlt, if_pos hzero]
  | case2 a hlt hzero ih =>
      rw [firstZero, if_pos (lt_size_enlarge hlt tail), byte_enlarge hlt, if_neg hzero]
      exact ih h
  | case3 a hlt => exact absurd h hlt

theorem cString_enlarge {a : UInt32} {bs : List UInt8} (h : m.cString a = .ok bs)
    (tail : Array UInt8) : (m.enlarge tail).cString a = .ok bs := by
  simp only [cString] at h ⊢
  split at h
  · rename_i hstop
    have hlarge := lt_size_enlarge hstop tail
    have hle := m.le_firstZero a.toNat
    rw [firstZero_enlarge hstop, if_pos hlarge, slice_enlarge (by omega), h]
  · contradiction

end Memory

/-! ### Computations -/

/-- The machine with further bytes at the end of memory. -/
def Machine.enlarge (m : Machine) (tail : Array UInt8) : Machine :=
  { m with memory := m.memory.enlarge tail }

namespace Exec

section Computations

variable {α β : Type}

/-- A computation **does the same with more memory** if it succeeds.  It leaves the further bytes as
they were. -/
def Enlarges (x : Exec α) : Prop :=
  ∀ (m : Machine) (a : α) (m' : Machine), x m = .ok a m' →
    ∀ tail, x (m.enlarge tail) = .ok a (m'.enlarge tail)

theorem Enlarges.bind {x : Exec α} {f : α → Exec β} (hx : Enlarges x) (hf : ∀ a, Enlarges (f a)) :
    Enlarges (x >>= f) := by
  intro m b m' h tail
  obtain ⟨a, m₁, hm, h⟩ := bind_eq_ok.1 h
  rw [bind_of_ok (hx m a m₁ hm tail)]
  exact hf a m₁ b m' h tail

/-- Reading memory does the same with more memory when what is read is still found there. -/
theorem enlarges_inspect {read : Memory → Except Memory.OutOfBounds α}
    (hread : ∀ mem v, read mem = .ok v → ∀ tail, read (mem.enlarge tail) = .ok v) :
    Enlarges (inspect read) := by
  intro m v m' h tail
  cases hm : read m.memory with
  | ok w =>
      simp only [inspect, hm] at h
      obtain ⟨rfl, rfl⟩ := EStateM.Result.ok.inj h
      simp only [inspect, Machine.enlarge, hread _ _ hm tail]
  | error cause =>
      simp only [inspect, hm] at h
      cases h

theorem enlarges_storeBytes (a : UInt32) (bytes : List UInt8) : Enlarges (storeBytes a bytes) := by
  intro m _ m' h tail
  by_cases hfits : m.memory.InRange a bytes.length
  · rw [storeBytes_of_inRange hfits] at h
    obtain ⟨-, rfl⟩ := EStateM.Result.ok.inj h
    have hlarge := Memory.inRange_enlarge hfits tail
    rw [storeBytes_of_inRange (m := m.enlarge tail) hlarge]
    simp only [Machine.enlarge, Memory.put_enlarge hfits]
  · rw [storeBytes_of_not_inRange hfits] at h
    exact nomatch h

/-- Input that fits into memory fits into a larger one. -/
theorem enlarges_input (a : UInt32) : Enlarges (input a) := by
  intro m _ m' h tail
  by_cases hfits : m.memory.InRange a (m.console.pending + 1)
  · rw [input_of_inRange hfits] at h
    obtain ⟨-, rfl⟩ := EStateM.Result.ok.inj h
    have hlarge := Memory.inRange_enlarge hfits tail
    rw [input_of_inRange (m := m.enlarge tail) hlarge]
    have hput : m.memory.InRange a (m.console.take m.console.pending ++ [0]).length := by
      simpa [Console.take, Console.pending] using hfits
    simp only [Machine.enlarge, Memory.put_enlarge hput]
  · rw [input_of_not_inRange hfits] at h
    cases h

/-- A step that leaves memory alone does the same with more memory. -/
theorem enlarges_of_eq {x : Exec α} (value : Machine → α) (change : Machine → Machine)
    (hx : ∀ m, x m = .ok (value m) (change m))
    (hvalue : ∀ m tail, value (m.enlarge tail) = value m)
    (hchange : ∀ m tail, change (m.enlarge tail) = (change m).enlarge tail) : Enlarges x := by
  intro m a m' h tail
  obtain ⟨rfl, rfl⟩ := EStateM.Result.ok.inj ((hx m).symm.trans h)
  rw [hx, hvalue, hchange]

end Computations

/-! ### Instructions -/

/-- Doing the same with more memory is a property of the steps.  The registers and the console are
the same with more memory. -/
theorem stepwise_enlarges : Stepwise Enlarges where
  pure a := enlarges_of_eq (fun _ => a) id (fun _ => rfl) (fun _ _ => rfl) fun _ _ => rfl
  throws _ := fun _ _ _ h => nomatch h
  bind := Enlarges.bind
  readRegister r :=
    enlarges_of_eq (·.registers.get r) id (fun _ => rfl) (fun _ _ => rfl) fun _ _ => rfl
  readFlag f :=
    enlarges_of_eq (·.registers.flag f) id (fun _ => rfl) (fun _ _ => rfl) fun _ _ => rfl
  registers _ hf := fun m => hf m.registers m
  writeRegister r v :=
    enlarges_of_eq (fun _ => ()) (fun m => { m with registers := m.registers.set r v })
      (fun _ => rfl) (fun _ _ => rfl) fun _ _ => rfl
  writeFlags states :=
    enlarges_of_eq (fun _ => ()) (fun m => { m with registers := m.registers.setFlags states })
      (fun _ => rfl) (fun _ _ => rfl) fun _ _ => rfl
  checkRange _ _ := enlarges_inspect fun _ _ => Memory.check_enlarge
  load _ := enlarges_inspect fun _ _ => Memory.read32_enlarge
  loadString _ := enlarges_inspect fun _ _ => Memory.cString_enlarge
  storeBytes := enlarges_storeBytes
  readBytes n :=
    enlarges_of_eq (·.console.take n) (fun m => { m with console := m.console.drop n })
      (fun _ => rfl) (fun _ _ => rfl) fun _ _ => rfl
  nextInteger :=
    enlarges_of_eq (·.console.nextInteger.1)
      (fun m => { m with console := m.console.nextInteger.2 })
      (fun _ => rfl) (fun _ _ => rfl) fun _ _ => rfl
  input := enlarges_input
  print bytes :=
    enlarges_of_eq (fun _ => ()) (fun m => { m with console := m.console.write bytes })
      (fun _ => rfl) (fun _ _ => rfl) fun _ _ => rfl
  halt :=
    enlarges_of_eq (fun _ => ()) (fun m => { m with halted := true })
      (fun _ => rfl) (fun _ _ => rfl) fun _ _ => rfl

/-- **An instruction that is executed does the same with more memory**, and leaves the further bytes
as they were. -/
theorem enlarges_instruction (i : Instruction) : Enlarges (instruction i) :=
  stepwise_enlarges.instruction i

end Exec

end WordMachine
