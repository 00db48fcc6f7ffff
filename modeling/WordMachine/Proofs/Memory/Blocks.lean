/-
**Blocks of bytes in memory.**

Bytes that are put into memory are found where they were put, and every other byte stays as it was.
A word is put as the four bytes of its number, so a row of words is a row of bytes in which each byte
belongs to one word.  Whether the words are written all at once, or one at a time with a test of the
range for each, comes to the same.

Main definitions:

* `Memory.writeEach`, `Memory.copyWords` — writing words one at a time.

Main results:

* `Memory.byte_put_add`, `Memory.byte_put_of_not_mem` — memory after bytes were put;
* `Memory.slice_put`, `Memory.read32_put` — bytes and words that were put are read back;
* `Memory.getElem?_flatMap_wordBytes` — which byte of which word stands where;
* `Memory.copyWords_eq` — **one at a time is all at once**.
-/

import WordMachine.Memory.Basic
import Mathlib.Order.Interval.Set.Basic

set_option relaxedAutoImplicit false
set_option autoImplicit false

namespace WordMachine

theorem LittleEndian.getElem?_split {width j : Nat} (hj : j < width) (n : Nat) :
    (split width n)[j]? = some (n / 256 ^ j).toUInt8 := by
  induction width generalizing n j with
  | zero => exact absurd hj (Nat.not_lt_zero j)
  | succ width ih =>
      cases j with
      | zero => rw [split, List.getElem?_cons_zero, Nat.pow_zero, Nat.div_one]
      | succ j =>
          have hdiv : n / 256 / 256 ^ j = n / 256 ^ (j + 1) := by
            rw [Nat.div_div_eq_div_mul, Nat.pow_succ, Nat.mul_comm]
          rw [split, List.getElem?_cons_succ, ih (Nat.lt_of_succ_lt_succ hj), hdiv]

namespace Memory

variable {m : Memory} {a : Nat} {bs : List UInt8}

/-! ### Bytes that were put -/

theorem byte_put_add (h : a + bs.length ≤ m.size) {k : Nat} (hk : k < bs.length) :
    (m.put a bs).byte (a + k) = bs[k] := by
  have hget : bs[a + k - a]? = some bs[k] := by
    rw [Nat.add_sub_cancel_left, List.getElem?_eq_getElem hk]
  rw [byte_put m a (a + k) bs h, if_pos (Nat.le_add_right a k), hget, Option.getD_some]

theorem byte_put_of_not_mem (h : a + bs.length ≤ m.size) {x : Nat}
    (hx : x ∉ Set.Ico a (a + bs.length)) : (m.put a bs).byte x = m.byte x := by
  rw [byte_put m a x bs h]
  by_cases hle : a ≤ x
  · have hlen : bs.length ≤ x - a := by
      by_contra hlt
      exact hx ⟨hle, by omega⟩
    rw [if_pos hle, List.getElem?_eq_none hlen, Option.getD_none]
  · rw [if_neg hle]

/-- What is put in one go is put in two. -/
theorem put_append (m : Memory) (a : Nat) (bs cs : List UInt8) :
    m.put a (bs ++ cs) = (m.put a bs).put (a + bs.length) cs := by
  induction bs generalizing m a with
  | nil => rfl
  | cons b bs ih =>
      have hadd : a + 1 + bs.length = a + (b :: bs).length := by
        rw [List.length_cons]
        omega
      rw [List.cons_append, put, ih, put, hadd]

/-! ### Rows of words -/

@[simp] theorem length_wordBytes (w : UInt32) : (wordBytes w).length = 4 :=
  LittleEndian.length_split 4 w.toNat

theorem length_flatMap_wordBytes (ws : List UInt32) :
    (ws.flatMap wordBytes).length = 4 * ws.length := by
  induction ws with
  | nil => rfl
  | cons w ws ih =>
      rw [List.flatMap_cons, List.length_append, length_wordBytes, ih, List.length_cons]
      omega

/-- Byte `j` of word `k` stands at `4 * k + j`. -/
theorem getElem?_flatMap_wordBytes {ws : List UInt32} {k j : Nat} (hk : k < ws.length)
    (hj : j < 4) :
    (ws.flatMap wordBytes)[4 * k + j]? = some (ws[k].toNat / 256 ^ j).toUInt8 := by
  induction ws generalizing k with
  | nil => exact absurd hk (Nat.not_lt_zero k)
  | cons w ws ih =>
      rw [List.flatMap_cons]
      cases k with
      | zero =>
          have hlt : 4 * 0 + j < (wordBytes w).length := by rw [length_wordBytes]; omega
          rw [List.getElem?_append_left hlt, Nat.mul_zero, Nat.zero_add]
          exact LittleEndian.getElem?_split hj w.toNat
      | succ k =>
          have hle : (wordBytes w).length ≤ 4 * (k + 1) + j := by rw [length_wordBytes]; omega
          have hsub : 4 * (k + 1) + j - (wordBytes w).length = 4 * k + j := by
            rw [length_wordBytes]
            omega
          rw [List.getElem?_append_right hle, hsub, ih (Nat.lt_of_succ_lt_succ hk),
            List.getElem_cons_succ]

/-! ### Reading back -/

/-- Bytes that were put are read back. -/
theorem slice_put (h : a + bs.length ≤ m.size) : (m.put a bs).slice a bs.length = bs := by
  refine List.ext_getElem (length_slice _ _ _) ?_
  intro k h₁ hk
  have hget : ((m.put a bs).slice a bs.length)[k] = (m.put a bs).byte (a + k) := by simp [slice]
  rw [hget, byte_put_add h hk]

/-- A word that was put is read back. -/
theorem read32_put {a : UInt32} (h : m.InRange a 4) (w : UInt32) :
    (m.put a.toNat (wordBytes w)).read32 a = .ok w := by
  have hle : a.toNat + (wordBytes w).length ≤ m.size := h
  have hrange : (m.put a.toNat (wordBytes w)).InRange a 4 := by
    rw [InRange, size_put]
    exact h
  have hslice : (m.put a.toNat (wordBytes w)).slice a.toNat 4 = wordBytes w := slice_put hle
  have hword : LittleEndian.combine (wordBytes w) = w.toNat := by
    rw [wordBytes, LittleEndian.combine_split]
    exact Nat.mod_eq_of_lt w.toNat_lt
  rw [read32, read, if_pos hrange, hslice, hword, Except.map, Nat.toUInt32, UInt32.ofNat_toNat]

/-- What is read depends on the bytes that are named. -/
theorem read32_congr {m' : Memory} {a : UInt32} (hsize : m'.size = m.size)
    (h : ∀ x ∈ Set.Ico a.toNat (a.toNat + 4), m'.byte x = m.byte x) :
    m'.read32 a = m.read32 a := by
  have hslice : m'.slice a.toNat 4 = m.slice a.toNat 4 :=
    List.map_congr_left fun x hx => h x (List.mem_range'_1.1 hx)
  have hrange : m'.InRange a 4 ↔ m.InRange a 4 := by rw [InRange, InRange, hsize]
  simp only [read32, read, hrange, hslice, hsize]

/-! ### One word at a time -/

/-- The address of the next word, where it does not wrap. -/
theorem toNat_add_four {a : UInt32} (h : a.toNat + 4 < 2 ^ 32) :
    (a + 4).toNat = a.toNat + 4 := by
  rw [UInt32.toNat_add]
  exact Nat.mod_eq_of_lt h

/-- Writes words one at a time, until one does not fit. -/
def writeEach (m : Memory) (a : UInt32) : List UInt32 → Memory × Option OutOfBounds
  | [] => (m, none)
  | w :: ws =>
    match m.write32 a w with
    | (m, none) => m.writeEach (a + 4) ws
    | (m, some cause) => (m, some cause)

/-- Writes words one at a time, after a test of the range that they take together. -/
def copyWords (m : Memory) (a : UInt32) (ws : List UInt32) : Memory × Option OutOfBounds :=
  match m.check a (4 * ws.length) with
  | .ok () => m.writeEach a ws
  | .error cause => (m, some cause)

/-- None of the words is refused when the range was tested before.  The address of the next word
does not wrap, as memory ends before it could. -/
theorem writeEach_of_inRange {ws : List UInt32} {a : UInt32} (hsize : m.size < 2 ^ 32)
    (h : m.InRange a (4 * ws.length)) :
    m.writeEach a ws = (m.put a.toNat (ws.flatMap wordBytes), none) := by
  induction ws generalizing m a with
  | nil => rfl
  | cons w ws ih =>
      have hrange : a.toNat + 4 * (ws.length + 1) ≤ m.size := h
      have hnext : (a + 4).toNat = a.toNat + 4 := toNat_add_four (by omega)
      have hfirst : m.write32 a w = (m.put a.toNat (wordBytes w), none) := by
        have hin : m.InRange a (wordBytes w).length := by
          rw [length_wordBytes, InRange]
          omega
        rw [write32, write, if_pos hin]
      have hrest : (m.put a.toNat (wordBytes w)).InRange (a + 4) (4 * ws.length) := by
        rw [InRange, hnext, size_put]
        omega
      have hsize' : (m.put a.toNat (wordBytes w)).size < 2 ^ 32 := by
        rw [size_put]
        exact hsize
      rw [writeEach, hfirst]
      show writeEach _ _ _ = _
      rw [ih hsize' hrest, hnext, List.flatMap_cons, put_append, length_wordBytes]

/-- **Writing words one at a time is writing them all at once**, whether they fit or not. -/
theorem copyWords_eq (hsize : m.size < 2 ^ 32) (a : UInt32) (ws : List UInt32) :
    m.copyWords a ws = m.writeWords a ws := by
  rw [copyWords, writeWords, write, length_flatMap_wordBytes, check]
  by_cases h : m.InRange a (4 * ws.length)
  · rw [if_pos h, if_pos h]
    exact writeEach_of_inRange hsize h
  · rw [if_neg h, if_neg h]

end Memory

end WordMachine
