/-
**Memory is a little-endian byte map.**

A byte map has a byte at each address below its size, and knows nothing of rows of bytes.  A call
that writes stores the bytes of its numbers, the least significant first, at consecutive addresses,
if all of them lie below the size, and changes nothing otherwise; a number is read as the sum of its
bytes, each with its weight.  Addresses are unbounded here, so that an access next to the largest
address of 32 bits does not wrap.

Memory behaves as such a map, whatever calls were made before.  One call keeps memory and map in
agreement, and a run of calls does so by induction.  From the agreement everything that is read can
be told from the map.

Main definitions:

* `ByteMap`, `ByteMap.store`, `ByteMap.number` — maps, storing bytes, and the number in some bytes;
* `Memory.Call`, `Memory.Call.stores` — the calls that write, and what each of them stores;
* `Memory.Call.run`, `ByteMap.after` — what a call does to memory, and to a map;
* `Memory.Shows` — memory and map have the same bytes;
* `Memory.ActsAs` — **memory behaves as a map**.

Main results:

* `ByteMap.number_add`, `ByteMap.number_store` — numbers side by side, and a number just stored;
* `Memory.Shows.after`, `Memory.Shows.afterAll` — one call, and a run of calls;
* `Memory.Shows.read`, `Memory.Shows.refusal_run` — reading and refusing are told from the map;
* `Memory.actsAs_of_ofSize` — after any calls, memory behaves as the map does.
-/

import WordMachine.MemorySize
import WordMachine.Proofs.Memory.Blocks
import Mathlib.Algebra.BigOperators.Ring.Finset
import Mathlib.Tactic.Ring

set_option relaxedAutoImplicit false
set_option autoImplicit false

namespace WordMachine

/-! ### Byte maps -/

/-- **A byte map**: a byte at each address below a size. -/
structure ByteMap where
  /-- The number of addresses. -/
  size : Nat
  /-- The byte at an address. -/
  byte : Nat → UInt8

namespace ByteMap

variable {f : ByteMap} {a b width : Nat} {bs : List UInt8}

/-- The map with only zeros. -/
def zeros (size : Nat) : ByteMap := ⟨size, fun _ => 0⟩

/-- The map with some bytes at consecutive addresses, and its own bytes elsewhere. -/
def store (f : ByteMap) (a : Nat) (bs : List UInt8) : ByteMap where
  size := f.size
  byte x := if a ≤ x ∧ x < a + bs.length then bs.getD (x - a) 0 else f.byte x

theorem byte_store_of_mem {x : Nat} (hx : a ≤ x ∧ x < a + bs.length) :
    (f.store a bs).byte x = bs[x - a] := by
  have hget : bs.getD (x - a) 0 = bs[x - a] := by
    rw [List.getD_eq_getElem?_getD, List.getElem?_eq_getElem, Option.getD_some]
  exact (if_pos hx).trans hget

theorem byte_store_of_not_mem {x : Nat} (hx : ¬ (a ≤ x ∧ x < a + bs.length)) :
    (f.store a bs).byte x = f.byte x :=
  if_neg hx

/-- **The number in some bytes**, the least significant first: each byte counts by its place. -/
def number (f : ByteMap) (a width : Nat) : Nat :=
  ∑ i ∈ Finset.range width, (f.byte (a + i)).toNat * 256 ^ i

theorem number_succ (f : ByteMap) (a width : Nat) :
    f.number a (width + 1) = (f.byte a).toNat + 256 * f.number (a + 1) width := by
  have hnext : ∀ i, (f.byte (a + (i + 1))).toNat * 256 ^ (i + 1) =
      256 * ((f.byte (a + 1 + i)).toNat * 256 ^ i) := by
    intro i
    rw [Nat.pow_succ, show a + (i + 1) = a + 1 + i by omega]
    ring
  rw [number, Finset.sum_range_succ', Nat.pow_zero, Nat.mul_one, Nat.add_zero, Nat.add_comm]
  simp only [hnext]
  rw [← Finset.mul_sum, number]

/-- The number in some bytes is the one that they are put together to. -/
theorem number_eq_combine (f : ByteMap) (a width : Nat) :
    f.number a width = LittleEndian.combine ((List.range' a width).map f.byte) := by
  induction width generalizing a with
  | zero => rfl
  | succ width ih => rw [number_succ, ih, List.range'_succ, List.map_cons, LittleEndian.combine]

theorem number_lt (f : ByteMap) (a width : Nat) : f.number a width < 256 ^ width := by
  have hlt := LittleEndian.combine_lt ((List.range' a width).map f.byte)
  rwa [List.length_map, List.length_range', ← number_eq_combine] at hlt

/-- **Two numbers side by side are one number**: the second counts by the width of the first. -/
theorem number_add (f : ByteMap) (a width width' : Nat) :
    f.number a (width + width') =
      f.number a width + 256 ^ width * f.number (a + width) width' := by
  induction width generalizing a with
  | zero => simp [number]
  | succ width ih =>
      have hwidth : width + 1 + width' = width + width' + 1 := by omega
      have hnext : a + 1 + width = a + (width + 1) := by omega
      rw [hwidth, number_succ, ih, hnext, number_succ, Nat.pow_succ]
      ring

/-- A number depends on its bytes only. -/
theorem number_congr {g : ByteMap} (h : ∀ x, b ≤ x → x < b + width → f.byte x = g.byte x) :
    f.number b width = g.number b width := by
  refine Finset.sum_congr rfl fun i hi => ?_
  have hlt := Finset.mem_range.1 hi
  rw [h (b + i) (by omega) (by omega)]

/-- **The number just stored is read back.** -/
theorem number_store (f : ByteMap) (a : Nat) (bs : List UInt8) :
    (f.store a bs).number a bs.length = LittleEndian.combine bs := by
  rw [number_eq_combine]
  congr 1
  refine List.ext_getElem (by simp) ?_
  intro i h₁ hi
  rw [List.getElem_map, List.getElem_range', Nat.one_mul]
  rw [byte_store_of_mem ⟨by omega, by omega⟩]
  simp

/-- What is stored leaves other ranges alone. -/
theorem number_store_of_disjoint (h : b + width ≤ a ∨ a + bs.length ≤ b) :
    (f.store a bs).number b width = f.number b width := by
  refine number_congr fun x hle hlt => ?_
  exact byte_store_of_not_mem (by omega)

end ByteMap

/-! ### The bytes of a number -/

namespace LittleEndian

/-- The bytes of a number, each found by itself: byte `i` counts by `256 ^ i`. -/
def places (width n : Nat) : List UInt8 :=
  (List.range width).map fun i => (n / 256 ^ i).toUInt8

theorem split_eq_places (width n : Nat) : split width n = places width n := by
  refine List.ext_getElem? fun i => ?_
  rcases Nat.lt_or_ge i width with hi | hi
  · rw [getElem?_split hi, places, List.getElem?_map, List.getElem?_range hi, Option.map_some]
  · rw [List.getElem?_eq_none (by rwa [length_split]),
      List.getElem?_eq_none (by rwa [places, List.length_map, List.length_range])]

@[simp] theorem length_places (width n : Nat) : (places width n).length = width := by
  simp [places]

theorem combine_places {width n : Nat} (h : n < 256 ^ width) : combine (places width n) = n := by
  rw [← split_eq_places, combine_split, Nat.mod_eq_of_lt h]

end LittleEndian

open LittleEndian

/-! ### Calls -/

namespace Memory

/-- **A call that writes.**  A binary32 number is given by its bits. -/
inductive Call
  | write8 (a : UInt32) (v : UInt8)
  | write16 (a : UInt32) (v : UInt16)
  | write32 (a : UInt32) (v : UInt32)
  | writeReal (a : UInt32) (bits : UInt32)
  | loadProgram (a : UInt32) (ws : List UInt32)
  | loadData (a : UInt32) (bs : List UInt8)
  | clear

namespace Call

/-- What a call does to memory, and why it is refused, if it is. -/
def run (m : Memory) : Call → Memory × Option OutOfBounds
  | write8 a v => m.write8 a v
  | write16 a v => m.write16 a v
  | write32 a v => m.write32 a v
  | writeReal a bits => m.write32 a bits
  | loadProgram a ws => m.writeWords a ws
  | loadData a bs => m.write a bs
  | clear => (m.clear, none)

/-- **What a call stores**, and from which address on: the little-endian bytes of its numbers.  To
clear memory is not to store anything. -/
def stores : Call → Option (UInt32 × List UInt8)
  | write8 a v => some (a, places 1 v.toNat)
  | write16 a v => some (a, places 2 v.toNat)
  | write32 a v => some (a, places 4 v.toNat)
  | writeReal a bits => some (a, places 4 bits.toNat)
  | loadProgram a ws => some (a, ws.flatMap fun w => places 4 w.toNat)
  | loadData a bs => some (a, bs)
  | clear => none

/-- Every call but one writes the bytes that it stores. -/
theorem run_of_stores {m : Memory} {c : Call} {a : UInt32} {bs : List UInt8}
    (h : c.stores = some (a, bs)) : c.run m = m.write a bs := by
  cases c with
  | loadData a bs =>
      obtain ⟨rfl, rfl⟩ := Prod.mk.inj (Option.some.inj h)
      rfl
  | write8 a v =>
      obtain ⟨rfl, rfl⟩ := Prod.mk.inj (Option.some.inj h)
      have hbyte : v.toNat.toUInt8 = v := UInt8.ofNat_toNat
      rw [← split_eq_places, split, split, hbyte]
      rfl
  | write16 a v =>
      obtain ⟨rfl, rfl⟩ := Prod.mk.inj (Option.some.inj h)
      rw [← split_eq_places]
      rfl
  | write32 a v | writeReal a v =>
      obtain ⟨rfl, rfl⟩ := Prod.mk.inj (Option.some.inj h)
      rw [← split_eq_places]
      rfl
  | loadProgram a ws =>
      obtain ⟨rfl, rfl⟩ := Prod.mk.inj (Option.some.inj h)
      simp only [← split_eq_places]
      rfl
  | clear => simp [stores] at h

theorem eq_clear_of_stores {c : Call} (h : c.stores = none) : c = clear := by
  cases c with
  | clear => rfl
  | write8 | write16 | write32 | writeReal | loadProgram | loadData => exact nomatch h

end Call

/-- Memory after some calls, the refused ones among them. -/
def callAll (m : Memory) (cs : List Call) : Memory :=
  cs.foldl (fun m c => (c.run m).1) m

end Memory

namespace ByteMap

/-- What a call makes of a map: nothing is stored unless all of it lies below the size. -/
def after (f : ByteMap) (c : Memory.Call) : ByteMap :=
  match c.stores with
  | some (a, bs) => if a.toNat + bs.length ≤ f.size then f.store a.toNat bs else f
  | none => zeros f.size

/-- What some calls make of a map. -/
def afterAll (f : ByteMap) (cs : List Memory.Call) : ByteMap :=
  cs.foldl after f

@[simp] theorem size_after (f : ByteMap) (c : Memory.Call) : (f.after c).size = f.size := by
  unfold after
  split
  · split
    · rfl
    · rfl
  · rfl

@[simp] theorem size_afterAll (f : ByteMap) (cs : List Memory.Call) :
    (f.afterAll cs).size = f.size := by
  induction cs generalizing f with
  | nil => rfl
  | cons c cs ih => exact (ih (f.after c)).trans (size_after f c)

end ByteMap

/-! ### Memory and map in agreement -/

namespace Memory

variable {m : Memory} {f : ByteMap} {c : Call} {a b : UInt32} {width : Nat} {bs : List UInt8}

/-- **Memory shows a map**: it has the bytes of the map. -/
structure Shows (m : Memory) (f : ByteMap) : Prop where
  /-- The sizes agree. -/
  size : m.size = f.size
  /-- The bytes agree. -/
  byte : ∀ x < f.size, m.byte x = f.byte x

namespace Shows

theorem zeros (n : Nat) : (zeros n).Shows (ByteMap.zeros n) :=
  ⟨size_zeros n, fun x _ => byte_zeros n x⟩

theorem inRange_iff (h : m.Shows f) : m.InRange a width ↔ a.toNat + width ≤ f.size := by
  rw [← h.size]
  exact Iff.rfl

theorem put (h : m.Shows f) {a : Nat} (hle : a + bs.length ≤ f.size) :
    (m.put a bs).Shows (f.store a bs) := by
  have hin : a + bs.length ≤ m.size := h.size ▸ hle
  refine ⟨(size_put m a bs).trans h.size, fun x hx => ?_⟩
  by_cases hmem : a ≤ x ∧ x < a + bs.length
  · have hbyte := byte_put_add hin (show x - a < bs.length by omega)
    rw [Nat.add_sub_cancel' hmem.1] at hbyte
    rw [hbyte, ByteMap.byte_store_of_mem hmem]
  · rw [byte_put_of_not_mem hin hmem, ByteMap.byte_store_of_not_mem hmem]
    exact h.byte x hx

/-- **One call keeps memory and map in agreement.** -/
theorem after (h : m.Shows f) (c : Call) : (c.run m).1.Shows (f.after c) := by
  unfold ByteMap.after
  split
  · rename_i a bs hc
    simp only [Call.run_of_stores hc, write, h.inRange_iff]
    split
    · rename_i hle
      exact h.put hle
    · exact h
  · rename_i hc
    obtain rfl := Call.eq_clear_of_stores hc
    show (Memory.zeros m.size).Shows _
    rw [h.size]
    exact zeros f.size

/-- **Any calls keep memory and map in agreement.** -/
theorem afterAll (h : m.Shows f) (cs : List Call) : (m.callAll cs).Shows (f.afterAll cs) := by
  induction cs generalizing m f with
  | nil => exact h
  | cons c cs ih => exact ih (h.after c)

/-- **What is refused can be told from the size of the map.** -/
theorem refusal_run (h : m.Shows f) (hc : c.stores = some (a, bs)) :
    (c.run m).2 =
      if f.size < a.toNat + bs.length then some ⟨bs.length, a, f.size⟩ else none := by
  simp only [Call.run_of_stores hc, write, h.inRange_iff, h.size]
  by_cases hle : a.toNat + bs.length ≤ f.size
  · rw [if_pos hle, if_neg (Nat.not_lt.2 hle)]
  · rw [if_neg hle, if_pos (Nat.lt_of_not_le hle)]

/-- **What is read can be told from the map.** -/
theorem read (h : m.Shows f) (a : UInt32) (width : Nat) :
    m.read a width = if a.toNat + width ≤ f.size then .ok (f.number a.toNat width)
      else .error ⟨width, a, f.size⟩ := by
  simp only [Memory.read, h.inRange_iff, h.size]
  by_cases hle : a.toNat + width ≤ f.size
  · have hslice : m.slice a.toNat width = (List.range' a.toNat width).map f.byte := by
      refine List.map_congr_left fun x hx => h.byte x ?_
      have hlt := (List.mem_range'_1.1 hx).2
      omega
    rw [if_pos hle, if_pos hle, hslice, ByteMap.number_eq_combine]
  · rw [if_neg hle, if_neg hle]

end Shows

/-! ### What is read -/

/-- **What is read of a map**: the number in the bytes that are named, or a refusal if one of them
has no place in the map. -/
def Answers {α : Type} (f : ByteMap) (a : UInt32) (width : Nat) (toNat : α → Nat)
    (r : Except OutOfBounds α) : Prop :=
  if f.size < a.toNat + width then r = .error ⟨width, a, f.size⟩
  else ∃ v, r = .ok v ∧ toNat v = f.number a.toNat width

section Answers

variable {α : Type} {toNat : α → Nat} {ofNat : Nat → α} {r : Except OutOfBounds α}

theorem Answers.exists_ok (h : Answers f a width toNat r) (hle : a.toNat + width ≤ f.size) :
    ∃ v, r = .ok v ∧ toNat v = f.number a.toNat width := by
  rwa [Answers, if_neg (Nat.not_lt.2 hle)] at h

/-- A number of the width that is read loses nothing in its type. -/
theorem Shows.answers (h : m.Shows f) (hof : ∀ n < 256 ^ width, toNat (ofNat n) = n)
    (a : UInt32) : Answers f a width toNat ((m.read a width).map ofNat) := by
  rw [h.read]
  unfold Answers
  split
  · rename_i hlt
    rw [if_neg (Nat.not_le.2 hlt)]
    rfl
  · rename_i hge
    rw [if_pos (Nat.not_lt.1 hge)]
    exact ⟨_, rfl, hof _ (f.number_lt a.toNat width)⟩

theorem Shows.answers_read8 (h : m.Shows f) (a : UInt32) :
    Answers f a 1 UInt8.toNat (m.read8 a) :=
  h.answers (fun _ hn => UInt8.toNat_ofNat_of_lt' hn) a

theorem Shows.answers_read16 (h : m.Shows f) (a : UInt32) :
    Answers f a 2 UInt16.toNat (m.read16 a) :=
  h.answers (fun _ hn => UInt16.toNat_ofNat_of_lt' hn) a

theorem Shows.answers_read32 (h : m.Shows f) (a : UInt32) :
    Answers f a 4 UInt32.toNat (m.read32 a) :=
  h.answers (fun _ hn => UInt32.toNat_ofNat_of_lt' hn) a

end Answers

/-! ### Written and read back -/

namespace Shows

/-- A number that was written is the number in its bytes. -/
theorem number_after {n : Nat} (hc : c.stores = some (a, places width n)) (hn : n < 256 ^ width)
    (hle : a.toNat + width ≤ f.size) : (f.after c).number a.toNat width = n := by
  have hafter : f.after c = f.store a.toNat (places width n) := by
    simp only [ByteMap.after, hc, length_places, if_pos hle]
  have hstored := f.number_store a.toNat (places width n)
  rwa [length_places, combine_places hn, ← hafter] at hstored

theorem read8_write8 (h : m.Shows f) (v : UInt8) (hle : a.toNat + 1 ≤ f.size) :
    ((Call.write8 a v).run m).1.read8 a = .ok v := by
  have hin : a.toNat + 1 ≤ (f.after (.write8 a v)).size := by rwa [ByteMap.size_after]
  obtain ⟨w, hw, hnumber⟩ := ((h.after (.write8 a v)).answers_read8 a).exists_ok hin
  rw [number_after rfl v.toNat_lt hle] at hnumber
  rw [hw, UInt8.toNat_inj.1 hnumber]

theorem read16_write16 (h : m.Shows f) (v : UInt16) (hle : a.toNat + 2 ≤ f.size) :
    ((Call.write16 a v).run m).1.read16 a = .ok v := by
  have hin : a.toNat + 2 ≤ (f.after (.write16 a v)).size := by rwa [ByteMap.size_after]
  obtain ⟨w, hw, hnumber⟩ := ((h.after (.write16 a v)).answers_read16 a).exists_ok hin
  rw [number_after rfl v.toNat_lt hle] at hnumber
  rw [hw, UInt16.toNat_inj.1 hnumber]

/-- A word is read back, whether it was written as a word or as a binary32 number. -/
theorem read32_write32 (h : m.Shows f) {v : UInt32} (hc : c.stores = some (a, places 4 v.toNat))
    (hle : a.toNat + 4 ≤ f.size) : (c.run m).1.read32 a = .ok v := by
  have hin : a.toNat + 4 ≤ (f.after c).size := by rwa [ByteMap.size_after]
  obtain ⟨w, hw, hnumber⟩ := ((h.after c).answers_read32 a).exists_ok hin
  rw [number_after hc v.toNat_lt hle] at hnumber
  rw [hw, UInt32.toNat_inj.1 hnumber]

/-- **A call leaves other ranges alone**, whether it is refused or not. -/
theorem read_run_of_disjoint (h : m.Shows f) (hc : c.stores = some (a, bs))
    (hdisjoint : b.toNat + width ≤ a.toNat ∨ a.toNat + bs.length ≤ b.toNat) :
    (c.run m).1.read b width = m.read b width := by
  have hnumber : (f.after c).number b.toNat width = f.number b.toNat width := by
    simp only [ByteMap.after, hc]
    split
    · exact ByteMap.number_store_of_disjoint hdisjoint
    · rfl
  rw [(h.after c).read, h.read, ByteMap.size_after, hnumber]

/-- **A word is two numbers of sixteen bits.** -/
theorem read32_eq_read16 (h : m.Shows f) (hsize : f.size < 2 ^ 32) (hle : a.toNat + 4 ≤ f.size) :
    ∃ v low high, m.read32 a = .ok v ∧ m.read16 a = .ok low ∧ m.read16 (a + 2) = .ok high ∧
      v.toNat = low.toNat + 2 ^ 16 * high.toNat := by
  have hnext : (a + 2).toNat = a.toNat + 2 := by
    rw [UInt32.toNat_add]
    exact Nat.mod_eq_of_lt (by simp; omega)
  obtain ⟨v, hv, hword⟩ := (h.answers_read32 a).exists_ok hle
  obtain ⟨low, hlow, hfirst⟩ := (h.answers_read16 a).exists_ok (by omega)
  obtain ⟨high, hhigh, hsecond⟩ := (h.answers_read16 (a + 2)).exists_ok (by omega)
  refine ⟨v, low, high, hv, hlow, hhigh, ?_⟩
  rw [hword, hfirst, hsecond, hnext]
  exact f.number_add a.toNat 2 2

end Shows

/-! ### Memory as a map -/

/-- **Memory behaves as a map.** -/
structure ActsAs (m : Memory) (f : ByteMap) : Prop extends m.Shows f where
  /-- A call stores the bytes of its numbers, or nothing. -/
  after : ∀ c : Call, (c.run m).1.Shows (f.after c)
  /-- A call is refused exactly if one of its bytes has no place in memory. -/
  refusal : ∀ (c : Call) a bs, c.stores = some (a, bs) → (c.run m).2 =
    if f.size < a.toNat + bs.length then some ⟨bs.length, a, f.size⟩ else none
  /-- To clear memory is never refused. -/
  unrefused : ∀ c : Call, c.stores = none → (c.run m).2 = none
  /-- A call that is refused changes nothing. -/
  kept : ∀ (c : Call) e, (c.run m).2 = some e → (c.run m).1 = m
  /-- A byte is read of the map. -/
  read8 : ∀ a, Answers f a 1 UInt8.toNat (m.read8 a)
  /-- A number of two bytes is read of the map. -/
  read16 : ∀ a, Answers f a 2 UInt16.toNat (m.read16 a)
  /-- A word is read of the map. -/
  read32 : ∀ a, Answers f a 4 UInt32.toNat (m.read32 a)
  /-- A byte just written is read back. -/
  back8 : ∀ a v, a.toNat + 1 ≤ f.size → ((Call.write8 a v).run m).1.read8 a = .ok v
  /-- A number of two bytes just written is read back. -/
  back16 : ∀ a v, a.toNat + 2 ≤ f.size → ((Call.write16 a v).run m).1.read16 a = .ok v
  /-- A word just written is read back, as a number or as a binary32 number. -/
  back32 : ∀ a v, a.toNat + 4 ≤ f.size → ∀ c ∈ [Call.write32 a v, Call.writeReal a v],
    (c.run m).1.read32 a = .ok v
  /-- A call leaves other ranges alone. -/
  apart : ∀ (c : Call) a bs, c.stores = some (a, bs) → ∀ b width,
    b.toNat + width ≤ a.toNat ∨ a.toNat + bs.length ≤ b.toNat →
      (c.run m).1.read b width = m.read b width
  /-- A word is two numbers of two bytes. -/
  halves : ∀ a, a.toNat + 4 ≤ f.size → ∃ v low high, m.read32 a = .ok v ∧
    m.read16 a = .ok low ∧ m.read16 (a + 2) = .ok high ∧
      v.toNat = low.toNat + 2 ^ 16 * high.toNat
  /-- A program is loaded as the bytes of its words. -/
  asData : ∀ a ws, (Call.loadProgram a ws).run m =
    (Call.loadData a (ws.flatMap fun w => places 4 w.toNat)).run m
  /-- To load a program is to write its words one at a time, each with its own test. -/
  oneByOne : ∀ a ws, m.copyWords a ws = (Call.loadProgram a ws).run m

theorem Call.run_of_refused {e : OutOfBounds} (h : (c.run m).2 = some e) : (c.run m).1 = m := by
  cases hc : c.stores with
  | none =>
      obtain rfl := eq_clear_of_stores hc
      simp [run] at h
  | some stored =>
      obtain ⟨a, bs⟩ := stored
      rw [run_of_stores hc, write] at h ⊢
      split at h
      · simp at h
      · rename_i hout
        rw [if_neg hout]

theorem Shows.actsAs (h : m.Shows f) (hsize : f.size < 2 ^ 32) : m.ActsAs f where
  toShows := h
  after := h.after
  refusal c a bs hc := h.refusal_run hc
  unrefused c hc := by
    obtain rfl := Call.eq_clear_of_stores hc
    rfl
  kept c e he := Call.run_of_refused he
  read8 := h.answers_read8
  read16 := h.answers_read16
  read32 := h.answers_read32
  back8 a v hle := h.read8_write8 v hle
  back16 a v hle := h.read16_write16 v hle
  back32 a v hle c hc := by
    rcases List.mem_pair.1 hc with rfl | rfl
    · exact h.read32_write32 rfl hle
    · exact h.read32_write32 rfl hle
  apart c a bs hc b width hdisjoint := h.read_run_of_disjoint hc hdisjoint
  halves a hle := h.read32_eq_read16 hsize hle
  asData a ws := by
    have hprogram : (Call.loadProgram a ws).run m = m.write a _ := Call.run_of_stores rfl
    rw [hprogram]
    rfl
  oneByOne a ws := copyWords_eq (h.size ▸ hsize) a ws

/-- **Memory is a little-endian byte map**: after any calls, memory of any size that there is behaves
as the map that the same calls make of zeros. -/
theorem actsAs_of_ofSize {n : Nat} (h : ofSize n = .ok m) (hn : n ≤ largestMemory)
    (cs : List Call) : (m.callAll cs).ActsAs ((ByteMap.zeros n).afterAll cs) := by
  have hshows : m.Shows (ByteMap.zeros n) := by
    unfold ofSize at h
    split at h
    · exact nomatch h
    · obtain rfl := Except.ok.inj h
      exact Shows.zeros n
  refine (hshows.afterAll cs).actsAs ?_
  rw [ByteMap.size_afterAll]
  exact Nat.lt_of_le_of_lt hn (by decide)

/-- Calls that overlap, with a program that does not fit and a word next to the largest address of
32 bits. -/
def overlappingCalls : List Call :=
  [.write32 2 0xA1B2C3D4, .write16 5 0x0102, .loadProgram 4 [1, 2], .write8 3 0xFF,
    .write32 0xFFFFFFFE 7, .loadData 0 [9, 8]]

/-- The two calls that are refused have left no byte. -/
theorem actsAs_overlappingCalls :
    ∃ m, ofSize 8 = .ok m ∧ (8 : Nat) ≤ largestMemory ∧
      (m.callAll overlappingCalls).bytes.toList = [9, 8, 0xD4, 0xFF, 0xB2, 0x02, 0x01, 0] ∧
      (m.callAll overlappingCalls).ActsAs ((ByteMap.zeros 8).afterAll overlappingCalls) :=
  ⟨zeros 8, rfl, by decide, by decide, actsAs_of_ofSize rfl (by decide) _⟩

end Memory

end WordMachine
