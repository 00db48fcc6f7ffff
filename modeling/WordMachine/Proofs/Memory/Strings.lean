/-
**Strings in memory.**

A string is a row of bytes other than zero with a zero after it.  At each address there is at most
one, and there is one exactly when some byte from there on is zero.

Reading a string takes one byte after the other.  Nothing bounds that loop but what it finds: it ends
at a zero, or at the end of memory, where the next byte is refused.  Addresses have 32 bits, and
memory ends before they could wrap; so the loop takes no more reads than memory has bytes from the
address on, and one more.

Main definitions:

* `Memory.HoldsString` — a string at an address;
* `Memory.scan` — reading one byte after the other, with a bound on the number of reads.

Main results:

* `Memory.cString_eq_ok_iff` — **what is read is the string**;
* `Memory.exists_holdsString_iff` — where there is one;
* `Memory.scan_eq_cString` — the loop ends, and has read the string or is refused;
* `Memory.holdsString_put` — bytes that were put with a zero after them.
-/

import WordMachine.Proofs.Memory.Blocks

set_option relaxedAutoImplicit false
set_option autoImplicit false

namespace WordMachine.Memory

variable {m : Memory} {a x : Nat} {bs cs : List UInt8}

/-! ### The search for a zero -/

theorem le_firstZero (m : Memory) (a : Nat) : a ≤ m.firstZero a := by
  fun_induction firstZero m a with
  | case1 a hlt hzero => exact Nat.le_refl a
  | case2 a hlt hzero ih => exact Nat.le_of_succ_le ih
  | case3 a hlt => exact Nat.le_refl a

/-- The search for a zero stops at the end of memory, if it does not start beyond it. -/
theorem firstZero_le (m : Memory) (a : Nat) : m.firstZero a ≤ max a m.size := by
  fun_induction firstZero m a with
  | case1 a hlt hzero => exact Nat.le_max_left a m.size
  | case2 a hlt hzero ih => omega
  | case3 a hge => exact Nat.le_max_left a m.size

theorem byte_firstZero (h : m.firstZero a < m.size) : m.byte (m.firstZero a) = 0 := by
  fun_induction firstZero m a with
  | case1 a hlt hzero => exact hzero
  | case2 a hlt hzero ih => exact ih h
  | case3 a hge => exact absurd h hge

theorem byte_ne_zero_of_lt_firstZero (hx : a ≤ x) (h : x < m.firstZero a) : m.byte x ≠ 0 := by
  fun_induction firstZero m a with
  | case1 a hlt hzero => omega
  | case2 a hlt hzero ih =>
      rcases Nat.eq_or_lt_of_le hx with rfl | hx
      · exact hzero
      · exact ih hx h
  | case3 a hge => omega

/-- Nothing is read of memory beyond a zero. -/
theorem firstZero_le_of_byte (hx : a ≤ x) (h : m.byte x = 0) : m.firstZero a ≤ x :=
  Nat.le_of_not_lt fun hlt => byte_ne_zero_of_lt_firstZero hx hlt h

/-! ### Strings -/

/-- **A string** at an address: bytes other than zero with a zero after them, inside memory. -/
structure HoldsString (m : Memory) (a : Nat) (bs : List UInt8) : Prop where
  inside : a + bs.length < m.size
  bytes : m.slice a bs.length = bs
  nonzero : ∀ b ∈ bs, b ≠ 0
  zero : m.byte (a + bs.length) = 0

theorem holdsString_slice (h : m.firstZero a < m.size) :
    m.HoldsString a (m.slice a (m.firstZero a - a)) := by
  have hend : a + (m.slice a (m.firstZero a - a)).length = m.firstZero a := by
    rw [length_slice]
    exact Nat.add_sub_cancel' (m.le_firstZero a)
  refine ⟨?_, ?_, ?_, ?_⟩
  · rwa [hend]
  · rw [length_slice]
  · intro b hb
    obtain ⟨x, hx, rfl⟩ := List.mem_map.1 hb
    obtain ⟨hle, hlt⟩ := List.mem_range'_1.1 hx
    exact byte_ne_zero_of_lt_firstZero hle (by omega)
  · rw [hend]
    exact byte_firstZero h

theorem HoldsString.firstZero_eq (h : m.HoldsString a bs) : m.firstZero a = a + bs.length := by
  refine Nat.le_antisymm (firstZero_le_of_byte (Nat.le_add_right _ _) h.zero) ?_
  refine Nat.le_of_not_lt fun hlt => ?_
  have hle := m.le_firstZero a
  have hin := h.inside
  -- The byte at which the search has stopped is one of the bytes of the string.
  have hmem : m.byte (m.firstZero a) ∈ m.slice a bs.length :=
    List.mem_map_of_mem (List.mem_range'_1.2 ⟨hle, hlt⟩)
  rw [h.bytes] at hmem
  exact h.nonzero _ hmem (byte_firstZero (by omega))

/-- At an address there is at most one string. -/
theorem HoldsString.unique (h : m.HoldsString a bs) (h' : m.HoldsString a cs) : bs = cs := by
  have hlength : bs.length = cs.length :=
    Nat.add_left_cancel (h.firstZero_eq.symm.trans h'.firstZero_eq)
  rw [← h.bytes, hlength, h'.bytes]

/-- **There is a string where some byte is zero** from there on. -/
theorem exists_holdsString_iff :
    (∃ bs, m.HoldsString a bs) ↔ ∃ x, a ≤ x ∧ x < m.size ∧ m.byte x = 0 := by
  constructor
  · rintro ⟨bs, h⟩
    exact ⟨_, Nat.le_add_right _ _, h.inside, h.zero⟩
  · rintro ⟨x, hx, hlt, hzero⟩
    exact ⟨_, holdsString_slice (Nat.lt_of_le_of_lt (firstZero_le_of_byte hx hzero) hlt)⟩

/-- **What is read is the string** at the address. -/
theorem cString_eq_ok_iff {a : UInt32} : m.cString a = .ok bs ↔ m.HoldsString a.toNat bs := by
  unfold cString
  constructor
  · intro h
    simp only at h
    split at h
    · rename_i hstop
      obtain rfl := Except.ok.inj h
      exact holdsString_slice hstop
    · exact nomatch h
  · intro h
    simp only [h.firstZero_eq, if_pos h.inside, Nat.add_sub_cancel_left, h.bytes]

/-- Bytes that were put are a string up to a zero among them. -/
theorem holdsString_put_append (h : a + (bs ++ 0 :: cs).length ≤ m.size)
    (hbs : ∀ b ∈ bs, b ≠ 0) : (m.put a (bs ++ 0 :: cs)).HoldsString a bs := by
  have hlength : bs.length < (bs ++ 0 :: cs).length := by
    rw [List.length_append, List.length_cons]
    omega
  refine ⟨?_, ?_, hbs, ?_⟩
  · rw [size_put]
    omega
  · refine List.ext_getElem (length_slice _ _ _) ?_
    intro k h₁ hk
    have hget : ((m.put a (bs ++ 0 :: cs)).slice a bs.length)[k] =
        (m.put a (bs ++ 0 :: cs)).byte (a + k) := by simp [slice]
    rw [hget, byte_put_add h (Nat.lt_trans hk hlength), List.getElem_append_left hk]
  · rw [byte_put_add h hlength]
    simp

/-- A row of bytes with a zero after it has a first zero. -/
theorem exists_append_zero (bs : List UInt8) :
    ∃ rest, bs ++ [0] = bs.takeWhile (· != 0) ++ 0 :: rest := by
  induction bs with
  | nil => exact ⟨[], rfl⟩
  | cons b bs ih =>
      by_cases hb : b = 0
      · exact ⟨bs ++ [0], by simp [hb]⟩
      · obtain ⟨rest, hrest⟩ := ih
        exact ⟨rest, by simp [hb, hrest]⟩

/-- Bytes that were put with a zero after them are a string up to their first zero. -/
theorem holdsString_put (h : a + (bs.length + 1) ≤ m.size) :
    (m.put a (bs ++ [0])).HoldsString a (bs.takeWhile (· != 0)) := by
  have hfront : ∀ b ∈ bs.takeWhile (· != 0), b ≠ 0 := by
    intro b hb
    exact bne_iff_ne.1 (List.all_eq_true.1 List.all_takeWhile b hb)
  obtain ⟨rest, hrest⟩ := exists_append_zero bs
  rw [hrest]
  refine holdsString_put_append ?_ hfront
  rw [← hrest, List.length_append]
  exact h

/-! ### One byte after the other -/

theorem read8_of_lt {a : UInt32} (h : a.toNat < m.size) :
    m.read8 a = .ok (m.byte a.toNat) := by
  have hcombine : LittleEndian.combine (m.slice a.toNat 1) = (m.byte a.toNat).toNat := rfl
  rw [read8, read, if_pos (show m.InRange a 1 from h), hcombine, Except.map, Nat.toUInt8,
    UInt8.ofNat_toNat]

theorem read8_of_le {a : UInt32} (h : m.size ≤ a.toNat) :
    m.read8 a = .error ⟨1, a, m.size⟩ := by
  have hout : ¬ m.InRange a 1 := Nat.not_le.2 (Nat.lt_succ_of_le h)
  rw [read8, read, if_neg hout]
  rfl

/-- Beyond memory there is no byte to read. -/
theorem cString_of_le {a : UInt32} (h : m.size ≤ a.toNat) :
    m.cString a = .error ⟨1, a, m.size⟩ := by
  have hstop : m.firstZero a.toNat = a.toNat := by rw [firstZero, if_neg (Nat.not_lt.2 h)]
  simp only [cString, hstop, if_neg (Nat.not_lt.2 h), Nat.toUInt32, UInt32.ofNat_toNat]

/-- At a zero the string is empty. -/
theorem cString_of_zero {a : UInt32} (h : a.toNat < m.size) (hzero : m.byte a.toNat = 0) :
    m.cString a = .ok [] :=
  cString_eq_ok_iff.2 ⟨h, rfl, nofun, hzero⟩

/-- The next address, where it does not wrap. -/
theorem toNat_add_one {a : UInt32} (h : a.toNat + 1 < 2 ^ 32) : (a + 1).toNat = a.toNat + 1 := by
  rw [UInt32.toNat_add]
  exact Nat.mod_eq_of_lt h

/-- Another byte is the first of the string, and the rest is the string at the next address. -/
theorem cString_of_ne_zero {a : UInt32} (hsize : m.size < 2 ^ 32) (h : a.toNat < m.size)
    (hzero : m.byte a.toNat ≠ 0) :
    m.cString a = (m.cString (a + 1)).map (m.byte a.toNat :: ·) := by
  have hnext : (a + 1).toNat = a.toNat + 1 := toNat_add_one (Nat.lt_of_le_of_lt h hsize)
  have hstop : m.firstZero a.toNat = m.firstZero (a.toNat + 1) := by
    rw [firstZero, if_pos h, if_neg hzero]
  have hle := m.le_firstZero (a.toNat + 1)
  have hslice : m.slice a.toNat (m.firstZero (a.toNat + 1) - a.toNat) =
      m.byte a.toNat :: m.slice (a.toNat + 1) (m.firstZero (a.toNat + 1) - (a.toNat + 1)) := by
    have hsucc : m.firstZero (a.toNat + 1) - a.toNat =
        m.firstZero (a.toNat + 1) - (a.toNat + 1) + 1 := by omega
    rw [hsucc, slice, List.range'_succ, List.map_cons, slice]
  simp only [cString, hnext, hstop, hslice]
  split
  · rfl
  · rfl

/-- Reads one byte after the other, up to the first zero or to the first byte that is refused.  No
result means that `reads` reads have not been enough. -/
def scan (m : Memory) : Nat → UInt32 → Option (Except OutOfBounds (List UInt8))
  | 0, _ => none
  | reads + 1, a =>
    match m.read8 a with
    | .error cause => some (.error cause)
    | .ok b =>
      if b = 0 then some (.ok [])
      else (m.scan reads (a + 1)).map fun rest => rest.map (b :: ·)

/-- **Reading one byte after the other ends**, and has read the string or is refused. -/
theorem scan_eq_cString {a : UInt32} {reads : Nat} (hsize : m.size < 2 ^ 32)
    (h : m.size - a.toNat < reads) : m.scan reads a = some (m.cString a) := by
  induction reads generalizing a with
  | zero => exact absurd h (Nat.not_lt_zero _)
  | succ reads ih =>
      rcases Nat.lt_or_ge a.toNat m.size with hlt | hge
      · by_cases hzero : m.byte a.toNat = 0
        · rw [cString_of_zero hlt hzero]
          simp only [scan, read8_of_lt hlt, if_pos hzero]
        · have hnext : (a + 1).toNat = a.toNat + 1 := toNat_add_one (Nat.lt_of_le_of_lt hlt hsize)
          have hrest := ih (a := a + 1) (by omega)
          rw [cString_of_ne_zero hsize hlt hzero]
          simp only [scan, read8_of_lt hlt, if_neg hzero, hrest, Option.map_some]
      · rw [cString_of_le hge]
        simp only [scan, read8_of_le hge]

end WordMachine.Memory
