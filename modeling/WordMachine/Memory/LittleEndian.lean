/-
**Little-endian numbers.**

A number is stored in consecutive bytes, the least significant first.

Main definitions:

* `LittleEndian.split` — the bytes of a number;
* `LittleEndian.combine` — the number of some bytes.

Main results:

* `LittleEndian.combine_split`, `LittleEndian.split_combine` — the two undo each other.
-/

import WordMachine.Power

set_option relaxedAutoImplicit false
set_option autoImplicit false

namespace WordMachine.LittleEndian

/-- The lowest `width` bytes of a number, the least significant first. -/
def split : Nat → Nat → List UInt8
  | 0, _ => []
  | width + 1, n => n.toUInt8 :: split width (n / 256)

/-- The number that some bytes hold, the least significant first. -/
def combine : List UInt8 → Nat
  | [] => 0
  | b :: bs => b.toNat + 256 * combine bs

@[simp] theorem length_split (width n : Nat) : (split width n).length = width := by
  induction width generalizing n with
  | zero => rfl
  | succ width ih => simp [split, ih]

/-- Bytes hold numbers of their own width only. -/
theorem combine_lt (bs : List UInt8) : combine bs < 256 ^ bs.length := by
  induction bs with
  | nil => simp [combine]
  | cons b bs ih =>
    have hb : b.toNat < 256 := b.toNat_lt
    simp only [combine, List.length_cons, Nat.pow_succ]
    omega

/-- Splitting keeps what fits in the width. -/
theorem combine_split (width n : Nat) : combine (split width n) = n % 256 ^ width := by
  induction width generalizing n with
  | zero => simp [split, combine, Nat.mod_one]
  | succ width ih =>
    have hb : n.toUInt8.toNat = n % 256 := by simp [Nat.toUInt8]
    rw [split, combine, ih, hb, Nat.pow_succ, Nat.mul_comm (256 ^ width) 256, Nat.mod_mul]

/-- Combining loses nothing. -/
theorem split_combine (bs : List UInt8) : split bs.length (combine bs) = bs := by
  induction bs with
  | nil => rfl
  | cons b bs ih =>
    have hb : b.toNat < 256 := b.toNat_lt
    have hq : (b.toNat + 256 * combine bs) / 256 = combine bs := by omega
    have hr : (b.toNat + 256 * combine bs).toUInt8 = b := by
      apply UInt8.toNat_inj.1
      simp [Nat.toUInt8]
    rw [List.length_cons, combine, split, hq, hr, ih]

end WordMachine.LittleEndian
