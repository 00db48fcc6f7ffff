/-
**Flags in the flags word.**

A flag is one bit of the flags word.  Setting flags changes the bits of these flags only, and of the
registers only the flags word.

Main results:

* `RegisterFile.testBit_setFlag`, `RegisterFile.flag_setFlag` — the bits and the flags after one
  flag was set;
* `RegisterFile.testBit_setFlags_of_not_mem`, `RegisterFile.get_setFlags_of_ne` — what setting flags
  leaves alone;
* `RegisterFile.flags_setFlags` — the four flags that a result sets.
-/

import WordMachine.RegisterFile

set_option relaxedAutoImplicit false
set_option autoImplicit false

namespace WordMachine.RegisterFile

variable {r : Register} {k : Nat}

@[simp] theorem get_set_self (rs : RegisterFile) (r : Register) (v : UInt32) :
    (rs.set r v).get r = v := by
  rw [get_set, if_pos rfl]

theorem get_set_of_ne {s : Register} (h : r ≠ s) (rs : RegisterFile) (v : UInt32) :
    (rs.set r v).get s = rs.get s := by
  rw [get_set, if_neg h]

theorem flag_set_of_ne (h : r ≠ .flags) (rs : RegisterFile) (v : UInt32) (f : Flag) :
    (rs.set r v).flag f = rs.flag f := by
  rw [flag, get_set_of_ne h, flag]

/-! ### One flag -/

theorem testBit_mask (f : Flag) (k : Nat) : (mask f).toNat.testBit k = decide (f.bit = k) := by
  have hmask : (mask f).toNat = 2 ^ f.bit := by cases f <;> decide
  rw [hmask, Nat.testBit_two_pow]

theorem testBit_and_not_mask (w : UInt32) (f : Flag) (k : Nat) :
    (w &&& ~~~ mask f).toNat.testBit k = (w.toNat.testBit k && !decide (f.bit = k)) := by
  have hmask : (mask f).toBitVec.getLsbD k = decide (f.bit = k) := testBit_mask f k
  show (w &&& ~~~ mask f).toBitVec.getLsbD k = (w.toBitVec.getLsbD k && !decide (f.bit = k))
  rw [UInt32.toBitVec_and, UInt32.toBitVec_not, BitVec.getLsbD_and, BitVec.getLsbD_not, hmask]
  by_cases hk : k < 32
  · simp [hk]
  · simp [BitVec.getLsbD_of_ge _ _ (Nat.le_of_not_lt hk)]

/-- The bits of the flags word after a flag was set. -/
theorem testBit_setFlag (rs : RegisterFile) (f : Flag) (on : Bool) (k : Nat) :
    ((rs.setFlag f on).get .flags).toNat.testBit k =
      if f.bit = k then on else (rs.get .flags).toNat.testBit k := by
  rw [setFlag, get_set_self]
  cases on with
  | true =>
      rw [if_pos rfl, UInt32.toNat_or, Nat.testBit_or, testBit_mask]
      by_cases h : f.bit = k <;> simp [h]
  | false =>
      rw [if_neg Bool.false_ne_true, testBit_and_not_mask]
      by_cases h : f.bit = k <;> simp [h]

/-- A flag holds what was last set. -/
theorem flag_setFlag (rs : RegisterFile) (f : Flag) (on : Bool) (g : Flag) :
    (rs.setFlag f on).flag g = if f = g then on else rs.flag g := by
  rw [flag, testBit_setFlag]
  by_cases h : f = g
  · rw [if_pos h, if_pos (congrArg Flag.bit h)]
  · rw [if_neg h, if_neg fun hbit => h (Flag.bit_injective hbit), flag]

theorem get_setFlag_of_ne (h : r ≠ .flags) (rs : RegisterFile) (f : Flag) (on : Bool) :
    (rs.setFlag f on).get r = rs.get r :=
  get_set_of_ne (Ne.symm h) rs _

/-! ### Several flags -/

theorem setFlags_cons (rs : RegisterFile) (f : Flag) (on : Bool) (fs : List (Flag × Bool)) :
    rs.setFlags ((f, on) :: fs) = (rs.setFlag f on).setFlags fs := rfl

theorem get_setFlags_of_ne (h : r ≠ .flags) (rs : RegisterFile) (fs : List (Flag × Bool)) :
    (rs.setFlags fs).get r = rs.get r := by
  induction fs generalizing rs with
  | nil => rfl
  | cons x fs ih =>
      obtain ⟨f, on⟩ := x
      rw [setFlags_cons, ih, get_setFlag_of_ne h]

theorem testBit_setFlags_of_not_mem {fs : List (Flag × Bool)} (h : ∀ x ∈ fs, x.1.bit ≠ k)
    (rs : RegisterFile) :
    ((rs.setFlags fs).get .flags).toNat.testBit k = (rs.get .flags).toNat.testBit k := by
  induction fs generalizing rs with
  | nil => rfl
  | cons x fs ih =>
      obtain ⟨f, on⟩ := x
      have hf : f.bit ≠ k := h (f, on) List.mem_cons_self
      rw [setFlags_cons, ih fun y hy => h y (List.mem_cons_of_mem _ hy), testBit_setFlag, if_neg hf]

/-- Setting flags leaves the other flags alone. -/
theorem flag_setFlags_of_ne {fs : List (Flag × Bool)} {g : Flag} (h : ∀ x ∈ fs, x.1 ≠ g)
    (rs : RegisterFile) : (rs.setFlags fs).flag g = rs.flag g :=
  testBit_setFlags_of_not_mem (fun x hx hbit => h x hx (Flag.bit_injective hbit)) rs

/-- **The four flags that a result sets.** -/
theorem flags_setFlags (rs : RegisterFile) (zero sign carry overflow : Bool) :
    let rs' := rs.setFlags
      [(.zero, zero), (.sign, sign), (.carry, carry), (.overflow, overflow)]
    rs'.flag .zero = zero ∧ rs'.flag .sign = sign ∧ rs'.flag .carry = carry ∧
      rs'.flag .overflow = overflow := by
  simp [setFlags, flag_setFlag]

end WordMachine.RegisterFile
