/-
**Shifts are products and quotients by powers of two.**

A shift to the left multiplies its destination by a power of two, and one to the right divides by it
and drops the remainder.  The carry flag is the last bit that left the word: bit 32 of the unbounded
product, or the highest bit of the remainder.  One law covers every count.  A count beyond 32 leaves
nothing of the word, and the last bit to leave it was one of the zeros that had come in before.

An operation on words shifts by less than 32 places.  So a shift by any count takes some cases: no
place at all, up to 31 places, 32 places, and more.  That the cases come to the law is shown bit by
bit.

Main definitions:

* `Arithmetic.shiftLeftByCases`, `Arithmetic.shiftRightByCases` — shifts by the operations on words;
* `Machine.Leaves` — the destination and the flags after a shift.

Main results:

* `Arithmetic.toNat_shiftLeft`, `Arithmetic.carry_shiftLeft`, `Arithmetic.toNat_shiftRight`,
  `Arithmetic.carry_shiftRight` — the law, for every word and every count;
* `Arithmetic.shiftLeft_eq_byCases`, `Arithmetic.shiftRight_eq_byCases` — the cases come to the law;
* `Machine.leaves_of_shift` — **the shift instructions**.
-/

import WordMachine.Proofs.Machine.Bitwise

set_option relaxedAutoImplicit false
set_option autoImplicit false

namespace WordMachine

namespace Arithmetic

variable {a n : UInt32}

/-! ### The law -/

/-- A word shifted to the left is the product with a power of two, as far as 32 bits hold it. -/
theorem toNat_shiftLeft (a n : UInt32) :
    (shiftLeft a n).1.toNat = a.toNat * 2 ^ n.toNat % 2 ^ 32 := by
  unfold shiftLeft
  split
  · exact UInt32.toNat_ofNat'
  · rename_i hn
    have hdvd : 2 ^ 32 ∣ 2 ^ n.toNat := Nat.pow_dvd_pow 2 (by omega)
    exact (Nat.mod_eq_zero_of_dvd (Nat.dvd_mul_left_of_dvd hdvd _)).symm

/-- The last bit to leave a word on its left is bit 32 of the product. -/
theorem carry_shiftLeft (a n : UInt32) :
    (shiftLeft a n).2 = (a.toNat * 2 ^ n.toNat).testBit 32 := by
  unfold shiftLeft
  split
  · rfl
  · rename_i hn
    have hbelow : ¬ 32 ≥ n.toNat := by omega
    rw [Nat.testBit_mul_two_pow, decide_eq_false hbelow, Bool.false_and]

/-- A word shifted to the right is the quotient by a power of two. -/
theorem toNat_shiftRight (a n : UInt32) :
    (shiftRight a n).1.toNat = a.toNat / 2 ^ n.toNat := by
  have ha : a.toNat < 2 ^ 32 := a.toNat_lt
  unfold shiftRight
  split
  · exact UInt32.toNat_ofNat_of_lt' (Nat.lt_of_le_of_lt (Nat.div_le_self _ _) ha)
  · rename_i hn
    have hle : 2 ^ 32 ≤ 2 ^ n.toNat := Nat.pow_le_pow_right (by decide) (by omega)
    exact (Nat.div_eq_of_lt (by omega)).symm

/-- The last bit to leave a word on its right is the one below the count, if a bit leaves it. -/
theorem carry_shiftRight (a n : UInt32) :
    (shiftRight a n).2 = (n != 0 && a.toNat.testBit (n.toNat - 1)) := by
  unfold shiftRight
  split
  · rfl
  · rename_i hn
    have hle : 2 ^ 32 ≤ 2 ^ (n.toNat - 1) := Nat.pow_le_pow_right (by decide) (by omega)
    have hzero : a.toNat.testBit (n.toNat - 1) = false :=
      Nat.testBit_lt_two_pow (Nat.lt_of_lt_of_le a.toNat_lt hle)
    rw [hzero, Bool.and_false]

/-! ### Shifts by the operations on words -/

/-- A word shifted to the left, by cases of the count. -/
def shiftLeftByCases (a n : UInt32) : UInt32 × Bool :=
  if n = 0 then (a, false)
  else if n ≤ 32 then (if n = 32 then 0 else a <<< n, (a >>> (32 - n)) &&& 1 != 0)
  else (0, false)

/-- A word shifted to the right, by cases of the count. -/
def shiftRightByCases (a n : UInt32) : UInt32 × Bool :=
  if n = 0 then (a, false)
  else if n ≤ 32 then (if n = 32 then 0 else a >>> n, (a >>> (n - 1)) &&& 1 != 0)
  else (0, false)

/-- The lowest bit of a word that was shifted by less than 32 places. -/
theorem and_one_shiftRight (a : UInt32) {k : UInt32} (hk : k.toNat < 32) :
    ((a >>> k) &&& 1 != 0) = a.toNat.testBit k.toNat := by
  have hshift : (a >>> k).toNat = a.toNat >>> k.toNat := by
    rw [UInt32.toNat_shiftRight, Nat.mod_eq_of_lt hk]
  have hand : ((a >>> k) &&& 1).toNat = a.toNat >>> k.toNat &&& 1 := by
    rw [UInt32.toNat_and, hshift]
    rfl
  rw [Nat.testBit, Nat.and_comm, ← hand, Bool.eq_iff_iff, bne_iff_ne, bne_iff_ne, ne_eq, ne_eq,
    ← UInt32.toNat_inj]
  rfl

/-- The counts for which an operation on words shifts: at least one place, and at most 31. -/
theorem count_cases (n : UInt32) :
    n = 0 ∨ (n ≠ 0 ∧ n ≤ 32 ∧ n ≠ 32 ∧ 0 < n.toNat ∧ n.toNat < 32) ∨ n = 32 ∨
      (n ≠ 0 ∧ ¬ n ≤ 32 ∧ 32 < n.toNat) := by
  have hzero : n = 0 ↔ n.toNat = 0 := UInt32.toNat_inj.symm
  have hfull : n = 32 ↔ n.toNat = 32 := UInt32.toNat_inj.symm
  have hle : n ≤ 32 ↔ n.toNat ≤ 32 := UInt32.le_iff_toNat_le
  rw [ne_eq, ne_eq, hzero, hfull, hle]
  omega

/-- **The cases of a shift to the left come to the law.** -/
theorem shiftLeft_eq_byCases (a n : UInt32) : shiftLeft a n = shiftLeftByCases a n := by
  have ha : a.toNat < 2 ^ 32 := a.toNat_lt
  refine Prod.ext (UInt32.toNat_inj.1 ?_) ?_
  · rw [toNat_shiftLeft]
    rcases count_cases n with rfl | ⟨h₀, hle, h₃₂, -, hlt⟩ | rfl | ⟨h₀, hgt, hlt⟩
    · have hone : a.toNat * 2 ^ (0 : UInt32).toNat = a.toNat := Nat.mul_one _
      rw [shiftLeftByCases, if_pos rfl, hone, Nat.mod_eq_of_lt ha]
    · rw [shiftLeftByCases, if_neg h₀, if_pos hle, if_neg h₃₂, UInt32.toNat_shiftLeft,
        Nat.mod_eq_of_lt hlt, Nat.shiftLeft_eq]
    · exact Nat.mod_eq_zero_of_dvd (Nat.dvd_mul_left _ _)
    · have hdvd : 2 ^ 32 ∣ 2 ^ n.toNat := Nat.pow_dvd_pow 2 (Nat.le_of_lt hlt)
      rw [shiftLeftByCases, if_neg h₀, if_neg hgt]
      exact Nat.mod_eq_zero_of_dvd (Nat.dvd_mul_left_of_dvd hdvd _)
  · rw [carry_shiftLeft, Nat.testBit_mul_two_pow]
    rcases count_cases n with rfl | ⟨h₀, hle, h₃₂, hpos, hlt⟩ | rfl | ⟨h₀, hgt, hlt⟩
    · exact Nat.testBit_lt_two_pow ha
    · have hsub : (32 - n).toNat = 32 - n.toNat := UInt32.toNat_sub_of_le _ _ hle
      have hcount : (32 - n).toNat < 32 := by omega
      rw [shiftLeftByCases, if_neg h₀, if_pos hle, and_one_shiftRight a hcount, hsub,
        decide_eq_true (Nat.le_of_lt hlt), Bool.true_and]
    · exact (and_one_shiftRight a (k := 0) (by decide)).symm
    · have hbelow : ¬ 32 ≥ n.toNat := by omega
      rw [shiftLeftByCases, if_neg h₀, if_neg hgt, decide_eq_false hbelow, Bool.false_and]

/-- **The cases of a shift to the right come to the law.** -/
theorem shiftRight_eq_byCases (a n : UInt32) : shiftRight a n = shiftRightByCases a n := by
  have ha : a.toNat < 2 ^ 32 := a.toNat_lt
  refine Prod.ext (UInt32.toNat_inj.1 ?_) ?_
  · rw [toNat_shiftRight]
    rcases count_cases n with rfl | ⟨h₀, hle, h₃₂, -, hlt⟩ | rfl | ⟨h₀, hgt, hlt⟩
    · exact Nat.div_one _
    · rw [shiftRightByCases, if_neg h₀, if_pos hle, if_neg h₃₂, UInt32.toNat_shiftRight,
        Nat.mod_eq_of_lt hlt, Nat.shiftRight_eq_div_pow]
    · exact Nat.div_eq_of_lt ha
    · have hpow : 2 ^ 32 ≤ 2 ^ n.toNat := Nat.pow_le_pow_right (by decide) (Nat.le_of_lt hlt)
      rw [shiftRightByCases, if_neg h₀, if_neg hgt]
      exact Nat.div_eq_of_lt (Nat.lt_of_lt_of_le ha hpow)
  · rw [carry_shiftRight]
    rcases count_cases n with rfl | ⟨h₀, hle, h₃₂, hpos, hlt⟩ | rfl | ⟨h₀, hgt, hlt⟩
    · rfl
    · have hone : 1 ≤ n := UInt32.le_iff_toNat_le.2 hpos
      have hsub : (n - 1).toNat = n.toNat - 1 := UInt32.toNat_sub_of_le _ _ hone
      have hcount : (n - 1).toNat < 32 := by omega
      rw [shiftRightByCases, if_neg h₀, if_pos hle, and_one_shiftRight a hcount, hsub,
        bne_iff_ne.2 h₀, Bool.true_and]
    · exact (and_one_shiftRight a (k := 31) (by decide)).symm
    · have hpow : 2 ^ 32 ≤ 2 ^ (n.toNat - 1) := Nat.pow_le_pow_right (by decide) (by omega)
      rw [shiftRightByCases, if_neg h₀, if_neg hgt,
        Nat.testBit_lt_two_pow (Nat.lt_of_lt_of_le ha hpow), Bool.and_false]

end Arithmetic

/-! ### The shift instructions -/

namespace Exec

theorem shift_eq {m : Machine} {op : Opcode} {d : Register} {o : Option Operand} {n : UInt32}
    (f : UInt32 → UInt32 → UInt32 × Bool) (hn : m.registers.word? o = some n) :
    shift f ⟨op, some (.register d), o⟩ m =
      .ok () { m with
        registers := (m.registers.set d (f (m.registers.get d) n).1).setFlags
          (Arithmetic.shiftFlags (f (m.registers.get d) n).1 (f (m.registers.get d) n).2) } := by
  have hword : wordOperand op o m = .ok n m := wordOperand_eq_ok.2 ⟨hn, rfl⟩
  show ((wordOperand op o) >>= fun n => _) m = _
  rw [bind_of_ok hword]
  rfl

end Exec

namespace Machine

variable {m : Machine} {d : Register} {i : Instruction} {o : Option Operand} {n : UInt32}

/-- An instruction is executed and **leaves the number `r`** in the register `d`, with `last` for
the last bit that left the word.  Nothing changes but this register and the flags of a shift. -/
def Leaves (m : Machine) (i : Instruction) (d : Register) (r : Nat) (last : Bool) : Prop :=
  ∃ rs, m.execute i = .done { m with registers := rs } ∧
    (rs.get d).toNat = r ∧
    rs.flag .carry = last ∧
    (rs.flag .zero = true ↔ r = 0) ∧
    rs.flag .sign = r.testBit 31 ∧
    rs.flag .overflow = false ∧
    (∀ s, s ≠ d → s ≠ .flags → rs.get s = m.registers.get s) ∧
    ∀ f ∉ [Flag.zero, .sign, .carry, .overflow], rs.flag f = m.registers.flag f

/-- A word in a register, with the flags of a shift. -/
theorem leaves_of_execute {v : UInt32} {last : Bool} (hd : d ≠ .flags)
    (h : m.execute i = .done
      { m with registers := (m.registers.set d v).setFlags (Arithmetic.shiftFlags v last) }) :
    m.Leaves i d v.toNat last := by
  obtain ⟨hzero, hsign, hcarry, hoverflow⟩ := (m.registers.set d v).flags_setFlags (v == 0)
    (Arithmetic.isNegative v) last false
  refine ⟨_, h, ?_, hcarry, ?_, ?_, hoverflow, ?_, ?_⟩
  · rw [RegisterFile.get_setFlags_of_ne hd, RegisterFile.get_set_self]
  · rw [Arithmetic.shiftFlags, hzero, beq_iff_eq, ← UInt32.toNat_inj]
    rfl
  · rw [Arithmetic.shiftFlags, hsign, Arithmetic.isNegative_eq_testBit]
  · intro s hs hflags
    rw [RegisterFile.get_setFlags_of_ne hflags, RegisterFile.get_set_of_ne hs.symm]
  · intro f hf
    rw [RegisterFile.flag_setFlags_of_ne, RegisterFile.flag_set_of_ne hd]
    rintro ⟨g, on⟩ hg rfl
    exact hf (List.mem_map_of_mem (f := Prod.fst) hg)

/-- **Shifts multiply and divide by powers of two.**  With `a` in the destination and any count `n`,
a shift to the left leaves the product of `a` and `2 ^ n`, modulo `2 ^ 32`, and bit 32 of the whole
product in the carry flag; a shift to the right leaves the quotient of `a` and `2 ^ n`, and bit
`n - 1` of `a` in the carry flag, or nothing there if `n` is zero. -/
theorem leaves_of_shift (hd : d ≠ .flags) (hn : m.registers.word? o = some n) :
    m.Leaves ⟨.shl, some (.register d), o⟩ d
      ((m.registers.get d).toNat * 2 ^ n.toNat % 2 ^ 32)
      (((m.registers.get d).toNat * 2 ^ n.toNat).testBit 32) ∧
    m.Leaves ⟨.shr, some (.register d), o⟩ d
      ((m.registers.get d).toNat / 2 ^ n.toNat)
      (n != 0 && (m.registers.get d).toNat.testBit (n.toNat - 1)) := by
  rw [← Arithmetic.toNat_shiftLeft, ← Arithmetic.carry_shiftLeft, ← Arithmetic.toNat_shiftRight,
    ← Arithmetic.carry_shiftRight]
  constructor
  · exact leaves_of_execute hd (execute_eq_done.2 (Exec.shift_eq _ hn))
  · exact leaves_of_execute hd (execute_eq_done.2 (Exec.shift_eq _ hn))

/-- A register shifted by its own word: the sign of the product, and the bit that went beyond it. -/
theorem leaves_of_shift_itself :
    let m : Machine := { registers := RegisterFile.zeros.set .bx 31, memory := .zeros 4 }
    let o : Option Operand := some (.register .bx)
    Register.bx ≠ .flags ∧ m.registers.word? o = some 31 ∧
      m.Leaves ⟨.shl, some (.register .bx), o⟩ .bx 0x80000000 true ∧
      m.Leaves ⟨.shr, some (.register .bx), o⟩ .bx 0 false := by
  intro m o
  have hne : Register.bx ≠ .flags := by decide
  have hword : m.registers.word? o = some 31 := rfl
  have hget : (m.registers.get .bx).toNat = 31 := by decide
  have hcount : (31 : UInt32).toNat = 31 := rfl
  have hshifts := leaves_of_shift hne hword
  rw [hget, hcount] at hshifts
  exact ⟨hne, hword, hshifts⟩

end Machine

end WordMachine
