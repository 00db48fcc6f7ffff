/-
**The flags of the bitwise instructions.**

A bitwise instruction combines the word of its destination with a source, and judges the two words
as the terms of a sum.  Zero and sign are those of the result and carry is that of the sum.
Overflow is not: it compares the sign of the two terms, if they have the same, with the sign of the
result and not with that of the sum.  So a conjunction or a disjunction never sets it, however large
the sum; an exclusive disjunction sets it for two negative words, and a complement for a word that
is not negative.

Main definitions:

* `Arithmetic.signed`, `Arithmetic.SumOverflows` — words as signed numbers, and sums of them that
  have no place in 32 bits;
* `Instruction.Combines` — the source and the result of a bitwise instruction;
* `Opcode.marksOverflow` — the words for which overflow is set.

Main results:

* `Arithmetic.isNegative_and`, `Arithmetic.isNegative_xor`, … — the sign of a result;
* `Instruction.flags_of_combines` — **the destination and the four flags after a bitwise
  instruction**;
* `Instruction.overflow_clear_largestWords` — a sum that overflows, and overflow is clear.
-/

import WordMachine.Proofs.Machine.Flags
import WordMachine.Proofs.Machine.Operands

set_option relaxedAutoImplicit false
set_option autoImplicit false

namespace WordMachine

/-! ### Signs -/

namespace Arithmetic

/-- A word as a signed number. -/
def signed (w : UInt32) : Int := w.toInt32.toInt

/-- The sum of two words, as signed numbers, has no place in 32 bits. -/
def SumOverflows (a b : UInt32) : Prop :=
  signed a + signed b < Int32.minValue.toInt ∨ Int32.maxValue.toInt < signed a + signed b

instance (a b : UInt32) : Decidable (SumOverflows a b) :=
  inferInstanceAs (Decidable (_ ∨ _))

theorem isNegative_eq_testBit (w : UInt32) : isNegative w = w.toNat.testBit 31 := by
  have hlt := w.toNat_lt
  rw [isNegative, Nat.testBit_eq_decide_div_mod_eq, decide_eq_decide]
  omega

theorem isNegative_iff {w : UInt32} : isNegative w = true ↔ signed w < 0 := by
  have hlt : w.toBitVec.toNat < 2 ^ 32 := w.toBitVec.isLt
  have hsigned : signed w = w.toBitVec.toInt := rfl
  have hnat : w.toNat = w.toBitVec.toNat := rfl
  rw [isNegative, decide_eq_true_iff, hsigned, hnat, BitVec.toInt_eq_toNat_cond]
  split <;> omega

@[simp] theorem isNegative_and (a b : UInt32) :
    isNegative (a &&& b) = (isNegative a && isNegative b) := by
  simp only [isNegative_eq_testBit, UInt32.toNat_and, Nat.testBit_and]

@[simp] theorem isNegative_or (a b : UInt32) :
    isNegative (a ||| b) = (isNegative a || isNegative b) := by
  simp only [isNegative_eq_testBit, UInt32.toNat_or, Nat.testBit_or]

@[simp] theorem isNegative_xor (a b : UInt32) :
    isNegative (a ^^^ b) = (isNegative a ^^ isNegative b) := by
  simp only [isNegative_eq_testBit, UInt32.toNat_xor, Nat.testBit_xor]

@[simp] theorem isNegative_not (a : UInt32) : isNegative (~~~ a) = !isNegative a := by
  have hlt := a.toNat_lt
  have hnot : (~~~ a).toNat = 2 ^ 32 - 1 - a.toNat := by rw [UInt32.toNat_not]; rfl
  rw [isNegative, isNegative, hnot, ← decide_not, decide_eq_decide]
  omega

@[simp] theorem isNegative_zero : isNegative 0 = false := rfl

end Arithmetic

/-! ### The bitwise instructions -/

/-- **A bitwise instruction** with destination `d` takes the source `b` and has the result `r`.  The
complement has no source; it is judged like a sum with zero. -/
inductive Instruction.Combines (rs : RegisterFile) (d : Register) :
    Instruction → UInt32 → UInt32 → Prop
  | and {o : Option Operand} {b : UInt32} (hb : rs.word? o = some b) :
      Combines rs d ⟨.and, some (.register d), o⟩ b (rs.get d &&& b)
  | or {o : Option Operand} {b : UInt32} (hb : rs.word? o = some b) :
      Combines rs d ⟨.or, some (.register d), o⟩ b (rs.get d ||| b)
  | xor {o : Option Operand} {b : UInt32} (hb : rs.word? o = some b) :
      Combines rs d ⟨.xor, some (.register d), o⟩ b (rs.get d ^^^ b)
  | not (o : Option Operand) :
      Combines rs d ⟨.not, some (.register d), o⟩ 0 (~~~ rs.get d)

/-- The words of destination and source for which a bitwise instruction sets overflow. -/
def Opcode.marksOverflow (a b : UInt32) : Opcode → Bool
  | xor => Arithmetic.isNegative a && Arithmetic.isNegative b
  | not => !Arithmetic.isNegative a
  | _ => false

namespace Exec

theorem bitwise_eq {m : Machine} {op : Opcode} {d : Register} {o : Option Operand} {b : UInt32}
    (f : UInt32 → UInt32 → UInt32) (hb : m.registers.word? o = some b) :
    bitwise f ⟨op, some (.register d), o⟩ m =
      .ok () { m with
        registers := (m.registers.set d (f (m.registers.get d) b)).setFlags
          (Arithmetic.sumFlags (f (m.registers.get d) b) (m.registers.get d) b) } := by
  have hword : wordOperand op o m = .ok b m := wordOperand_eq_ok.2 ⟨hb, rfl⟩
  show ((wordOperand op o) >>= fun b => _) m = _
  rw [bind_of_ok hword]
  rfl

end Exec

namespace Instruction

open Arithmetic

variable {m : Machine} {d : Register} {i : Instruction} {b r : UInt32}

/-- Overflow compares the sign of the result with the sign that both terms have. -/
theorem Combines.sumFlags_eq (h : Combines m.registers d i b r) :
    sumFlags r (m.registers.get d) b =
      [(.zero, r == 0), (.sign, isNegative r),
       (.carry, 2 ^ 32 ≤ (m.registers.get d).toNat + b.toNat),
       (.overflow, i.opcode.marksOverflow (m.registers.get d) b)] := by
  rw [sumFlags]
  cases h with
  | and | or | xor | not =>
      cases ha : isNegative (m.registers.get d) <;> simp [Opcode.marksOverflow, ha]

/-- A bitwise instruction is executed: the result goes to the destination, and the flags are set. -/
theorem Combines.execute_eq (h : Combines m.registers d i b r) :
    m.execute i = .done { m with
      registers := (m.registers.set d r).setFlags
        [(.zero, r == 0), (.sign, isNegative r),
         (.carry, 2 ^ 32 ≤ (m.registers.get d).toNat + b.toNat),
         (.overflow, i.opcode.marksOverflow (m.registers.get d) b)] } := by
  rw [Machine.execute_eq_done, ← h.sumFlags_eq]
  cases h with
  | and hb => exact Exec.bitwise_eq _ hb
  | or hb => exact Exec.bitwise_eq _ hb
  | xor hb => exact Exec.bitwise_eq _ hb
  | not o => rfl

/-- **After a bitwise instruction** the destination holds the result.  Zero is set when the result
is zero, sign when its top bit is set, and carry when the sum of destination and source exceeds 32
bits.  Overflow is never set by a conjunction or a disjunction; an exclusive disjunction sets it for
two negative words, and a complement for a word that is not negative. -/
theorem flags_of_combines (h : Combines m.registers d i b r) (hd : d ≠ .flags) :
    ∃ rs, m.execute i = .done { m with registers := rs } ∧
      rs.get d = r ∧
      (rs.flag .zero = true ↔ r = 0) ∧
      (rs.flag .sign = true ↔ r.toNat.testBit 31) ∧
      (rs.flag .carry = true ↔ 2 ^ 32 ≤ (m.registers.get d).toNat + b.toNat) ∧
      (i.opcode = .and ∨ i.opcode = .or → rs.flag .overflow = false) ∧
      (i.opcode = .xor → (rs.flag .overflow = true ↔
        signed (m.registers.get d) < 0 ∧ signed b < 0)) ∧
      (i.opcode = .not → (rs.flag .overflow = true ↔ 0 ≤ signed (m.registers.get d))) := by
  obtain ⟨hzero, hsign, hcarry, hoverflow⟩ := (m.registers.set d r).flags_setFlags (r == 0)
    (isNegative r) (2 ^ 32 ≤ (m.registers.get d).toNat + b.toNat)
    (i.opcode.marksOverflow (m.registers.get d) b)
  refine ⟨_, h.execute_eq, ?_, ?_, ?_, ?_, ?_, ?_, ?_⟩
  · rw [RegisterFile.get_setFlags_of_ne hd, RegisterFile.get_set_self]
  · rw [hzero, beq_iff_eq]
  · rw [hsign, isNegative_eq_testBit]
  · rw [hcarry, decide_eq_true_iff]
  · rintro (hand | hor)
    · rw [hoverflow, hand]
      rfl
    · rw [hoverflow, hor]
      rfl
  · intro hxor
    rw [hoverflow, hxor, Opcode.marksOverflow, Bool.and_eq_true, isNegative_iff, isNegative_iff]
  · intro hnot
    rw [hoverflow, hnot, Opcode.marksOverflow, Bool.not_eq_true', ← Bool.not_eq_true,
      isNegative_iff, Int.not_lt]

/-- The exclusive disjunction of two negative words, with the stack pointer as destination. -/
theorem flags_negativeWords :
    let m : Machine := { registers := RegisterFile.zeros.set .sp 0x80000000, memory := .zeros 4 }
    let i : Instruction := ⟨.xor, some (.register .sp), some (.immediate 0xFFFFFFFF)⟩
    Combines m.registers .sp i 0xFFFFFFFF 0x7FFFFFFF ∧ Register.sp ≠ .flags ∧
      ∃ rs, m.execute i = .done { m with registers := rs } ∧ rs.get .sp = 0x7FFFFFFF ∧
        rs.flag .sign = false ∧ rs.flag .carry = true ∧ rs.flag .overflow = true := by
  intro m i
  have hresult : m.registers.get .sp ^^^ 0xFFFFFFFF = 0x7FFFFFFF := by decide
  have hcombines : Combines m.registers .sp i 0xFFFFFFFF 0x7FFFFFFF := hresult ▸ Combines.xor rfl
  have hne : Register.sp ≠ .flags := by decide
  obtain ⟨rs, hexec, hget, -, hsign, hcarry, -, hxor, -⟩ := flags_of_combines hcombines hne
  have hoff : ¬ rs.flag .sign = true := fun hon => nomatch hsign.1 hon
  refine ⟨hcombines, hne, rs, hexec, hget, Bool.not_eq_true _ ▸ hoff, ?_, ?_⟩
  · exact hcarry.2 (by decide)
  · exact (hxor rfl).2 (by decide)

/-- **Overflow does not tell of the sum.**  The conjunction of the largest positive word with itself
leaves it clear, although the sum of the two has no place in 32 bits. -/
theorem overflow_clear_largestWords :
    let m : Machine := { registers := RegisterFile.zeros.set .ax 0x7FFFFFFF, memory := .zeros 4 }
    let i : Instruction := ⟨.and, some (.register .ax), some (.immediate 0x7FFFFFFF)⟩
    Combines m.registers .ax i 0x7FFFFFFF 0x7FFFFFFF ∧
      m.registers.get .ax = 0x7FFFFFFF ∧ SumOverflows 0x7FFFFFFF 0x7FFFFFFF ∧
      ∃ rs, m.execute i = .done { m with registers := rs } ∧ rs.flag .overflow = false := by
  intro m i
  have hresult : m.registers.get .ax &&& 0x7FFFFFFF = 0x7FFFFFFF := by decide
  have hcombines : Combines m.registers .ax i 0x7FFFFFFF (m.registers.get .ax &&& 0x7FFFFFFF) :=
    .and rfl
  rw [hresult] at hcombines
  refine ⟨hcombines, rfl, by decide, _, hcombines.execute_eq, ?_⟩
  exact (RegisterFile.flags_setFlags _ _ _ _ _).2.2.2

end Instruction

end WordMachine
