/-
**Comparing, and jumping on the result.**

A comparison judges two words by their difference, which it does not keep.  The flags tell whether
the words are equal, whether the first is below the second as a number without sign, and whether the
difference of the two signed numbers has a place in 32 bits.  The sign flag is that of the
difference as a word.  As long as there is no overflow this is the order of the signed numbers, and
with an overflow it is the reverse of it; the two words are different then.  So a jump on order that
follows the comparison does what its name says, except after an overflow, when it does the opposite.

Main definitions:

* `Arithmetic.DifferenceOverflows` — differences of signed numbers that have no place in 32 bits;
* `Machine.Takes`, `Machine.Passes`, `Machine.JumpsIff` — what a jump does;
* `Machine.Compared` — **what follows a comparison**.

Main results:

* `Arithmetic.isNegative_sub` — the sign of a difference;
* `Machine.execute_jump`, `Machine.jumpsIff_of_taken` — a jump, whatever its operand;
* `Machine.compared_of_word?` — **comparing two words**.
-/

import WordMachine.Proofs.Machine.Bitwise
import WordMachine.Proofs.Machine.Footprint

set_option relaxedAutoImplicit false
set_option autoImplicit false

namespace WordMachine

/-! ### Differences -/

namespace Arithmetic

/-- The difference of two words, as signed numbers, has no place in 32 bits. -/
def DifferenceOverflows (a b : UInt32) : Prop :=
  signed a - signed b < Int32.minValue.toInt ∨ Int32.maxValue.toInt < signed a - signed b

instance (a b : UInt32) : Decidable (DifferenceOverflows a b) :=
  inferInstanceAs (Decidable (_ ∨ _))

theorem signed_bounds (w : UInt32) :
    -((2 ^ 31 : Nat) : Int) ≤ signed w ∧ signed w < (2 ^ 31 : Nat) := by
  have hle : -((2 ^ 31 : Nat) : Int) ≤ w.toBitVec.toInt := BitVec.le_toInt w.toBitVec
  have hlt : w.toBitVec.toInt < (2 ^ 31 : Nat) := BitVec.toInt_lt
  exact ⟨hle, hlt⟩

theorem signed_inj {a b : UInt32} : signed a = signed b ↔ a = b := by
  constructor
  · intro h
    exact UInt32.eq_of_toBitVec_eq (BitVec.eq_of_toInt_eq h)
  · rintro rfl
    rfl

theorem differenceOverflows_iff {a b : UInt32} : DifferenceOverflows a b ↔
    signed a - signed b < -((2 ^ 31 : Nat) : Int) ∨ (2 ^ 31 : Nat) ≤ signed a - signed b := by
  have hmin : Int32.minValue.toInt = -((2 ^ 31 : Nat) : Int) := by decide
  have hmax : Int32.maxValue.toInt = (2 ^ 31 : Nat) - 1 := by decide
  rw [DifferenceOverflows, hmin, hmax]
  omega

/-- Without overflow the difference of the words is that of the signed numbers.  Else it is off by
`2 ^ 32`, on the other side of zero. -/
theorem signed_sub (a b : UInt32) :
    signed (a - b) =
      if ¬ DifferenceOverflows a b then signed a - signed b
      else if signed a < signed b then signed a - signed b + (2 ^ 32 : Nat)
      else signed a - signed b - (2 ^ 32 : Nat) := by
  have hbmod : signed (a - b) = (signed a - signed b).bmod (2 ^ 32) :=
    BitVec.toInt_sub
  have ha := signed_bounds a
  have hb := signed_bounds b
  simp only [hbmod, differenceOverflows_iff, Int.bmod_def]
  omega

/-- **The sign of a difference** tells which number is less, unless there is an overflow: then it
tells which one is not. -/
theorem isNegative_sub (a b : UInt32) :
    isNegative (a - b) = true ↔ (DifferenceOverflows a b ↔ ¬ signed a < signed b) := by
  have ha := signed_bounds a
  have hb := signed_bounds b
  rw [isNegative_iff, signed_sub]
  simp only [differenceOverflows_iff]
  split <;> omega

/-- Overflow shows in the signs of the two words and of their difference. -/
theorem signs_eq_differenceOverflows (a b : UInt32) :
    (isNegative a != isNegative b && isNegative (a - b) != isNegative a) =
      decide (DifferenceOverflows a b) := by
  have ha := signed_bounds a
  have hb := signed_bounds b
  have hsign : ∀ w, isNegative w = decide (signed w < 0) :=
    fun w => Bool.eq_iff_iff.2 (isNegative_iff.trans decide_eq_true_iff.symm)
  rw [hsign, hsign, hsign, signed_sub, Bool.eq_iff_iff]
  simp only [differenceOverflows_iff, Bool.and_eq_true, bne_iff_ne, ne_eq, decide_eq_decide,
    decide_eq_true_eq]
  split <;> omega

theorem sub_eq_zero_iff {a b : UInt32} : a - b = 0 ↔ a = b := by
  constructor
  · intro h
    have hsum := UInt32.sub_add_cancel a b
    rwa [h, UInt32.zero_add, eq_comm] at hsum
  · rintro rfl
    exact UInt32.sub_self a

/-- The flags of a comparison. -/
theorem differenceFlags_eq (a b : UInt32) : differenceFlags (a - b) a b =
    [(.zero, decide (a = b)), (.sign, isNegative (a - b)), (.carry, decide (a < b)),
      (.overflow, decide (DifferenceOverflows a b))] := by
  have hzero : (a - b == 0) = decide (a = b) := by
    rw [Bool.eq_iff_iff, beq_iff_eq, decide_eq_true_iff, sub_eq_zero_iff]
  rw [differenceFlags, hzero, signs_eq_differenceOverflows]
  rfl

end Arithmetic

/-! ### Jumps -/

/-- The jumps, on a condition or on none. -/
def Opcode.jumps : List Opcode := [jmp, je, jne, jgt, jge, jlt, jle, js, jco]

namespace Machine

open Arithmetic

variable {m : Machine} {op : Opcode} {p : Prop}

/-- A jump is **taken**: whatever its operand, it goes to the address that the operand stands for,
and does nothing else. -/
def Takes (m : Machine) (op : Opcode) : Prop :=
  ∀ x y t, m.registers.address? x = some t → m.execute ⟨op, x, y⟩ = .done (m.setPc t)

/-- A jump is **not taken**: whatever its operand, nothing changes. -/
def Passes (m : Machine) (op : Opcode) : Prop :=
  ∀ x y t, m.registers.address? x = some t → m.execute ⟨op, x, y⟩ = .done m

/-- A jump is taken exactly under a condition. -/
structure JumpsIff (m : Machine) (op : Opcode) (p : Prop) : Prop where
  taken : p → m.Takes op
  passed : ¬ p → m.Passes op

/-- **A jump, whatever its operand.** -/
theorem execute_jump (hop : op ∈ Opcode.jumps) {x : Option Operand} {t : UInt32}
    (hx : m.registers.address? x = some t) (y : Option Operand) :
    m.execute ⟨op, x, y⟩ = .done (if Exec.taken m.registers op then m.setPc t else m) := by
  have hinstruction : Exec.instruction ⟨op, x, y⟩ = Exec.jump ⟨op, x, y⟩ := by
    simp only [Opcode.jumps, List.mem_cons, List.not_mem_nil, or_false] at hop
    rcases hop with rfl | rfl | rfl | rfl | rfl | rfl | rfl | rfl | rfl <;> rfl
  rw [execute_eq_done, hinstruction, Exec.jump,
    Exec.bind_of_ok (Exec.addressOperand_eq_ok.2 ⟨hx, rfl⟩)]
  show (if Exec.taken m.registers op then Exec.writeRegister .pc t else pure () : Exec Unit) m = _
  split <;> rfl

theorem takes_of_taken (hop : op ∈ Opcode.jumps) (h : Exec.taken m.registers op = true) :
    m.Takes op := by
  intro x y t hx
  rw [execute_jump hop hx, if_pos h]

theorem passes_of_taken (hop : op ∈ Opcode.jumps) (h : Exec.taken m.registers op = false) :
    m.Passes op := by
  intro x y t hx
  rw [execute_jump hop hx, if_neg (Bool.not_eq_true _ ▸ h)]

theorem jumpsIff_of_taken (hop : op ∈ Opcode.jumps) (h : Exec.taken m.registers op = true ↔ p) :
    m.JumpsIff op p where
  taken hp := takes_of_taken hop (h.2 hp)
  passed hp := passes_of_taken hop (Bool.not_eq_true _ ▸ fun htaken => hp (h.1 htaken))

/-- A jump that is taken when its condition holds, or else when there is an overflow. -/
theorem jumpsIff_of_overflow {d : Prop} (hop : op ∈ Opcode.jumps)
    (h : Exec.taken m.registers op = true ↔ (d ↔ ¬ p)) :
    (¬ d → m.JumpsIff op p) ∧ (d → m.JumpsIff op (¬ p)) :=
  ⟨fun hd => jumpsIff_of_taken hop (h.trans (by simp [hd])),
    fun hd => jumpsIff_of_taken hop (h.trans (by simp [hd]))⟩

/-- Of the jumps on equal, greater and less, one is taken, whatever the flags are. -/
theorem exists_takes (m : Machine) : ∃ op ∈ [Opcode.je, .jgt, .jlt], m.Takes op ∧
    ∀ op' ∈ [Opcode.je, .jgt, .jlt], op' ≠ op → m.Passes op' := by
  have hje : Exec.taken m.registers .je = m.registers.flag .zero := rfl
  have hjgt : Exec.taken m.registers .jgt =
    (!m.registers.flag .zero && !m.registers.flag .sign) := rfl
  have hjlt : Exec.taken m.registers .jlt =
    (!m.registers.flag .zero && m.registers.flag .sign) := rfl
  obtain ⟨op, hop, htaken, hothers⟩ : ∃ op ∈ [Opcode.je, .jgt, .jlt],
      Exec.taken m.registers op = true ∧
        ∀ op' ∈ [Opcode.je, .jgt, .jlt], op' ≠ op → Exec.taken m.registers op' = false := by
    cases hzero : m.registers.flag .zero with
    | true => exact ⟨.je, by simp, by simp [hje, hzero], by simp [hjgt, hjlt, hzero]⟩
    | false =>
        cases hsign : m.registers.flag .sign with
        | true =>
            exact ⟨.jlt, by simp, by simp [hjlt, hzero, hsign],
              by simp [hje, hjgt, hzero, hsign]⟩
        | false =>
            exact ⟨.jgt, by simp, by simp [hjgt, hzero, hsign],
              by simp [hje, hjlt, hzero, hsign]⟩
  have hjumps : [Opcode.je, .jgt, .jlt] ⊆ Opcode.jumps := by decide
  exact ⟨op, hop, takes_of_taken (hjumps hop) htaken,
    fun op' hop' hne => passes_of_taken (hjumps hop') (hothers op' hop' hne)⟩

/-! ### Comparing -/

/-- **What follows a comparison** of `a` with `b`, which leads from `m` to `m'`. -/
structure Compared (m m' : Machine) (a b : UInt32) : Prop where
  zero : m'.registers.flag .zero = true ↔ a = b
  /-- The order of numbers without sign. -/
  carry : m'.registers.flag .carry = true ↔ a < b
  overflow : m'.registers.flag .overflow = true ↔ DifferenceOverflows a b
  /-- The registers change in the flags word only. -/
  registers : ∀ r, r ≠ .flags → m'.registers.get r = m.registers.get r
  /-- The flags word changes in four bits only. -/
  bits : ∀ k, k ∉ Flag.ofResult.map Flag.bit →
    (m'.registers.get .flags).toNat.testBit k = (m.registers.get .flags).toNat.testBit k
  memory : m'.memory = m.memory
  console : m'.console = m.console
  halted : m'.halted = m.halted
  je : m'.JumpsIff .je (a = b)
  jne : m'.JumpsIff .jne (a ≠ b)
  jco : m'.JumpsIff .jco (a < b ∨ DifferenceOverflows a b)
  /-- Of the three, one is taken, and the others are not. -/
  oneTaken : ∃ op ∈ [Opcode.je, .jgt, .jlt], m'.Takes op ∧
    ∀ op' ∈ [Opcode.je, .jgt, .jlt], op' ≠ op → m'.Passes op'
  /-- Without overflow the jumps follow the order of the signed numbers. -/
  ordered : ¬ DifferenceOverflows a b →
    m'.JumpsIff .jgt (signed b < signed a) ∧ m'.JumpsIff .jge (signed b ≤ signed a) ∧
      m'.JumpsIff .jlt (signed a < signed b) ∧ m'.JumpsIff .jle (signed a ≤ signed b)
  /-- With overflow each of them does the opposite. -/
  reversed : DifferenceOverflows a b →
    m'.JumpsIff .jgt (¬ signed b < signed a) ∧ m'.JumpsIff .jge (¬ signed b ≤ signed a) ∧
      m'.JumpsIff .jlt (¬ signed a < signed b) ∧ m'.JumpsIff .jle (¬ signed a ≤ signed b)

/-- After a comparison each of the four jumps on order is taken when the order holds and there is
no overflow, or when there is one and the order does not hold. -/
theorem taken_order {rs : RegisterFile} {a b : UInt32} (hzero : rs.flag .zero = decide (a = b))
    (hsign : rs.flag .sign = isNegative (a - b)) :
    (Exec.taken rs .jgt = true ↔ (DifferenceOverflows a b ↔ ¬ signed b < signed a)) ∧
      (Exec.taken rs .jge = true ↔ (DifferenceOverflows a b ↔ ¬ signed b ≤ signed a)) ∧
      (Exec.taken rs .jlt = true ↔ (DifferenceOverflows a b ↔ ¬ signed a < signed b)) ∧
      (Exec.taken rs .jle = true ↔ (DifferenceOverflows a b ↔ ¬ signed a ≤ signed b)) := by
  have ha := signed_bounds a
  have hb := signed_bounds b
  have hnegative := isNegative_sub a b
  rw [differenceOverflows_iff] at hnegative ⊢
  simp only [Exec.taken, hzero, hsign, Bool.and_eq_true, Bool.or_eq_true, Bool.not_eq_true',
    decide_eq_true_eq, ← Bool.not_eq_true, hnegative, ← signed_inj]
  omega

theorem execute_cmpw {r : Register} {o : Option Operand} {b : UInt32}
    (hb : m.registers.word? o = some b) :
    m.execute ⟨.cmpw, some (.register r), o⟩ = .done { m with
      registers := m.registers.setFlags
        [(.zero, decide (m.registers.get r = b)), (.sign, isNegative (m.registers.get r - b)),
          (.carry, decide (m.registers.get r < b)),
          (.overflow, decide (DifferenceOverflows (m.registers.get r) b))] } := by
  have hword : Exec.wordOperand .cmpw o m = .ok b m := Exec.wordOperand_eq_ok.2 ⟨hb, rfl⟩
  rw [execute_eq_done, ← differenceFlags_eq]
  show (Exec.wordOperand .cmpw o >>= fun b => _) m = _
  rw [Exec.bind_of_ok hword]
  rfl

/-- **Comparing two words**, and the jumps that can follow. -/
theorem compared_of_word? {r : Register} {o : Option Operand} {b : UInt32}
    (hb : m.registers.word? o = some b) :
    ∃ m', m.execute ⟨.cmpw, some (.register r), o⟩ = .done m' ∧
      m.Compared m' (m.registers.get r) b := by
  refine ⟨_, execute_cmpw hb, ?_⟩
  generalize m.registers.get r = a
  obtain ⟨hzero, hsign, hcarry, hoverflow⟩ := m.registers.flags_setFlags (decide (a = b))
    (isNegative (a - b)) (decide (a < b)) (decide (DifferenceOverflows a b))
  obtain ⟨hjgt, hjge, hjlt, hjle⟩ := taken_order hzero hsign
  have hgt := jumpsIff_of_overflow (m := { m with registers := _ }) (by decide) hjgt
  have hge := jumpsIff_of_overflow (m := { m with registers := _ }) (by decide) hjge
  have hlt := jumpsIff_of_overflow (m := { m with registers := _ }) (by decide) hjlt
  have hle := jumpsIff_of_overflow (m := { m with registers := _ }) (by decide) hjle
  exact {
    zero := by rw [hzero, decide_eq_true_iff]
    carry := by rw [hcarry, decide_eq_true_iff]
    overflow := by rw [hoverflow, decide_eq_true_iff]
    registers := fun r hr => RegisterFile.get_setFlags_of_ne hr m.registers _
    bits := by
      intro k hk
      refine RegisterFile.testBit_setFlags_of_not_mem ?_ m.registers
      rintro x hx rfl
      exact hk (List.mem_map_of_mem (List.mem_map_of_mem (f := Prod.fst) hx))
    memory := rfl
    console := rfl
    halted := rfl
    je := jumpsIff_of_taken (by decide) (by
      show RegisterFile.flag _ .zero = true ↔ _
      rw [hzero, decide_eq_true_iff])
    jne := jumpsIff_of_taken (by decide) (by
      show (!RegisterFile.flag _ .zero) = true ↔ _
      rw [hzero, Bool.not_eq_true', decide_eq_false_iff_not])
    jco := jumpsIff_of_taken (by decide) (by
      show (RegisterFile.flag _ .carry || RegisterFile.flag _ .overflow) = true ↔ _
      rw [hcarry, hoverflow, Bool.or_eq_true, decide_eq_true_iff, decide_eq_true_iff])
    oneTaken := exists_takes _
    ordered := fun h => ⟨hgt.1 h, hge.1 h, hlt.1 h, hle.1 h⟩
    reversed := fun h => ⟨hgt.2 h, hge.2 h, hlt.2 h, hle.2 h⟩ }

/-- The least signed number against one: the difference overflows, and the jump on greater is
taken. -/
theorem compared_leastWord :
    let m : Machine := { registers := RegisterFile.zeros.set .ax 0x80000000, memory := .zeros 4 }
    m.registers.word? (some (.immediate 1)) = some 1 ∧ signed 0x80000000 < signed 1 ∧
      ∃ m', m.execute ⟨.cmpw, some (.register .ax), some (.immediate 1)⟩ = .done m' ∧
        m.Compared m' 0x80000000 1 ∧ m'.registers.flag .overflow = true ∧
        m'.Takes .jgt ∧ m'.Passes .jlt := by
  intro m
  have hless : signed 0x80000000 < signed 1 := by decide
  have hoverflow : DifferenceOverflows 0x80000000 1 := by decide
  have hword : m.registers.word? (some (.immediate 1)) = some 1 := rfl
  obtain ⟨m', hexec, hcompared⟩ := compared_of_word? (r := .ax) hword
  have hax : m.registers.get .ax = 0x80000000 := rfl
  rw [hax] at hcompared
  obtain ⟨hjgt, -, hjlt, -⟩ := hcompared.reversed hoverflow
  refine ⟨hword, hless, m', hexec, hcompared, hcompared.overflow.2 hoverflow, ?_, ?_⟩
  · exact hjgt.taken (Int.not_lt.2 (Int.le_of_lt hless))
  · exact hjlt.passed (not_not_intro hless)

end Machine

end WordMachine
