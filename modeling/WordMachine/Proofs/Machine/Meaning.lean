/-
**Encoding preserves meaning.**

Of an instruction whose operands are of the kinds that words hold, encoding changes two things.  An
odd number is stored by the opcode for numbers, because its word would read as a register; and a
slot of zero is left out.  Neither makes a difference to the machine: the two store opcodes take the
same steps when they are given a number, and no instruction looks at its slot.  So the word of an
instruction does what the instruction does, on every machine, and faults where it faults.

* `Exec.instruction_stri` — storing a number by either opcode;
* `Exec.instruction_normalise` — **an instruction and its normal form take the same steps**;
* `Instruction.execute_of_encode` — **the word of an instruction does what the instruction does**.
-/

import WordMachine.Machine.Execute
import WordMachine.Proofs.Instruction.Kinds

set_option relaxedAutoImplicit false
set_option autoImplicit false

namespace WordMachine

/-! ### Operands in normal form -/

namespace Operand

variable {symbols : SymbolTable} {o : Option Operand}

theorem IsNumber.map_asNumber (h : IsNumber o) : o.map (asNumber symbols) = o := by
  obtain ⟨v, rfl⟩ := h
  rfl

theorem IsWord.map_asNumber (h : IsWord o) : o.map (asNumber symbols) = o := by
  rcases h with ⟨r, rfl⟩ | hnumber
  · rfl
  · exact hnumber.map_asNumber

theorem IsAddress.map_asAddress (h : IsAddress o) : o.map (asAddress symbols) = o := by
  obtain ⟨v, rfl⟩ := h
  rfl

theorem IsPlace.map_asAddress (h : IsPlace o) : o.map (asAddress symbols) = o := by
  rcases h with haddress | ⟨r, rfl⟩
  · exact haddress.map_asAddress
  · rfl

theorem IsFlag.map_asFlag (h : IsFlag o) : o.map asFlag = o := by
  obtain ⟨n, rfl⟩ := h
  rfl

/-- An odd number is a number. -/
theorem isNumber_of_isOddNumber (h : o.any isOddNumber = true) : IsNumber o := by
  rcases o with _ | (_ | _ | v | _ | _ | _ | _)
  case some.immediate => exact ⟨v, rfl⟩
  all_goals exact nomatch h

end Operand

/-- The forms with a slot, the only operand that may go when an instruction is encoded. -/
def Form.HasSlot (form : Form) : Prop := form = addr8Slot ∨ form = addr8RegSlot

namespace Form

open Operand

variable {form : Form} {symbols : SymbolTable} {a b : Option Operand}

theorem normalise_fst_of_kinds (h : form.Kinds a b) : (form.normalise symbols a b).1 = a := by
  cases form with
  | regImm | regRegOrImm | regAddr16 | reg | regReg | noOperands => rfl
  | addr8Imm | addr8RegOrImm | addr24 | addr8Slot | addr8RegSlot => exact h.1.map_asAddress
  | regOrImm => exact h.1.map_asNumber
  | flagId => exact h.1.map_asFlag

theorem normalise_snd_of_kinds (h : form.Kinds a b) (hslot : ¬ form.HasSlot) :
    (form.normalise symbols a b).2 = b := by
  cases form with
  | regImm | addr8Imm => exact h.2.map_asNumber
  | regRegOrImm | addr8RegOrImm => exact h.2.map_asNumber
  | regAddr16 => exact h.2.map_asAddress
  | regOrImm | reg | regReg | addr24 | flagId | noOperands => rfl
  | addr8Slot => exact absurd (.inl rfl) hslot
  | addr8RegSlot => exact absurd (.inr rfl) hslot

end Form

/-! ### Steps -/

namespace Exec

open Operand

variable {symbols : SymbolTable} {i : Instruction} {a b : Option Operand}

/-- **A number is stored by either opcode.**  Only a refused operand would tell them apart. -/
theorem instruction_stri (ha : IsPlace a) (hb : IsNumber b) :
    instruction { opcode := .stri, a, b } = instruction { opcode := .strw, a, b } := by
  obtain ⟨v, rfl⟩ := hb
  rcases ha with ⟨p, rfl⟩ | ⟨r, rfl⟩
  · rfl
  · rfl

/-- **The slot makes no difference.** -/
theorem instruction_of_hasSlot {op : Opcode} (h : op.form.HasSlot) (a b b' : Option Operand) :
    instruction { opcode := op, a, b } = instruction { opcode := op, a, b := b' } := by
  cases op
  case insw => rfl
  case outw => rfl
  all_goals exact absurd h (by simp [Form.HasSlot, Opcode.form])

/-- **An instruction and its normal form take the same steps**, when its operands are of the kinds
that words hold. -/
theorem instruction_normalise (symbols : SymbolTable) (h : i.opcode.form.Kinds i.a i.b) :
    instruction (i.normalise symbols) = instruction i := by
  obtain ⟨op, a, b⟩ := i
  have hfst : (op.form.normalise symbols a b).1 = a := Form.normalise_fst_of_kinds h
  by_cases hslot : op.form.HasSlot
  · have hop : op.normalise (op.form.normalise symbols a b).2 = op := by
      refine Opcode.normalise_of_ne ?_ _
      rcases hslot with hform | hform <;> rw [hform] <;> exact nofun
    simp only [Instruction.normalise, hfst, hop]
    exact instruction_of_hasSlot hslot a _ b
  · have hsnd : (op.form.normalise symbols a b).2 = b := Form.normalise_snd_of_kinds h hslot
    simp only [Instruction.normalise, hfst, hsnd]
    by_cases hodd : op = .strw ∧ b.any isOddNumber = true
    · obtain ⟨rfl, hodd⟩ := hodd
      have hop : Opcode.normalise .strw b = .stri := if_pos ⟨rfl, hodd⟩
      rw [hop]
      exact instruction_stri h.1 (isNumber_of_isOddNumber hodd)
    · have hop : op.normalise b = op := if_neg hodd
      rw [hop]

end Exec

/-! ### Words -/

namespace Instruction

variable {i : Instruction} {w : UInt32}

/-- **The word of an instruction does what the instruction does**, on every machine: the outcome is
the same machine, or the same fault with the same machine. -/
theorem execute_of_encode (hkinds : i.opcode.form.Kinds i.a i.b) (h : i.encode = .ok w) :
    ∃ j, decode w = .ok j ∧ ∀ m : Machine, m.execute j = m.execute i := by
  have hdecode : decode w = .ok (i.normalise []) := decode_of_encodeWith h
  refine ⟨i.normalise [], hdecode, fun m => ?_⟩
  rw [Machine.execute, Machine.execute, Exec.instruction_normalise [] hkinds]

/-- An odd number, stored where a register points: the word has another opcode. -/
theorem execute_storedOddNumber :
    let i : Instruction :=
      { opcode := .strw, a := some (.indirect .bx), b := some (.immediate 0x11) }
    i.opcode.form.Kinds i.a i.b ∧ i.encode = .ok 0x05880011 ∧
      ∃ j, decode 0x05880011 = .ok j ∧ ∀ m : Machine, m.execute j = m.execute i := by
  intro i
  have hkinds : i.opcode.form.Kinds i.a i.b := ⟨.inr ⟨.bx, rfl⟩, .inr ⟨0x11, rfl⟩⟩
  have hencode : i.encode = .ok 0x05880011 := by cbv
  exact ⟨hkinds, hencode, execute_of_encode hkinds hencode⟩

end Instruction

end WordMachine
