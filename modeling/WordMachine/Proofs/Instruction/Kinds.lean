/-
**The kinds of operands that words hold.**

The decoder reads each place of an instruction as an operand of one of a few kinds, and the form of
the opcode says which.  The table here lists them, form by form.  It is exactly the table that the
decoder follows: no word holds operands of other kinds, and for every entry there is a word.

Two instructions whose operands agree in kind may differ in everything else: the registers are any
registers and the numbers any numbers, also such as no field has room for.

* `Operand.IsRegister`, `Operand.IsNumber`, `Operand.IsAddress`, `Operand.IsIndirect`,
  `Operand.IsFlag` — the kinds, and `Operand.IsWord`, `Operand.IsPlace`, which join two of them;
* `Form.Kinds` — the table;
* `Form.kinds_iff` — **the table lists what words hold**, and nothing else.
-/

import WordMachine.Proofs.Instruction.Reencoding

set_option relaxedAutoImplicit false
set_option autoImplicit false

namespace WordMachine

/-! ### Kinds -/

namespace Operand

def IsRegister (o : Option Operand) : Prop := ∃ r, o = some (register r)

def IsNumber (o : Option Operand) : Prop := ∃ v, o = some (immediate v)

def IsAddress (o : Option Operand) : Prop := ∃ v, o = some (address v)

def IsIndirect (o : Option Operand) : Prop := ∃ r, o = some (indirect r)

def IsFlag (o : Option Operand) : Prop := ∃ n, o = some (flag n)

/-- An operand that stands for a word: a register or a number. -/
def IsWord (o : Option Operand) : Prop := IsRegister o ∨ IsNumber o

/-- An operand that stands for a place in memory: an address, direct or in a register. -/
def IsPlace (o : Option Operand) : Prop := IsAddress o ∨ IsIndirect o

section Names

variable {o : Option Operand}

theorem isRegister_iff : IsRegister o ↔ kindName o = "register" := by
  rcases o with _ | (_ | _ | _ | _ | _ | _ | _) <;> simp [IsRegister, kindName]

theorem isNumber_iff : IsNumber o ↔ kindName o = "immediate" := by
  rcases o with _ | (_ | _ | _ | _ | _ | _ | _) <;> simp [IsNumber, kindName]

theorem isAddress_iff : IsAddress o ↔ kindName o = "address" := by
  rcases o with _ | (_ | _ | _ | _ | _ | _ | _) <;> simp [IsAddress, kindName]

theorem isIndirect_iff : IsIndirect o ↔ kindName o = "address register" := by
  rcases o with _ | (_ | _ | _ | _ | _ | _ | _) <;> simp [IsIndirect, kindName]

theorem isFlag_iff : IsFlag o ↔ kindName o = "flag" := by
  rcases o with _ | (_ | _ | _ | _ | _ | _ | _) <;> simp [IsFlag, kindName]

theorem eq_none_iff : o = none ↔ kindName o = "none" := by
  rcases o with _ | (_ | _ | _ | _ | _ | _ | _) <;> simp [kindName]

end Names

/-! ### The kinds in a field -/

variable {w : UInt32} {o : Operand}

theorem isNumber_ofLowerField (w : UInt32) : IsNumber (some (ofLowerField w)) :=
  ⟨_, rfl⟩

theorem isRegister_of_ofMiddleField (h : ofMiddleField w = .ok o) : IsRegister (some o) := by
  obtain ⟨r, rfl⟩ := ofMiddleField_ok h
  exact ⟨r, rfl⟩

theorem isPlace_of_ofNarrowField (h : ofNarrowField w = .ok o) : IsPlace (some o) := by
  unfold ofNarrowField at h
  simp only at h
  split at h
  · obtain ⟨r, _, h⟩ := Except.bind_eq_ok.1 h
    obtain rfl := Except.ok.inj h
    exact .inr ⟨r, rfl⟩
  · obtain rfl := Except.ok.inj h
    exact .inl ⟨_, rfl⟩

theorem isPlace_of_ofWideField (h : ofWideField w = .ok o) : IsPlace (some o) := by
  unfold ofWideField at h
  simp only at h
  split at h
  · obtain ⟨r, _, h⟩ := Except.bind_eq_ok.1 h
    obtain rfl := Except.ok.inj h
    exact .inr ⟨r, rfl⟩
  · obtain rfl := Except.ok.inj h
    exact .inl ⟨_, rfl⟩

theorem ofSlot_kinds (w : UInt32) : ofSlot w = none ∨ IsNumber (ofSlot w) := by
  rcases ofSlot_cases w with hnone | hsome
  · exact .inl hnone
  · rw [hsome]
    exact .inr (isNumber_ofLowerField w)

end Operand

/-! ### The table -/

open Operand in
/-- **The kinds of the two operands** of the given form. -/
def Form.Kinds (a b : Option Operand) : Form → Prop
  | regImm => IsRegister a ∧ IsNumber b
  | regRegOrImm => IsRegister a ∧ IsWord b
  | regAddr16 => IsRegister a ∧ IsAddress b
  | addr8Imm => IsPlace a ∧ IsNumber b
  | addr8RegOrImm => IsPlace a ∧ IsWord b
  | regOrImm => IsWord a ∧ b = none
  | reg => IsRegister a ∧ b = none
  | regReg => IsRegister a ∧ IsRegister b
  | addr24 => IsPlace a ∧ b = none
  | addr8Slot => IsPlace a ∧ (b = none ∨ IsNumber b)
  | addr8RegSlot => IsPlace a ∧ (b = none ∨ IsWord b)
  | flagId => IsFlag a ∧ b = none
  | noOperands => a = none ∧ b = none

namespace Form

open Operand

variable {form : Form} {w : UInt32} {a b a' b' : Option Operand}

/-- The table is about kinds and nothing else. -/
theorem Kinds.congr (h : form.Kinds a b) (ha : kindName a = kindName a')
    (hb : kindName b = kindName b') : form.Kinds a' b' := by
  cases form <;>
    simpa only [Kinds, IsWord, IsPlace, isRegister_iff, isNumber_iff, isAddress_iff,
      isIndirect_iff, isFlag_iff, eq_none_iff, ha, hb] using h

/-- Words hold operands of the kinds in the table. -/
theorem kinds_of_decode (h : form.decode w = .ok (a, b)) : form.Kinds a b := by
  cases form with
  | regImm =>
      obtain ⟨r, _, h⟩ := Except.bind_eq_ok.1 h
      obtain ⟨rfl, rfl⟩ := Except.ok.inj h
      exact ⟨⟨r, rfl⟩, isNumber_ofLowerField w⟩
  | regRegOrImm =>
      obtain ⟨r, _, h⟩ := Except.bind_eq_ok.1 h
      split at h
      · obtain ⟨s, hs, h⟩ := Except.bind_eq_ok.1 h
        obtain ⟨rfl, rfl⟩ := Except.ok.inj h
        exact ⟨⟨r, rfl⟩, .inl (isRegister_of_ofMiddleField hs)⟩
      · obtain ⟨rfl, rfl⟩ := Except.ok.inj h
        exact ⟨⟨r, rfl⟩, .inr (isNumber_ofLowerField w)⟩
  | regAddr16 =>
      obtain ⟨r, _, h⟩ := Except.bind_eq_ok.1 h
      obtain ⟨rfl, rfl⟩ := Except.ok.inj h
      exact ⟨⟨r, rfl⟩, ⟨_, rfl⟩⟩
  | addr8Imm =>
      obtain ⟨t, ht, h⟩ := Except.bind_eq_ok.1 h
      obtain ⟨rfl, rfl⟩ := Except.ok.inj h
      exact ⟨isPlace_of_ofNarrowField ht, isNumber_ofLowerField w⟩
  | addr8RegOrImm =>
      obtain ⟨t, ht, h⟩ := Except.bind_eq_ok.1 h
      split at h
      · obtain ⟨s, hs, h⟩ := Except.bind_eq_ok.1 h
        obtain ⟨rfl, rfl⟩ := Except.ok.inj h
        exact ⟨isPlace_of_ofNarrowField ht, .inl (isRegister_of_ofMiddleField hs)⟩
      · obtain ⟨rfl, rfl⟩ := Except.ok.inj h
        exact ⟨isPlace_of_ofNarrowField ht, .inr (isNumber_ofLowerField w)⟩
  | regOrImm =>
      simp only [decode] at h
      split at h
      · obtain ⟨r, _, h⟩ := Except.bind_eq_ok.1 h
        obtain ⟨rfl, rfl⟩ := Except.ok.inj h
        exact ⟨.inl ⟨r, rfl⟩, rfl⟩
      · obtain ⟨rfl, rfl⟩ := Except.ok.inj h
        exact ⟨.inr (isNumber_ofLowerField w), rfl⟩
  | reg =>
      obtain ⟨r, _, h⟩ := Except.bind_eq_ok.1 h
      obtain ⟨rfl, rfl⟩ := Except.ok.inj h
      exact ⟨⟨r, rfl⟩, rfl⟩
  | regReg =>
      obtain ⟨r, _, h⟩ := Except.bind_eq_ok.1 h
      obtain ⟨s, hs, h⟩ := Except.bind_eq_ok.1 h
      obtain ⟨rfl, rfl⟩ := Except.ok.inj h
      exact ⟨⟨r, rfl⟩, isRegister_of_ofMiddleField hs⟩
  | addr24 =>
      obtain ⟨t, ht, h⟩ := Except.bind_eq_ok.1 h
      obtain ⟨rfl, rfl⟩ := Except.ok.inj h
      exact ⟨isPlace_of_ofWideField ht, rfl⟩
  | addr8Slot =>
      obtain ⟨t, ht, h⟩ := Except.bind_eq_ok.1 h
      obtain ⟨rfl, rfl⟩ := Except.ok.inj h
      exact ⟨isPlace_of_ofNarrowField ht, ofSlot_kinds w⟩
  | addr8RegSlot =>
      obtain ⟨t, ht, h⟩ := Except.bind_eq_ok.1 h
      split at h
      · obtain ⟨s, hs, h⟩ := Except.bind_eq_ok.1 h
        obtain ⟨rfl, rfl⟩ := Except.ok.inj h
        exact ⟨isPlace_of_ofNarrowField ht, .inr (.inl (isRegister_of_ofMiddleField hs))⟩
      · obtain ⟨rfl, rfl⟩ := Except.ok.inj h
        refine ⟨isPlace_of_ofNarrowField ht, ?_⟩
        rcases ofSlot_kinds w with hnone | hnumber
        · exact .inl hnone
        · exact .inr (.inr hnumber)
  | flagId =>
      simp only [decode] at h
      split at h
      · obtain ⟨rfl, rfl⟩ := Except.ok.inj h
        exact ⟨⟨_, rfl⟩, rfl⟩
      · cases h
  | noOperands =>
      obtain ⟨rfl, rfl⟩ := Except.ok.inj h
      exact ⟨rfl, rfl⟩

/-- For every entry of the table there is a word: one with the lowest register and small numbers. -/
theorem decode_of_kinds (h : form.Kinds a b) :
    ∃ w a' b', form.decode w = .ok (a', b') ∧ kindName a' = kindName a ∧
      kindName b' = kindName b := by
  cases form with
  | regImm =>
      obtain ⟨⟨r, rfl⟩, v, rfl⟩ := h
      exact ⟨0, _, _, rfl, rfl, rfl⟩
  | regRegOrImm =>
      obtain ⟨⟨r, rfl⟩, ⟨s, rfl⟩ | ⟨v, rfl⟩⟩ := h
      · exact ⟨1, _, _, rfl, rfl, rfl⟩
      · exact ⟨0, _, _, rfl, rfl, rfl⟩
  | regAddr16 =>
      obtain ⟨⟨r, rfl⟩, v, rfl⟩ := h
      exact ⟨0, _, _, rfl, rfl, rfl⟩
  | addr8Imm =>
      obtain ⟨⟨t, rfl⟩ | ⟨r, rfl⟩, v, rfl⟩ := h
      · exact ⟨0, _, _, rfl, rfl, rfl⟩
      · exact ⟨0x800000, _, _, rfl, rfl, rfl⟩
  | addr8RegOrImm =>
      obtain ⟨⟨t, rfl⟩ | ⟨r, rfl⟩, ⟨s, rfl⟩ | ⟨v, rfl⟩⟩ := h
      · exact ⟨1, _, _, rfl, rfl, rfl⟩
      · exact ⟨0, _, _, rfl, rfl, rfl⟩
      · exact ⟨0x800001, _, _, rfl, rfl, rfl⟩
      · exact ⟨0x800000, _, _, rfl, rfl, rfl⟩
  | regOrImm =>
      obtain ⟨⟨s, rfl⟩ | ⟨v, rfl⟩, rfl⟩ := h
      · exact ⟨1, _, _, rfl, rfl, rfl⟩
      · exact ⟨0, _, _, rfl, rfl, rfl⟩
  | reg =>
      obtain ⟨⟨r, rfl⟩, rfl⟩ := h
      exact ⟨0, _, _, rfl, rfl, rfl⟩
  | regReg =>
      obtain ⟨⟨r, rfl⟩, s, rfl⟩ := h
      exact ⟨0, _, _, rfl, rfl, rfl⟩
  | addr24 =>
      obtain ⟨⟨t, rfl⟩ | ⟨r, rfl⟩, rfl⟩ := h
      · exact ⟨0, _, _, rfl, rfl, rfl⟩
      · exact ⟨0x800000, _, _, rfl, rfl, rfl⟩
  | addr8Slot =>
      obtain ⟨⟨t, rfl⟩ | ⟨r, rfl⟩, rfl | ⟨v, rfl⟩⟩ := h
      · exact ⟨0, _, _, rfl, rfl, rfl⟩
      · exact ⟨2, _, _, rfl, rfl, rfl⟩
      · exact ⟨0x800000, _, _, rfl, rfl, rfl⟩
      · exact ⟨0x800002, _, _, rfl, rfl, rfl⟩
  | addr8RegSlot =>
      obtain ⟨⟨t, rfl⟩ | ⟨r, rfl⟩, rfl | ⟨s, rfl⟩ | ⟨v, rfl⟩⟩ := h
      · exact ⟨0, _, _, rfl, rfl, rfl⟩
      · exact ⟨1, _, _, rfl, rfl, rfl⟩
      · exact ⟨2, _, _, rfl, rfl, rfl⟩
      · exact ⟨0x800000, _, _, rfl, rfl, rfl⟩
      · exact ⟨0x800001, _, _, rfl, rfl, rfl⟩
      · exact ⟨0x800002, _, _, rfl, rfl, rfl⟩
  | flagId =>
      obtain ⟨⟨n, rfl⟩, rfl⟩ := h
      exact ⟨0, _, _, rfl, rfl, rfl⟩
  | noOperands =>
      obtain ⟨rfl, rfl⟩ := h
      exact ⟨0, _, _, rfl, rfl, rfl⟩

/-- **The table lists the kinds of operands that words hold**, and no others. -/
theorem kinds_iff :
    form.Kinds a b ↔ ∃ w a' b', form.decode w = .ok (a', b') ∧ kindName a' = kindName a ∧
      kindName b' = kindName b := by
  constructor
  · exact decode_of_kinds
  · rintro ⟨w, a', b', hdecode, ha, hb⟩
    exact (kinds_of_decode hdecode).congr ha hb

end Form

/-! ### Instructions -/

namespace Instruction

variable {w : UInt32} {i : Instruction}

theorem kinds_of_decode (h : decode w = .ok i) : i.opcode.form.Kinds i.a i.b :=
  Form.kinds_of_decode (form_decode_of_decode h)

/-- A word names no flag but one that exists. -/
theorem exists_flag_of_decode (h : decode w = .ok i) (hform : i.opcode.form = .flagId) :
    ∃ f, i.a = some (Operand.ofFlag f) := by
  have hfields := form_decode_of_decode h
  rw [hform] at hfields
  simp only [Form.decode] at hfields
  split at hfields
  · rename_i f _
    exact ⟨f, (Prod.mk.inj (Except.ok.inj hfields)).1.symm⟩
  · cases hfields

end Instruction

end WordMachine
