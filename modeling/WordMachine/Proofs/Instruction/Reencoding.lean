/-
**Encoding what was decoded.**

Many words decode to one instruction: a form ignores some bits, and an even number may be marked as
if it were odd.  The encoder chooses one of these words.  What the decoder reads from a field is
within the limits of that field and has the parity that its kind asks for, so that the encoder never
refuses it; and it is in normal form already, because a word holds no names.  Decoding the word that
the encoder chose therefore gives the instruction again.

Main definitions:

* `Form.Admits` — the encoder takes two operands, and takes them as they are.

Main results:

* `Form.admits_of_decode` — whatever a word holds, the encoder takes its operands as they are;
* `Instruction.encode_of_decode` — **encoding succeeds on every decoded instruction**, and its word
  decodes to the same instruction.
-/

import WordMachine.Proofs.Instruction.RoundTrip

set_option relaxedAutoImplicit false
set_option autoImplicit false

namespace WordMachine

/-! ### Fields -/

namespace Word

theorem lower_lt (w : UInt32) : lower w < 2 ^ 16 := by
  unfold lower; omega

/-- The lower field fits in a word. -/
theorem toNat_lower (w : UInt32) : (lower w).toUInt32.toNat = lower w := by
  have hlt := lower_lt w
  exact UInt32.toNat_ofNat_of_lt' (show _ < 2 ^ 32 by omega)

theorem isOdd_eq_false {w : UInt32} (h : isOdd w = false) : lower w % 2 ≠ 1 := by
  rw [isOdd_eq] at h
  intro hodd
  rw [hodd] at h
  exact nomatch h

end Word

namespace Operand

variable {symbols : SymbolTable} {role : Role} {w : UInt32} {o : Operand}

/-- The lower field is as wide as a number may be. -/
theorem immediateField_ofLowerField :
    immediateField symbols role (some (ofLowerField w)) = .ok (Word.lower w) := by
  have hlt := Word.lower_lt w
  show fit16 role (Word.lower w).toUInt32 = _
  rw [fit16, Word.toNat_lower, if_pos (by omega)]

/-- An address that was read from a field of its width fits that field. -/
theorem fitAddress_ofNat {field : AddressField} {n : Nat} (h : n ≤ field.largest) :
    fitAddress field n.toUInt32 = .ok n := by
  have hlt : n < 2 ^ 32 := by
    cases field <;> simp only [AddressField.largest] at h <;> omega
  have hval : n.toUInt32.toNat = n := UInt32.toNat_ofNat_of_lt' hlt
  rw [fitAddress, hval, if_pos h]

/-- The encoder takes an address of seven bits as it was read. -/
theorem ofNarrowField_ok (symbols : SymbolTable) (h : ofNarrowField w = .ok o) :
    (∃ t, narrowField symbols (some o) = .ok t) ∧ o.asAddress symbols = o := by
  unfold ofNarrowField at h
  simp only at h
  split at h
  · obtain ⟨r, _, h⟩ := Except.bind_eq_ok.1 h
    obtain rfl := Except.ok.inj h
    exact ⟨⟨_, rfl⟩, rfl⟩
  · rename_i hlt
    obtain rfl := Except.ok.inj h
    have hle : Word.upper w ≤ AddressField.narrow.largest := by
      show _ ≤ 0x7F
      omega
    exact ⟨⟨_, fitAddress_ofNat hle⟩, rfl⟩

/-- The encoder takes an address of twenty-three bits as it was read. -/
theorem ofWideField_ok (symbols : SymbolTable) (h : ofWideField w = .ok o) :
    (∃ t, wideField symbols (some o) = .ok t) ∧ o.asAddress symbols = o := by
  unfold ofWideField at h
  simp only at h
  split at h
  · obtain ⟨r, _, h⟩ := Except.bind_eq_ok.1 h
    obtain rfl := Except.ok.inj h
    exact ⟨⟨_, rfl⟩, rfl⟩
  · rename_i hlt
    obtain rfl := Except.ok.inj h
    have hle : Word.payload w ≤ AddressField.wide.largest := by
      show _ ≤ 0x7FFFFF
      omega
    exact ⟨⟨_, fitAddress_ofNat hle⟩, rfl⟩

theorem ofMiddleField_ok (h : ofMiddleField w = .ok o) : ∃ r, o = register r := by
  obtain ⟨r, _, h⟩ := Except.bind_eq_ok.1 h
  exact ⟨r, (Except.ok.inj h).symm⟩

/-- The lower field holds no slot, or its number is the slot. -/
theorem ofSlot_cases (w : UInt32) :
    ofSlot w = none ∨ ofSlot w = some (ofLowerField w) := by
  by_cases hzero : Word.lower w = 0
  · exact .inl (if_pos hzero)
  · exact .inr (if_neg hzero)

/-- A slot that was read is in normal form: the slot of zero was read as none. -/
theorem bind_asSlot_ofSlot : (ofSlot w).bind (asSlot symbols) = ofSlot w := by
  have hslot : ofSlot w = (ofLowerField w).asSlot symbols :=
    Form.ofSlot_eq rfl (Word.toNat_lower w).symm
  rcases ofSlot_cases w with hnone | hsome
  · rw [hnone]
    rfl
  · rw [hsome] at hslot ⊢
    exact hslot.symm

/-- A flag that exists has a number that fits. -/
theorem flagField_ofFlag (f : Flag) : flagField f.id.toUInt32 = .ok f.id := by
  cases f <;> rfl

end Operand

/-! ### Forms -/

/-- The encoder **admits** two operands of the given form: it takes them, and as they are. -/
def Form.Admits (form : Form) (symbols : SymbolTable) (op : Opcode)
    (operands : Option Operand × Option Operand) : Prop :=
  (∃ fields, form.encode symbols op operands.1 operands.2 = .ok fields) ∧
    form.normalise symbols operands.1 operands.2 = operands

namespace Form

open Operand

variable {symbols : SymbolTable} {op : Opcode} {w : UInt32}
  {operands : Option Operand × Option Operand}

theorem admits_regImm (h : regImm.decode w = .ok operands) :
    regImm.Admits symbols op operands := by
  obtain ⟨r, _, h⟩ := Except.bind_eq_ok.1 h
  obtain rfl := Except.ok.inj h
  refine ⟨Except.exists_bind_eq_ok rfl ?_, rfl⟩
  exact Except.exists_bind_eq_ok immediateField_ofLowerField ⟨_, rfl⟩

/-- The encoder marks an odd number afresh, whatever mark the word had. -/
theorem admits_regRegOrImm (h : regRegOrImm.decode w = .ok operands) :
    regRegOrImm.Admits symbols op operands := by
  obtain ⟨r, _, h⟩ := Except.bind_eq_ok.1 h
  split at h
  · obtain ⟨s, hs, h⟩ := Except.bind_eq_ok.1 h
    obtain rfl := Except.ok.inj h
    obtain ⟨s, rfl⟩ := ofMiddleField_ok hs
    exact ⟨Except.exists_bind_eq_ok rfl ⟨_, rfl⟩, rfl⟩
  · obtain rfl := Except.ok.inj h
    refine ⟨Except.exists_bind_eq_ok rfl ?_, rfl⟩
    exact Except.exists_bind_eq_ok immediateField_ofLowerField ⟨_, rfl⟩

theorem admits_regAddr16 (h : regAddr16.decode w = .ok operands) :
    regAddr16.Admits symbols op operands := by
  obtain ⟨r, _, h⟩ := Except.bind_eq_ok.1 h
  obtain rfl := Except.ok.inj h
  have hlt := Word.lower_lt w
  have hle : Word.lower w ≤ AddressField.medium.largest := by
    show _ ≤ 0xFFFF
    omega
  refine ⟨Except.exists_bind_eq_ok rfl ?_, rfl⟩
  exact Except.exists_bind_eq_ok (fitAddress_ofNat hle) ⟨_, rfl⟩

theorem admits_addr8Imm (h : addr8Imm.decode w = .ok operands) :
    addr8Imm.Admits symbols op operands := by
  obtain ⟨o, ho, h⟩ := Except.bind_eq_ok.1 h
  obtain rfl := Except.ok.inj h
  obtain ⟨⟨t, ht⟩, hnormal⟩ := ofNarrowField_ok symbols ho
  refine ⟨Except.exists_bind_eq_ok ht ?_, ?_⟩
  · exact Except.exists_bind_eq_ok immediateField_ofLowerField ⟨_, rfl⟩
  · simp only [normalise, Option.map_some, hnormal]
    rfl

theorem admits_addr8RegOrImm (h : addr8RegOrImm.decode w = .ok operands) :
    addr8RegOrImm.Admits symbols op operands := by
  obtain ⟨o, ho, h⟩ := Except.bind_eq_ok.1 h
  obtain ⟨⟨t, ht⟩, hnormal⟩ := ofNarrowField_ok symbols ho
  split at h
  · obtain ⟨s, hs, h⟩ := Except.bind_eq_ok.1 h
    obtain rfl := Except.ok.inj h
    obtain ⟨s, rfl⟩ := ofMiddleField_ok hs
    refine ⟨Except.exists_bind_eq_ok ht ⟨_, rfl⟩, ?_⟩
    simp only [normalise, Option.map_some, hnormal]
    rfl
  · obtain rfl := Except.ok.inj h
    refine ⟨Except.exists_bind_eq_ok ht ?_, ?_⟩
    · exact Except.exists_bind_eq_ok immediateField_ofLowerField ⟨_, rfl⟩
    · simp only [normalise, Option.map_some, hnormal]
      rfl

/-- An odd lower field is no number there: it marks a register. -/
theorem even_of_decode (h : addr8RegOrImm.decode w = .ok operands) :
    operands.2.any isOddNumber = false := by
  obtain ⟨o, _, h⟩ := Except.bind_eq_ok.1 h
  split at h
  · obtain ⟨s, hs, h⟩ := Except.bind_eq_ok.1 h
    obtain rfl := Except.ok.inj h
    obtain ⟨s, rfl⟩ := ofMiddleField_ok hs
    rfl
  · rename_i hodd
    obtain rfl := Except.ok.inj h
    have heven := Word.isOdd_eq_false (Bool.eq_false_iff.2 hodd)
    show (_ == 1) = false
    rw [Word.toNat_lower]
    exact beq_eq_false_iff_ne.2 heven

theorem admits_regOrImm (h : regOrImm.decode w = .ok operands) :
    regOrImm.Admits symbols op operands := by
  simp only [decode] at h
  split at h
  · obtain ⟨r, _, h⟩ := Except.bind_eq_ok.1 h
    obtain rfl := Except.ok.inj h
    exact ⟨⟨_, rfl⟩, rfl⟩
  · obtain rfl := Except.ok.inj h
    refine ⟨Except.exists_bind_eq_ok (a := ()) rfl ?_, rfl⟩
    have hfield : immediateField symbols .immediate (some (ofLowerField w)) = .ok (Word.lower w) :=
      immediateField_ofLowerField
    exact Except.exists_bind_eq_ok hfield ⟨_, rfl⟩

theorem admits_reg (h : reg.decode w = .ok operands) : reg.Admits symbols op operands := by
  obtain ⟨r, _, h⟩ := Except.bind_eq_ok.1 h
  obtain rfl := Except.ok.inj h
  exact ⟨⟨_, rfl⟩, rfl⟩

theorem admits_regReg (h : regReg.decode w = .ok operands) :
    regReg.Admits symbols op operands := by
  obtain ⟨r, _, h⟩ := Except.bind_eq_ok.1 h
  obtain ⟨s, hs, h⟩ := Except.bind_eq_ok.1 h
  obtain rfl := Except.ok.inj h
  obtain ⟨s, rfl⟩ := ofMiddleField_ok hs
  exact ⟨⟨_, rfl⟩, rfl⟩

theorem admits_addr24 (h : addr24.decode w = .ok operands) :
    addr24.Admits symbols op operands := by
  obtain ⟨o, ho, h⟩ := Except.bind_eq_ok.1 h
  obtain rfl := Except.ok.inj h
  obtain ⟨⟨t, ht⟩, hnormal⟩ := ofWideField_ok symbols ho
  refine ⟨Except.exists_bind_eq_ok (a := ()) rfl ?_, ?_⟩
  · exact Except.exists_bind_eq_ok ht ⟨_, rfl⟩
  · simp only [normalise, Option.map_some, hnormal]

theorem admits_addr8Slot (h : addr8Slot.decode w = .ok operands) :
    addr8Slot.Admits symbols op operands := by
  obtain ⟨o, ho, h⟩ := Except.bind_eq_ok.1 h
  obtain rfl := Except.ok.inj h
  obtain ⟨⟨t, ht⟩, hnormal⟩ := ofNarrowField_ok symbols ho
  refine ⟨Except.exists_bind_eq_ok ht ?_, ?_⟩
  · rcases ofSlot_cases w with hnone | hsome
    · simp only [hnone]
      exact ⟨_, rfl⟩
    · simp only [hsome]
      exact Except.exists_bind_eq_ok immediateField_ofLowerField ⟨_, rfl⟩
  · simp only [normalise, Option.map_some, hnormal, bind_asSlot_ofSlot]

/-- What is read as a slot and not as a register is even, and no other slot is refused. -/
theorem admits_addr8RegSlot (h : addr8RegSlot.decode w = .ok operands) :
    addr8RegSlot.Admits symbols op operands := by
  obtain ⟨o, ho, h⟩ := Except.bind_eq_ok.1 h
  obtain ⟨⟨t, ht⟩, hnormal⟩ := ofNarrowField_ok symbols ho
  split at h
  · obtain ⟨s, hs, h⟩ := Except.bind_eq_ok.1 h
    obtain rfl := Except.ok.inj h
    obtain ⟨s, rfl⟩ := ofMiddleField_ok hs
    refine ⟨Except.exists_bind_eq_ok ht ⟨_, rfl⟩, ?_⟩
    simp only [normalise, Option.map_some, hnormal]
    rfl
  · rename_i hodd
    obtain rfl := Except.ok.inj h
    have heven := Word.isOdd_eq_false (Bool.eq_false_iff.2 hodd)
    refine ⟨Except.exists_bind_eq_ok ht ?_, ?_⟩
    · rcases ofSlot_cases w with hnone | hsome
      · simp only [hnone]
        exact ⟨_, rfl⟩
      · simp only [hsome]
        refine Except.exists_bind_eq_ok immediateField_ofLowerField ?_
        rw [if_neg heven]
        exact ⟨_, rfl⟩
    · simp only [normalise, Option.map_some, hnormal, bind_asSlot_ofSlot]

theorem admits_flagId (h : flagId.decode w = .ok operands) :
    flagId.Admits symbols op operands := by
  simp only [decode] at h
  split at h
  · rename_i f _
    obtain rfl := Except.ok.inj h
    refine ⟨Except.exists_bind_eq_ok (a := ()) rfl ?_, rfl⟩
    exact Except.exists_bind_eq_ok (flagField_ofFlag f) ⟨_, rfl⟩
  · cases h

theorem admits_noOperands (h : noOperands.decode w = .ok operands) :
    noOperands.Admits symbols op operands := by
  obtain rfl := Except.ok.inj h
  exact ⟨⟨_, rfl⟩, rfl⟩

/-- **The encoder admits the operands of every word**, whatever bits the form ignores. -/
theorem admits_of_decode {form : Form} (h : form.decode w = .ok operands) :
    form.Admits symbols op operands := by
  cases form with
  | regImm => exact admits_regImm h
  | regRegOrImm => exact admits_regRegOrImm h
  | regAddr16 => exact admits_regAddr16 h
  | addr8Imm => exact admits_addr8Imm h
  | addr8RegOrImm => exact admits_addr8RegOrImm h
  | regOrImm => exact admits_regOrImm h
  | reg => exact admits_reg h
  | regReg => exact admits_regReg h
  | addr24 => exact admits_addr24 h
  | addr8Slot => exact admits_addr8Slot h
  | addr8RegSlot => exact admits_addr8RegSlot h
  | flagId => exact admits_flagId h
  | noOperands => exact admits_noOperands h

end Form

/-! ### Instructions -/

namespace Instruction

variable {symbols : SymbolTable} {w : UInt32} {i : Instruction}

/-- A decoded instruction has operands that a word holds in the form of its opcode. -/
theorem form_decode_of_decode (h : decode w = .ok i) : i.opcode.form.decode w = .ok (i.a, i.b) := by
  unfold decode at h
  split at h
  · exact nomatch h
  · obtain ⟨⟨a, b⟩, hoperands, h⟩ := Except.bind_eq_ok.1 h
    obtain rfl := Except.ok.inj h
    exact hoperands

theorem admits_of_decode (h : decode w = .ok i) :
    i.opcode.form.Admits symbols i.opcode (i.a, i.b) :=
  Form.admits_of_decode (form_decode_of_decode h)

/-- **A decoded instruction is in normal form.** -/
theorem normalise_of_decode (symbols : SymbolTable) (h : decode w = .ok i) :
    i.normalise symbols = i := by
  have hadmits : i.opcode.form.Admits symbols i.opcode (i.a, i.b) := admits_of_decode h
  have hnormal : i.opcode.form.normalise symbols i.a i.b = (i.a, i.b) := hadmits.2
  have hop : i.opcode.normalise i.b = i.opcode := by
    by_cases hstored : i.opcode.form = .addr8RegOrImm
    · have heven : i.b.any Operand.isOddNumber = false :=
        Form.even_of_decode (hstored ▸ form_decode_of_decode h)
      exact if_neg fun hodd => Bool.false_ne_true (heven.symm.trans hodd.2)
    · exact Opcode.normalise_of_ne hstored i.b
  simp only [normalise, hnormal, hop]

/-- A decoded instruction has a word, for any values of names. -/
theorem encodeWith_of_decode (symbols : SymbolTable) (h : decode w = .ok i) :
    ∃ v, i.encodeWith symbols = .ok v := by
  have hadmits : i.opcode.form.Admits symbols i.opcode (i.a, i.b) := admits_of_decode h
  obtain ⟨⟨⟨op, upper, lower⟩, hfields⟩, _⟩ := hadmits
  exact ⟨Word.pack op.code upper lower, by simp only [encodeWith, hfields]⟩

/-- **Encoding succeeds on every decoded instruction**, and the word that it chooses decodes to the
same instruction, whatever the unused bits of the first word hold. -/
theorem encode_of_decode (h : decode w = .ok i) : ∃ v, i.encode = .ok v ∧ decode v = .ok i := by
  obtain ⟨v, hv⟩ := encodeWith_of_decode [] h
  have hdecode : decode v = .ok (i.normalise []) := decode_of_encodeWith hv
  rw [normalise_of_decode [] h] at hdecode
  exact ⟨v, hv, hdecode⟩

/-- An even number that is marked as if it were odd, and loses the mark. -/
theorem encode_markedEvenNumber :
    let i : Instruction := { opcode := .movw, a := some (.register .cx), b := some (.immediate 4) }
    decode 0x02120004 = .ok i ∧ i.encode = .ok 0x02020004 ∧
      ∃ v, i.encode = .ok v ∧ decode v = .ok i :=
  ⟨rfl, rfl, encode_of_decode (w := 0x02120004) rfl⟩

end Instruction

end WordMachine
