/-
**Decoding what was encoded.**

Each kind of field has one lemma, which says what the encoder accepted there and what the decoder
reads from any word with that field.  The form of an opcode puts two fields together, and what its
two fields hold are the operands in normal form.  Nothing else of the word is read, so that no
operand reaches into the field of another.

Main definitions:

* `Form.Holds` — two fields hold two operands.

Main results:

* `Form.holds_of_encode` — the fields that a form is encoded into hold the normal form;
* `Instruction.decode_of_encodeNamed` — the word of an instruction decodes to its normal form.
-/

import WordMachine.Instruction.Decode
import WordMachine.Proofs.Except
import WordMachine.Proofs.Instruction.NormalForm

set_option relaxedAutoImplicit false
set_option autoImplicit false

namespace WordMachine

/-! ### Words by their two fields -/

namespace Word

theorem isOdd_eq (w : UInt32) : isOdd w = (lower w % 2 == 1) := by
  unfold isOdd lower
  congr 1
  omega

theorem middle_eq (w : UInt32) : middle w = lower w / 2 ^ 8 := by
  unfold middle lower; omega

theorem payload_eq (w : UInt32) : payload w = upper w * 2 ^ 16 + lower w := by
  unfold payload upper lower; omega

theorem toNat_mod_eq (w : UInt32) : w.toNat % 2 ^ 8 = lower w % 2 ^ 8 := by
  unfold lower; omega

/-- A register leaves the mark of the upper field clear. -/
theorem isMarked_of_lt {w : UInt32} (h : upper w < 2 ^ 4) : isMarked w = false := by
  rw [isMarked, Nat.div_eq_of_lt h]
  rfl

theorem unmarked_of_lt {w : UInt32} (h : upper w < 2 ^ 4) : unmarked w = upper w := by
  rw [unmarked, isMarked_of_lt h]
  rfl

/-- A number marks the upper field exactly when it is odd. -/
theorem isMarked_of_oddMark {w : UInt32} {n v : Nat} (hn : n < 2 ^ 4)
    (h : upper w = n + oddMark v) : isMarked w = (v % 2 == 1) := by
  unfold isMarked
  by_cases hv : v % 2 = 1
  · rw [oddMark, if_pos hv] at h
    have hmark : upper w / 2 ^ 4 = 1 := by omega
    rw [hmark, hv]
  · rw [oddMark, if_neg hv] at h
    have hmark : upper w / 2 ^ 4 = 0 := by omega
    have heven : v % 2 = 0 := by omega
    rw [hmark, heven]

theorem unmarked_of_oddMark {w : UInt32} {n v : Nat} (hn : n < 2 ^ 4)
    (h : upper w = n + oddMark v) : unmarked w = n := by
  rw [unmarked, isMarked_of_oddMark hn h]
  by_cases hv : v % 2 = 1
  · rw [oddMark, if_pos hv] at h
    rw [if_pos (by rw [hv]; rfl)]
    omega
  · rw [oddMark, if_neg hv] at h
    rw [if_neg (fun hodd => hv (eq_of_beq hodd)), h, Nat.add_zero]

/-- What marks a number keeps it from reading as a register. -/
theorem not_register_of_oddMark {w : UInt32} {n : Nat} (hn : n < 2 ^ 4)
    (h : upper w = n + oddMark (lower w)) : (!isMarked w && isOdd w) = false := by
  rw [isMarked_of_oddMark hn h, isOdd_eq]
  simp

end Word

theorem Register.code_lt (r : Register) : (r.code : Nat) < 14 :=
  r.code.isLt

/-- The opcodes whose codes fill the top byte. -/
theorem Opcode.code_lt (op : Opcode) : op.code < 2 ^ 8 := by
  cases op <;> decide

/-! ### Fields -/

namespace Operand

variable {symbols : SymbolTable} {role : Role} {w : UInt32}

theorem toUInt32_toNat (v : UInt32) : v.toNat.toUInt32 = v := by
  simp

theorem resolve_eq_ok {name : Text} {v : UInt32} :
    resolve symbols name = .ok v ↔ symbols.value? name = some v := by
  unfold resolve
  cases symbols.value? name <;> simp

theorem registerOf_code (w : UInt32) (r : Register) : registerOf w r.code = .ok r := by
  simp [registerOf]

theorem registerField_ok {a : Option Operand} {n : Nat} (h : registerField role a = .ok n) :
    ∃ r, a = some (register r) ∧ n = r.code := by
  unfold registerField at h
  split at h
  · rename_i r
    exact ⟨r, rfl, (Except.ok.inj h).symm⟩
  · exact nomatch h

theorem fit16_ok {v : UInt32} {n : Nat} (h : fit16 role v = .ok n) : n = v.toNat ∧ n < 2 ^ 16 := by
  unfold fit16 at h
  split at h
  · cases h
    exact ⟨rfl, by omega⟩
  · exact nomatch h

theorem fitAddress_ok {field : AddressField} {v : UInt32} {n : Nat}
    (h : fitAddress field v = .ok n) : n = v.toNat ∧ n ≤ field.largest := by
  unfold fitAddress at h
  split at h
  · cases h
    exact ⟨rfl, ‹_›⟩
  · exact nomatch h

/-- A number that was accepted is the number of the normal form, and fits the lower field. -/
theorem immediateField_ok {b : Option Operand} {n : Nat}
    (h : immediateField symbols role b = .ok n) :
    ∃ v : UInt32, b.map (asNumber symbols) = some (immediate v) ∧ n = v.toNat ∧ n < 2 ^ 16 := by
  unfold immediateField at h
  split at h
  · rename_i v
    exact ⟨v, rfl, fit16_ok h⟩
  · rename_i name
    obtain ⟨v, hv, h⟩ := Except.bind_eq_ok.1 h
    exact ⟨v, by simp [asNumber, resolve_eq_ok.1 hv], fit16_ok h⟩
  · exact nomatch h

/-- An address that was accepted as a number is the address of the normal form. -/
theorem directField_ok {field : AddressField} {refusal : Option Operand → Misfit}
    {a : Option Operand} {n : Nat} (h : directField symbols field refusal a = .ok n) :
    ∃ v : UInt32, a.map (asAddress symbols) = some (address v) ∧ n = v.toNat ∧
      n ≤ field.largest := by
  unfold directField at h
  split at h
  · rename_i v
    exact ⟨v, rfl, fitAddress_ok h⟩
  · rename_i v
    exact ⟨v, rfl, fitAddress_ok h⟩
  · rename_i name
    obtain ⟨v, hv, h⟩ := Except.bind_eq_ok.1 h
    exact ⟨v, by simp [asAddress, resolve_eq_ok.1 hv], fitAddress_ok h⟩
  · exact nomatch h

/-- An address of seven bits fits the upper field and is read back in normal form. -/
theorem narrowField_ok {a : Option Operand} {t : Nat} (h : narrowField symbols a = .ok t) :
    ∃ o, a.map (asAddress symbols) = some o ∧ t < 2 ^ 8 ∧
      ∀ w, Word.upper w = t → ofNarrowField w = .ok o := by
  unfold narrowField at h
  split at h
  · rename_i r
    obtain rfl := Except.ok.inj h
    have hr := r.code_lt
    refine ⟨indirect r, rfl, by omega, fun w hw => ?_⟩
    have hcode : (2 ^ 7 + r.code * 2 ^ 3) / 2 ^ 3 % 2 ^ 4 = (r.code : Nat) := by omega
    simp only [ofNarrowField, hw]
    rw [if_pos (by omega), hcode, registerOf_code]
    rfl
  · obtain ⟨v, ha, rfl, hv⟩ := directField_ok h
    have hv : v.toNat ≤ 0x7F := hv
    refine ⟨address v, ha, by omega, fun w hw => ?_⟩
    simp only [ofNarrowField, hw]
    rw [if_neg (by omega), toUInt32_toNat]
    rfl

/-- An address of twenty-three bits fits both fields and is read back in normal form. -/
theorem wideField_ok {a : Option Operand} {t : Nat} (h : wideField symbols a = .ok t) :
    ∃ o, a.map (asAddress symbols) = some o ∧ t < 2 ^ 24 ∧
      ∀ w, Word.payload w = t → ofWideField w = .ok o := by
  unfold wideField at h
  split at h
  · rename_i r
    obtain rfl := Except.ok.inj h
    have hr := r.code_lt
    refine ⟨indirect r, rfl, by omega, fun w hw => ?_⟩
    have hcode : (2 ^ 23 + r.code * 2 ^ 19) / 2 ^ 19 % 2 ^ 4 = (r.code : Nat) := by omega
    simp only [ofWideField, hw]
    rw [if_pos (by omega), hcode, registerOf_code]
    rfl
  · obtain ⟨v, ha, rfl, hv⟩ := directField_ok h
    have hv : v.toNat ≤ 0x7FFFFF := hv
    refine ⟨address v, ha, by omega, fun w hw => ?_⟩
    simp only [ofWideField, hw]
    rw [if_neg (by omega), toUInt32_toNat]
    rfl

/-- The number of a flag that exists is read back as the flag. -/
theorem flagField_ok {n : UInt32} {v : Nat} (h : flagField n = .ok v) :
    ∃ f, v < 8 ∧ Flag.ofId? v = some f ∧ ofFlag f = flag n := by
  unfold flagField at h
  split at h
  · rename_i hn
    obtain rfl := Except.ok.inj h
    obtain ⟨f, hf⟩ : ∃ f, Flag.ofId? n.toNat = some f := ⟨_, List.getElem?_eq_getElem hn⟩
    have hid : ∀ m < 8, ∀ f, Flag.ofId? m = some f → f.id = m := by decide
    refine ⟨f, hn, hf, ?_⟩
    rw [ofFlag, hid _ hn f hf, toUInt32_toNat]
  · exact nomatch h

theorem absentFirst_ok {a : Option Operand} {u : Unit} (h : absentFirst a = .ok u) : a = none := by
  cases a with
  | none => rfl
  | some a => exact nomatch h

theorem absentSecond_ok {b : Option Operand} {u : Unit} (h : absentSecond b = .ok u) :
    b = none := by
  cases b with
  | none => rfl
  | some b => exact nomatch h

theorem registerMark_lt (r : Register) : registerMark r < 2 ^ 16 := by
  have := r.code_lt
  unfold registerMark
  omega

theorem oddMark_le (v : Nat) : oddMark v ≤ 2 ^ 4 := by
  unfold oddMark
  split <;> omega

theorem ofLowerField_eq {v : UInt32} (h : Word.lower w = v.toNat) :
    ofLowerField w = immediate v := by
  rw [ofLowerField, h, toUInt32_toNat]

theorem ofMiddleField_eq {r : Register} (h : Word.lower w / 2 ^ 8 = r.code) :
    ofMiddleField w = .ok (register r) := by
  rw [ofMiddleField, Word.middle_eq, h, registerOf_code]
  rfl

theorem isOdd_of_registerMark {r : Register} (h : Word.lower w = registerMark r) :
    Word.isOdd w = true := by
  have : registerMark r % 2 = 1 := by unfold registerMark; omega
  simp [Word.isOdd_eq, h, this]

theorem ofMiddleField_of_registerMark {r : Register} (h : Word.lower w = registerMark r) :
    ofMiddleField w = .ok (register r) :=
  ofMiddleField_eq (by rw [h, registerMark]; omega)

end Operand

/-! ### Forms -/

/-- The two fields **hold** two operands of the given form: every word with these fields reads as
the operands, whatever its other bits. -/
def Form.Holds (form : Form) (upper lower : Nat) (operands : Option Operand × Option Operand) :
    Prop :=
  upper < 2 ^ 8 ∧ lower < 2 ^ 16 ∧
    ∀ w, Word.upper w = upper → Word.lower w = lower → form.decode w = .ok operands

namespace Form

open Operand

variable {symbols : SymbolTable} {op op' : Opcode} {a b : Option Operand} {u l : Nat}

theorem holds_regImm (h : regImm.encode symbols op a b = .ok (op', u, l)) :
    op' = op ∧ regImm.Holds u l (regImm.normalise symbols a b) := by
  obtain ⟨n, hr, h⟩ := Except.bind_eq_ok.1 h
  obtain ⟨m, hm, h⟩ := Except.bind_eq_ok.1 h
  obtain ⟨rfl, rfl, rfl⟩ := Except.ok.inj h
  obtain ⟨r, rfl, rfl⟩ := registerField_ok hr
  obtain ⟨v, hb, rfl, hv⟩ := immediateField_ok hm
  have := r.code_lt
  refine ⟨rfl, by omega, hv, fun w hu hl => ?_⟩
  simp only [decode, normalise, hu, registerOf_code, ofLowerField_eq hl, hb]
  rfl

/-- A register in the lower field is told from a number by the lowest bit, an odd number from a
register by the mark. -/
theorem holds_regRegOrImm (h : regRegOrImm.encode symbols op a b = .ok (op', u, l)) :
    op' = op ∧ regRegOrImm.Holds u l (regRegOrImm.normalise symbols a b) := by
  obtain ⟨n, hr, h⟩ := Except.bind_eq_ok.1 h
  obtain ⟨r, rfl, rfl⟩ := registerField_ok hr
  have hr := r.code_lt
  split at h
  · rename_i s _
    obtain ⟨rfl, rfl, rfl⟩ := Except.ok.inj h
    refine ⟨rfl, by omega, registerMark_lt s, fun w hu hl => ?_⟩
    have hlt : Word.upper w < 2 ^ 4 := by omega
    simp only [decode, normalise, Word.isMarked_of_lt hlt, Word.unmarked_of_lt hlt, hu,
      registerOf_code, isOdd_of_registerMark hl, ofMiddleField_of_registerMark hl]
    rfl
  · obtain ⟨m, hm, h⟩ := Except.bind_eq_ok.1 h
    obtain ⟨rfl, rfl, rfl⟩ := Except.ok.inj h
    obtain ⟨v, hb, rfl, hv⟩ := immediateField_ok hm
    have hmark := oddMark_le v.toNat
    refine ⟨rfl, by omega, hv, fun w hu hl => ?_⟩
    have hn : (r.code : Nat) < 2 ^ 4 := by omega
    simp only [decode, normalise, Word.unmarked_of_oddMark hn hu, registerOf_code,
      Word.not_register_of_oddMark hn (hl ▸ hu), ofLowerField_eq hl, hb]
    rfl

theorem holds_regAddr16 (h : regAddr16.encode symbols op a b = .ok (op', u, l)) :
    op' = op ∧ regAddr16.Holds u l (regAddr16.normalise symbols a b) := by
  obtain ⟨n, hr, h⟩ := Except.bind_eq_ok.1 h
  obtain ⟨m, hm, h⟩ := Except.bind_eq_ok.1 h
  obtain ⟨rfl, rfl, rfl⟩ := Except.ok.inj h
  obtain ⟨r, rfl, rfl⟩ := registerField_ok hr
  obtain ⟨v, hb, rfl, hv⟩ := directField_ok hm
  have hv : v.toNat ≤ 0xFFFF := hv
  have := r.code_lt
  refine ⟨rfl, by omega, by omega, fun w hu hl => ?_⟩
  simp only [decode, normalise, hu, hl, registerOf_code, toUInt32_toNat, hb]
  rfl

theorem holds_addr8Imm (h : addr8Imm.encode symbols op a b = .ok (op', u, l)) :
    op' = op ∧ addr8Imm.Holds u l (addr8Imm.normalise symbols a b) := by
  obtain ⟨t, ht, h⟩ := Except.bind_eq_ok.1 h
  obtain ⟨m, hm, h⟩ := Except.bind_eq_ok.1 h
  obtain ⟨rfl, rfl, rfl⟩ := Except.ok.inj h
  obtain ⟨o, ha, htlt, hread⟩ := narrowField_ok ht
  obtain ⟨v, hb, rfl, hv⟩ := immediateField_ok hm
  refine ⟨rfl, htlt, hv, fun w hu hl => ?_⟩
  simp only [decode, normalise, hread w hu, ofLowerField_eq hl, ha, hb]
  rfl

/-- A stored word changes its opcode when its number is odd, and then the form changes with it. -/
theorem holds_addr8RegOrImm (h : addr8RegOrImm.encode symbols op a b = .ok (op', u, l)) :
    let operands := addr8RegOrImm.normalise symbols a b
    (operands.2.any isOddNumber = false ∧ op' = op ∧ addr8RegOrImm.Holds u l operands) ∨
      (operands.2.any isOddNumber = true ∧ op' = .stri ∧ addr8Imm.Holds u l operands) := by
  obtain ⟨t, ht, h⟩ := Except.bind_eq_ok.1 h
  obtain ⟨o, ha, htlt, hread⟩ := narrowField_ok ht
  split at h
  · rename_i s _
    obtain ⟨rfl, rfl, rfl⟩ := Except.ok.inj h
    refine .inl ⟨rfl, rfl, htlt, registerMark_lt s, fun w hu hl => ?_⟩
    simp only [decode, normalise, hread w hu, isOdd_of_registerMark hl,
      ofMiddleField_of_registerMark hl, ha]
    rfl
  · obtain ⟨m, hm, h⟩ := Except.bind_eq_ok.1 h
    obtain ⟨rfl, rfl, rfl⟩ := Except.ok.inj h
    obtain ⟨v, hb, rfl, hv⟩ := immediateField_ok hm
    by_cases hodd : v.toNat % 2 = 1
    · refine .inr ⟨by simp [normalise, hb, isOddNumber, hodd], if_pos hodd, htlt, hv,
        fun w hu hl => ?_⟩
      simp only [decode, normalise, hread w hu, ofLowerField_eq hl, ha, hb]
      rfl
    · refine .inl ⟨by simp [normalise, hb, isOddNumber, hodd], if_neg hodd, htlt, hv,
        fun w hu hl => ?_⟩
      have heven : Word.isOdd w = false := by simp [Word.isOdd_eq, hl, hodd]
      simp only [decode, normalise, hread w hu, heven, ofLowerField_eq hl, ha, hb]
      rfl

theorem holds_regOrImm (h : regOrImm.encode symbols op a b = .ok (op', u, l)) :
    op' = op ∧ regOrImm.Holds u l (regOrImm.normalise symbols a b) := by
  obtain ⟨_, hb, hfirst⟩ := Except.bind_eq_ok.1 h
  obtain rfl := absentSecond_ok hb
  -- Apart from a register, the operand is whatever the lower field takes as a number.
  have number : ∀ {m : Nat}, immediateField symbols .immediate a = .ok m →
      (op, oddMark m, m) = (op', u, l) →
        op' = op ∧ regOrImm.Holds u l (regOrImm.normalise symbols a none) := by
    rintro m hm ⟨⟩
    obtain ⟨v, ha, rfl, hv⟩ := immediateField_ok hm
    have hmark := oddMark_le v.toNat
    refine ⟨rfl, by omega, hv, fun w hu hl => ?_⟩
    have hu : Word.upper w = 0 + oddMark (Word.lower w) := by rw [hu, hl, Nat.zero_add]
    simp only [decode, normalise, Word.not_register_of_oddMark (by omega) hu,
      ofLowerField_eq hl, ha]
    rfl
  split at hfirst
  · rename_i r
    obtain ⟨rfl, rfl, rfl⟩ := Except.ok.inj hfirst
    have hr := r.code_lt
    refine ⟨rfl, by omega, by omega, fun w hu hl => ?_⟩
    have hmark : Word.isMarked w = false := Word.isMarked_of_lt (by omega)
    have hodd : Word.isOdd w = true := by simp [Word.isOdd_eq, hl]
    simp only [decode, normalise, hmark, hodd, hu, registerOf_code]
    rfl
  · obtain ⟨m, hm, hfirst⟩ := Except.bind_eq_ok.1 hfirst
    exact number hm (Except.ok.inj hfirst)
  · rename_i name
    obtain ⟨v, hv, hfirst⟩ := Except.bind_eq_ok.1 hfirst
    obtain ⟨m, hm, hfirst⟩ := Except.bind_eq_ok.1 hfirst
    exact number (Except.bind_eq_ok.2 ⟨v, hv, hm⟩) (Except.ok.inj hfirst)
  · exact nomatch hfirst

theorem holds_reg (h : reg.encode symbols op a b = .ok (op', u, l)) :
    op' = op ∧ reg.Holds u l (reg.normalise symbols a b) := by
  obtain ⟨_, hb, h⟩ := Except.bind_eq_ok.1 h
  obtain ⟨n, hr, h⟩ := Except.bind_eq_ok.1 h
  obtain ⟨rfl, rfl, rfl⟩ := Except.ok.inj h
  obtain rfl := absentSecond_ok hb
  obtain ⟨r, rfl, rfl⟩ := registerField_ok hr
  have := r.code_lt
  refine ⟨rfl, by omega, by omega, fun w hu hl => ?_⟩
  simp only [decode, normalise, hu, registerOf_code]
  rfl

theorem holds_regReg (h : regReg.encode symbols op a b = .ok (op', u, l)) :
    op' = op ∧ regReg.Holds u l (regReg.normalise symbols a b) := by
  obtain ⟨n, hr, h⟩ := Except.bind_eq_ok.1 h
  obtain ⟨m, hs, h⟩ := Except.bind_eq_ok.1 h
  obtain ⟨rfl, rfl, rfl⟩ := Except.ok.inj h
  obtain ⟨r, rfl, rfl⟩ := registerField_ok hr
  obtain ⟨s, rfl, rfl⟩ := registerField_ok hs
  have := r.code_lt
  have := s.code_lt
  refine ⟨rfl, by omega, by omega, fun w hu hl => ?_⟩
  have hmid : ofMiddleField w = .ok (register s) := ofMiddleField_eq (by rw [hl]; omega)
  simp only [decode, normalise, hu, registerOf_code, hmid]
  rfl

/-- An address of twenty-three bits is cut in two and put together again. -/
theorem holds_addr24 (h : addr24.encode symbols op a b = .ok (op', u, l)) :
    op' = op ∧ addr24.Holds u l (addr24.normalise symbols a b) := by
  obtain ⟨_, hb, h⟩ := Except.bind_eq_ok.1 h
  obtain ⟨t, ht, h⟩ := Except.bind_eq_ok.1 h
  obtain ⟨rfl, rfl, rfl⟩ := Except.ok.inj h
  obtain rfl := absentSecond_ok hb
  obtain ⟨o, ha, htlt, hread⟩ := wideField_ok ht
  refine ⟨rfl, by omega, by omega, fun w hu hl => ?_⟩
  have hpayload : Word.payload w = t := by rw [Word.payload_eq, hu, hl]; omega
  simp only [decode, normalise, hread w hpayload, ha]
  rfl

/-- The slot of zero leaves the lower field as no slot does. -/
theorem ofSlot_eq {w : UInt32} {o : Operand} {v : UInt32}
    (ho : o.asNumber symbols = immediate v) (h : Word.lower w = v.toNat) :
    ofSlot w = o.asSlot symbols := by
  rw [ofSlot, asSlot, ofLowerField_eq h, ho, h]
  by_cases hv : v = 0
  · simp [hv]
  · have : v.toNat ≠ 0 := fun h => hv (UInt32.toNat_inj.1 h)
    rw [if_neg this, if_neg (fun h => hv (by injection h))]

theorem holds_addr8Slot (h : addr8Slot.encode symbols op a b = .ok (op', u, l)) :
    op' = op ∧ addr8Slot.Holds u l (addr8Slot.normalise symbols a b) := by
  obtain ⟨t, ht, h⟩ := Except.bind_eq_ok.1 h
  obtain ⟨o, ha, htlt, hread⟩ := narrowField_ok ht
  cases b with
  | none =>
    obtain ⟨rfl, rfl, rfl⟩ := Except.ok.inj h
    refine ⟨rfl, htlt, by omega, fun w hu hl => ?_⟩
    simp only [decode, normalise, hread w hu, ofSlot, hl, ha]
    rfl
  | some b =>
    obtain ⟨m, hm, h⟩ := Except.bind_eq_ok.1 h
    obtain ⟨rfl, rfl, rfl⟩ := Except.ok.inj h
    obtain ⟨v, hb, rfl, hv⟩ := immediateField_ok hm
    refine ⟨rfl, htlt, hv, fun w hu hl => ?_⟩
    simp only [decode, normalise, hread w hu, ofSlot_eq (Option.some.inj hb) hl, ha]
    rfl

/-- An odd slot is refused, so that an odd field is a register. -/
theorem holds_addr8RegSlot (h : addr8RegSlot.encode symbols op a b = .ok (op', u, l)) :
    op' = op ∧ addr8RegSlot.Holds u l (addr8RegSlot.normalise symbols a b) := by
  obtain ⟨t, ht, hslot⟩ := Except.bind_eq_ok.1 h
  obtain ⟨o, ha, htlt, hread⟩ := narrowField_ok ht
  split at hslot
  · obtain ⟨rfl, rfl, rfl⟩ := Except.ok.inj hslot
    refine ⟨rfl, htlt, by omega, fun w hu hl => ?_⟩
    have heven : Word.isOdd w = false := by simp [Word.isOdd_eq, hl]
    simp only [decode, normalise, hread w hu, heven, ofSlot, hl, ha]
    rfl
  · rename_i s
    obtain ⟨rfl, rfl, rfl⟩ := Except.ok.inj hslot
    refine ⟨rfl, htlt, registerMark_lt s, fun w hu hl => ?_⟩
    simp only [decode, normalise, hread w hu, isOdd_of_registerMark hl,
      ofMiddleField_of_registerMark hl, ha]
    rfl
  · obtain ⟨m, hm, hnumber⟩ := Except.bind_eq_ok.1 hslot
    obtain ⟨v, hv, rfl, hlt⟩ := immediateField_ok hm
    obtain ⟨slot, rfl, hvalue⟩ := Option.map_eq_some_iff.1 hv
    by_cases hodd : v.toNat % 2 = 1
    · rw [if_pos hodd] at hnumber
      exact nomatch hnumber
    · rw [if_neg hodd] at hnumber
      obtain ⟨rfl, rfl, rfl⟩ := Except.ok.inj hnumber
      refine ⟨rfl, htlt, hlt, fun w hu hl => ?_⟩
      have heven : Word.isOdd w = false := by simp [Word.isOdd_eq, hl, hodd]
      simp only [decode, normalise, hread w hu, heven, ofSlot_eq hvalue hl, ha]
      rfl

theorem holds_flagId (h : flagId.encode symbols op a b = .ok (op', u, l)) :
    op' = op ∧ flagId.Holds u l (flagId.normalise symbols a b) := by
  obtain ⟨_, hb, hfirst⟩ := Except.bind_eq_ok.1 h
  obtain rfl := absentSecond_ok hb
  have number : ∀ {n : UInt32} {m : Nat}, a.map asFlag = some (flag n) → flagField n = .ok m →
      (op, 0, m) = (op', u, l) →
        op' = op ∧ flagId.Holds u l (flagId.normalise symbols a none) := by
    rintro n m ha hm ⟨⟩
    obtain ⟨f, hlt, hf, hflag⟩ := flagField_ok hm
    refine ⟨rfl, by omega, by omega, fun w hu hl => ?_⟩
    have hfield : w.toNat % 2 ^ 8 = l := by rw [Word.toNat_mod_eq, hl]; omega
    simp only [decode, normalise, hfield, hf, hflag, ha]
    rfl
  split at hfirst
  · obtain ⟨m, hm, hfirst⟩ := Except.bind_eq_ok.1 hfirst
    exact number rfl hm (Except.ok.inj hfirst)
  · obtain ⟨m, hm, hfirst⟩ := Except.bind_eq_ok.1 hfirst
    exact number rfl hm (Except.ok.inj hfirst)
  · exact nomatch hfirst

theorem holds_noOperands (h : noOperands.encode symbols op a b = .ok (op', u, l)) :
    op' = op ∧ noOperands.Holds u l (noOperands.normalise symbols a b) := by
  obtain ⟨_, ha, h⟩ := Except.bind_eq_ok.1 h
  obtain ⟨_, hb, h⟩ := Except.bind_eq_ok.1 h
  obtain ⟨rfl, rfl, rfl⟩ := Except.ok.inj h
  obtain rfl := absentFirst_ok ha
  obtain rfl := absentSecond_ok hb
  exact ⟨rfl, by omega, by omega, fun w _ _ => rfl⟩

end Form

/-! ### Instructions -/

/-- Only the stored word has a form that may change its opcode. -/
theorem Opcode.form_eq_addr8RegOrImm_iff {op : Opcode} :
    op.form = .addr8RegOrImm ↔ op = strw := by
  cases op <;> decide

theorem Opcode.normalise_of_ne {op : Opcode} (h : op.form ≠ .addr8RegOrImm) (b : Option Operand) :
    op.normalise b = op :=
  if_neg fun hop => h (form_eq_addr8RegOrImm_iff.2 hop.1)

open Form in
/-- **The fields of an instruction hold its normal form**, read by the form of the opcode that the
word gets. -/
theorem Form.holds_of_encode {symbols : SymbolTable} {op op' : Opcode} {a b : Option Operand}
    {u l : Nat} (h : op.form.encode symbols op a b = .ok (op', u, l)) :
    op' = op.normalise (op.form.normalise symbols a b).2 ∧
      op'.form.Holds u l (op.form.normalise symbols a b) := by
  by_cases hform : op.form = addr8RegOrImm
  · obtain rfl := Opcode.form_eq_addr8RegOrImm_iff.1 hform
    rcases holds_addr8RegOrImm h with ⟨hodd, rfl, hold⟩ | ⟨hodd, rfl, hold⟩
    · exact ⟨(if_neg fun h => Bool.false_ne_true (hodd.symm.trans h.2)).symm, hold⟩
    · exact ⟨(if_pos ⟨rfl, hodd⟩).symm, hold⟩
  · rw [Opcode.normalise_of_ne hform]
    -- The opcode is kept, so that one form reads what it has written.
    suffices hsame : op' = op ∧ op.form.Holds u l (op.form.normalise symbols a b) by
      obtain ⟨rfl, hold⟩ := hsame
      exact ⟨rfl, hold⟩
    generalize op.form = form at h hform ⊢
    cases form with
    | regImm => exact holds_regImm h
    | regRegOrImm => exact holds_regRegOrImm h
    | regAddr16 => exact holds_regAddr16 h
    | addr8Imm => exact holds_addr8Imm h
    | addr8RegOrImm => exact absurd rfl hform
    | regOrImm => exact holds_regOrImm h
    | reg => exact holds_reg h
    | regReg => exact holds_regReg h
    | addr24 => exact holds_addr24 h
    | addr8Slot => exact holds_addr8Slot h
    | addr8RegSlot => exact holds_addr8RegSlot h
    | flagId => exact holds_flagId h
    | noOperands => exact holds_noOperands h

namespace Instruction

theorem decode_of_encodeWith {symbols : SymbolTable} {i : Instruction} {w : UInt32}
    (h : i.encodeWith symbols = .ok w) : decode w = .ok (i.normalise symbols) := by
  unfold encodeWith at h
  split at h
  · rename_i op upper lower hfields
    obtain rfl := Except.ok.inj h
    obtain ⟨hop, hupper, hlower, hread⟩ := Form.holds_of_encode hfields
    have hcode := op.code_lt
    rw [decode, Word.code_pack hcode hupper hlower, Opcode.ofCode?_code]
    have hread := hread _ (Word.upper_pack hcode hupper hlower)
      (Word.lower_pack hcode hupper hlower)
    simp only [hread]
    rw [normalise, ← hop]
    rfl
  · exact nomatch h

/-- **Decoding undoes encoding.**  Whatever the encoder accepts, its word decodes, and to the normal
form of the instruction. -/
theorem decode_of_encodeNamed {symbols : SymbolTable} {mnemonic : Text} {a b : Option Operand}
    {w : UInt32} (h : encodeNamed symbols mnemonic a b = .ok w) :
    ∃ op, Opcode.ofMnemonic? mnemonic = some op ∧
      decode w = .ok (normalise symbols { opcode := op, a, b }) := by
  unfold encodeNamed at h
  split at h
  · rename_i op hop
    exact ⟨op, hop, decode_of_encodeWith h⟩
  · exact nomatch h

/-- An odd word stored by name: the address is that of the label, and the opcode has changed. -/
theorem decode_storedOddWord :
    let symbols : SymbolTable := [("count".toList, 0x11), ("table".toList, 0x40)]
    let a := some (Operand.label "table".toList)
    let b := some (Operand.label "count".toList)
    encodeNamed symbols "strw".toList a b = .ok 0x05400011 ∧
      ∃ op, Opcode.ofMnemonic? "strw".toList = some op ∧
        decode 0x05400011 = .ok (normalise symbols { opcode := op, a, b }) :=
  ⟨rfl, decode_of_encodeNamed rfl⟩

end Instruction

end WordMachine
