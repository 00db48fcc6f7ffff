/-
**Disassembly is assembly source.**

The text of a word is a line that is read as the instruction in the word, and the instruction is
encoded as it was decoded.  Only `SETF` and `CLRF` of the string flag are printed with a name that
is read as a label.  The encoder takes no label for a flag.

Main definitions:

* `Operand.IsFaithful` — an operand that is read as itself when it is printed;
* `Instruction.NamesStringFlag` — the instructions that are not read back.

Main results:

* `Form.Kinds.shape` — the operands that words hold, flags apart, are read as themselves;
* `Instruction.parse_disassemble` — what the text of a word is read as;
* `Instruction.encodeNamed_of_disassemble` — **the text of a word is assembled again, with one
  exception**.
-/

import WordMachine.Proofs.Source.Lines
import WordMachine.Proofs.Instruction.Kinds

set_option relaxedAutoImplicit false
set_option autoImplicit false

namespace WordMachine

/-! ### Operands -/

namespace Operand

variable {o : Option Operand}

/-- An operand that is read as itself when it is printed. -/
def IsFaithful (o : Option Operand) : Prop := ∃ x, o = some x ∧ x.Legible ∧ x.reading = x

theorem IsRegister.isFaithful (h : IsRegister o) : IsFaithful o := by
  obtain ⟨r, rfl⟩ := h
  exact ⟨_, rfl, .register r, rfl⟩

theorem IsNumber.isFaithful (h : IsNumber o) : IsFaithful o := by
  obtain ⟨v, rfl⟩ := h
  exact ⟨_, rfl, .immediate v, rfl⟩

theorem IsAddress.isFaithful (h : IsAddress o) : IsFaithful o := by
  obtain ⟨v, rfl⟩ := h
  exact ⟨_, rfl, .address v, rfl⟩

theorem IsIndirect.isFaithful (h : IsIndirect o) : IsFaithful o := by
  obtain ⟨r, rfl⟩ := h
  exact ⟨_, rfl, .indirect r, rfl⟩

theorem IsWord.isFaithful (h : IsWord o) : IsFaithful o :=
  h.elim IsRegister.isFaithful IsNumber.isFaithful

theorem IsPlace.isFaithful (h : IsPlace o) : IsFaithful o :=
  h.elim IsAddress.isFaithful IsIndirect.isFaithful

end Operand

open Operand in
/-- **The operands that words hold, flags apart, are read as themselves.** -/
theorem Form.Kinds.shape {form : Form} {a b : Option Operand} (h : form.Kinds a b) :
    (a = none ∧ b = none) ∨ (form = .flagId ∧ b = none) ∨
      IsFaithful a ∧ (b = none ∨ IsFaithful b) := by
  cases form with
  | regImm => exact .inr (.inr ⟨h.1.isFaithful, .inr h.2.isFaithful⟩)
  | regRegOrImm => exact .inr (.inr ⟨h.1.isFaithful, .inr h.2.isFaithful⟩)
  | regAddr16 => exact .inr (.inr ⟨h.1.isFaithful, .inr h.2.isFaithful⟩)
  | addr8Imm => exact .inr (.inr ⟨h.1.isFaithful, .inr h.2.isFaithful⟩)
  | addr8RegOrImm => exact .inr (.inr ⟨h.1.isFaithful, .inr h.2.isFaithful⟩)
  | regOrImm => exact .inr (.inr ⟨h.1.isFaithful, .inl h.2⟩)
  | reg => exact .inr (.inr ⟨h.1.isFaithful, .inl h.2⟩)
  | regReg => exact .inr (.inr ⟨h.1.isFaithful, .inr h.2.isFaithful⟩)
  | addr24 => exact .inr (.inr ⟨h.1.isFaithful, .inl h.2⟩)
  | addr8Slot => exact .inr (.inr ⟨h.1.isFaithful, h.2.imp_right IsNumber.isFaithful⟩)
  | addr8RegSlot => exact .inr (.inr ⟨h.1.isFaithful, h.2.imp_right IsWord.isFaithful⟩)
  | flagId => exact .inr (.inl ⟨rfl, h.2⟩)
  | noOperands => exact .inl h

/-! ### Mnemonics -/

namespace Opcode

theorem isWord_mnemonic (op : Opcode) : op.mnemonic.IsWord := by
  cases op <;> exact .of_all nofun rfl

theorem head?_mnemonic (op : Opcode) : op.mnemonic.head? ≠ some '.' := by
  cases op <;> decide

@[simp] theorem upper_mnemonic (op : Opcode) : op.mnemonic.upper = op.mnemonic := by
  cases op <;> rfl

theorem form_eq_flagId_iff {op : Opcode} : op.form = .flagId ↔ op = .setf ∨ op = .clrf := by
  cases op <;> decide

end Opcode

/-! ### Instructions -/

namespace Instruction

variable {w : UInt32} {i : Instruction}

/-- The instructions that are not read back. -/
def NamesStringFlag (i : Instruction) : Prop :=
  (i.opcode = .setf ∨ i.opcode = .clrf) ∧ i.a = some (.flag 4)

/-- The first operand is legible, and the second is read as itself. -/
theorem legible_of_decode (h : decode w = .ok i) :
    (∀ o ∈ i.a, o.Legible) ∧ (∀ o ∈ i.b, o.Legible ∧ o.reading = o) ∧
      (i.a = none → i.b = none) := by
  rcases (kinds_of_decode h).shape with ⟨ha, hb⟩ | ⟨hform, hb⟩ | ⟨⟨x, ha, hx, _⟩, hb⟩
  · rw [ha, hb]
    exact ⟨nofun, nofun, fun _ => rfl⟩
  · obtain ⟨f, ha⟩ := exists_flag_of_decode h hform
    rw [ha, hb]
    refine ⟨?_, nofun, fun _ => rfl⟩
    rintro o ⟨⟩
    exact .flag f
  · rw [ha]
    refine ⟨?_, ?_, nofun⟩
    · rintro o ⟨⟩
      exact hx
    · rcases hb with hb | ⟨y, hb, hy⟩
      · rw [hb]
        nofun
      · rw [hb]
        rintro o ⟨⟩
        exact hy

/-- **What the text of a word is read as.** -/
theorem parse_disassemble (h : decode w = .ok i) (line : Nat) :
    Command.parse line (disassemble w) =
      .ok ⟨line, none, .instruction i.opcode.mnemonic, i.a.map Operand.reading, i.b⟩ := by
  obtain ⟨ha, hb, hab⟩ := legible_of_decode h
  have htext : disassemble w = i.opcode.mnemonic ++ Operand.printPair i.a i.b := by
    rw [disassemble, h]
    rfl
  have hreading : i.b.map Operand.reading = i.b := by
    cases hsecond : i.b with
    | none => rfl
    | some o => exact congrArg some (hb o hsecond).2
  rw [htext, Command.parse_printPair i.opcode.isWord_mnemonic.isPiece i.opcode.head?_mnemonic ha
    (fun o ho => (hb o ho).1) hab, hreading, Opcode.upper_mnemonic]

/-- The operands of the instructions that are not read back. -/
theorem operands_of_namesStringFlag (h : decode w = .ok i) (hflag : i.NamesStringFlag) :
    i.a = some (.ofFlag .string) ∧ i.b = none := by
  have hkinds := kinds_of_decode h
  rw [Opcode.form_eq_flagId_iff.2 hflag.1] at hkinds
  exact ⟨hflag.2, hkinds.2⟩

/-- Only a flag can be read as something else, so that no other opcode has the exception. -/
theorem map_reading_of_not_namesStringFlag (h : decode w = .ok i) (hflag : ¬ i.NamesStringFlag) :
    i.a.map Operand.reading = i.a := by
  rcases (kinds_of_decode h).shape with ⟨ha, _⟩ | ⟨hform, _⟩ | ⟨⟨x, ha, _, hx⟩, _⟩
  · rw [ha]
    rfl
  · obtain ⟨f, ha⟩ := exists_flag_of_decode h hform
    have hne : Operand.ofFlag f ≠ Operand.ofFlag .string := by
      intro heq
      exact hflag ⟨Opcode.form_eq_flagId_iff.1 hform, ha.trans (congrArg some heq)⟩
    rw [ha]
    exact congrArg some (Operand.reading_eq_self_iff.2 hne)
  · rw [ha]
    exact congrArg some hx

/-- The encoder takes no label for a flag. -/
theorem encodeNamed_of_namesStringFlag (h : decode w = .ok i) (hflag : i.NamesStringFlag) :
    encodeNamed [] i.opcode.mnemonic (i.a.map Operand.reading) i.b =
      .error (.misfit i.opcode (.notFlag (some (.label Flag.string.name)))) := by
  obtain ⟨ha, hb⟩ := operands_of_namesStringFlag h hflag
  rw [ha, hb]
  rcases hflag.1 with hop | hop <;> rw [hop] <;> rfl

/-- **The text of a word is assembled again, with one exception.**  The line is read as the
instruction, and encoding it gives the word of the instruction, which need not be the word that was
disassembled but decodes to the same instruction. -/
theorem encodeNamed_of_disassemble (h : decode w = .ok i) (line : Nat) :
    ∃ c, Command.parse line (disassemble w) = .ok c ∧ c.label = none ∧
      c.operation = .instruction i.opcode.mnemonic ∧
      ((∃ v, encodeNamed [] i.opcode.mnemonic c.a c.b = .ok v ∧ i.encode = .ok v ∧
        decode v = .ok i) ↔ ¬ i.NamesStringFlag) ∧
      (i.NamesStringFlag → encodeNamed [] i.opcode.mnemonic c.a c.b =
        .error (.misfit i.opcode (.notFlag (some (.label Flag.string.name))))) := by
  refine ⟨_, parse_disassemble h line, rfl, rfl, ?_, encodeNamed_of_namesStringFlag h⟩
  constructor
  · rintro ⟨v, hv, -⟩ hflag
    exact nomatch hv.symm.trans (encodeNamed_of_namesStringFlag h hflag)
  · intro hflag
    obtain ⟨v, hv⟩ := encodeWith_of_decode [] h
    refine ⟨v, ?_, hv, ?_⟩
    · rw [map_reading_of_not_namesStringFlag h hflag, encodeNamed, Opcode.ofMnemonic?_mnemonic]
      exact hv
    · rw [decode_of_encodeWith hv, normalise_of_decode [] h]

/-- A word with an unused bit set, which the word that is assembled from its text lacks. -/
theorem encodeNamed_disassemble_unusedBit :
    let i : Instruction :=
      { opcode := .strw, a := some (.indirect .ax), b := some (.immediate 0x1F4) }
    decode 0x068101F4 = .ok i ∧ disassemble 0x068101F4 = "STRW [AX], 0x1F4".toList ∧
      ∃ c, Command.parse 1 (disassemble 0x068101F4) = .ok c ∧
        encodeNamed [] "STRW".toList c.a c.b = .ok 0x068001F4 ∧ decode 0x068001F4 = .ok i := by
  intro i
  have hdecode : decode 0x068101F4 = .ok i := by cbv
  have hencode : i.encode = .ok 0x068001F4 := by cbv
  obtain ⟨c, hparse, -, -, hiff, -⟩ := encodeNamed_of_disassemble hdecode 1
  have hflag : ¬ i.NamesStringFlag := by
    rintro ⟨hop | hop, -⟩ <;> cases hop
  obtain ⟨v, hv, hv', hdecode'⟩ := hiff.2 hflag
  obtain rfl := Except.ok.inj (hencode.symm.trans hv')
  exact ⟨hdecode, by decide +kernel, c, hparse, hv, hdecode'⟩

end Instruction

end WordMachine
