/-
**Every label is within reach.**

A jump has room for an address of twenty-three bits in its word; the bit above them marks an address
that is held in a register.  The encoder refuses a wider address, and so a program could be refused
for the places of its own labels, or a jump could go to a register instead of a label.  Neither
happens.  A label lies no further than the end of its segment, the text ends where the data starts
at the latest, the data ends where the stack starts, and the stack starts inside memory.  The label
at the very end of the data is still the address of a byte, and the largest memory has no byte whose
address needs the bit of the mark.

Main definitions:

* `Opcode.farReaching` — the opcodes whose operand is any place in memory;
* `Program.Reaches` — **a command reaches a label**: its word, and what the word decodes to.

Main results:

* `Survey.Placed.resolve_lt_of_origin` — a label is the address of a byte of memory;
* `Instruction.encodeNamed_label` — a name with such a value has a word, which is decoded to it;
* `Program.reaches_of_label` — every label is within reach of every command.
-/

import WordMachine.Proofs.Assembly.Findings
import WordMachine.Proofs.Assembly.Symbols
import WordMachine.Proofs.Instruction.RoundTrip

set_option relaxedAutoImplicit false
set_option autoImplicit false

namespace WordMachine

/-! ### Labels lie inside memory -/

namespace Survey

variable {s : Survey} {memory : Nat} {cs : List Command}

/-- **A label of a placed survey is the address of a byte of memory**, even at the end of its
segment. -/
theorem Placed.resolve_lt_of_origin {d : Definition} (h : s.Placed memory) (hd : s.Sheltered d)
    (ho : d.origin ≠ .absolute) : s.resolve memory d < memory := by
  obtain ⟨_, htext, hdata, hstack, _⟩ := h
  unfold Sheltered at hd
  unfold resolve
  cases horigin : d.origin with
  | text => simp only [horigin] at hd ⊢; omega
  | data => simp only [horigin] at hd ⊢; omega
  | absolute => exact absurd horigin ho

end Survey

theorem Section.origin_ne_absolute (s : Section) : s.origin ≠ .absolute := by
  rcases s.eq_text_or_eq_data with rfl | rfl
  · exact nofun
  · exact nofun

/-- The value of a label in a layout is the address of a byte of memory. -/
theorem Layout.value?_label {memory : MemorySize} {cs : List Command} {l : Layout}
    (hl : ofCommands memory cs = .ok l) {d : Command} {name : Text} (hd : d ∈ cs)
    (hname : d.label = some name) :
    ∃ v, l.symbols.value? name = some v ∧ v.toNat < memory.bytes := by
  obtain ⟨hsurveyed, hplaced, rfl⟩ := Program.layout_ok hl
  obtain ⟨before, after, rfl⟩ := List.append_of_mem hd
  have hmem := Survey.mem_definitions_label hsurveyed hname
  obtain ⟨v, hv, hvalue⟩ := Survey.value?_symbols hsurveyed hplaced hmem
  refine ⟨v, hv, ?_⟩
  rw [hvalue]
  exact hplaced.resolve_lt_of_origin (Survey.sheltered_ofCommands hsurveyed hmem)
    (Section.origin_ne_absolute _)

/-! ### Names in the wide field -/

/-- The opcodes whose operand is any place in memory: the jumps, the call, and the transfers between
the console and memory that are given an address only. -/
def Opcode.farReaching : List Opcode :=
  [jmp, call, je, jne, jgt, jge, jlt, jle, js, jco, inp, out, insi]

theorem Opcode.form_eq_addr24_iff {op : Opcode} : op.form = .addr24 ↔ op ∈ farReaching := by
  cases op <;> decide

section Encoding

variable {symbols : SymbolTable} {mnemonic name : Text} {op : Opcode} {v : UInt32}

/-- A name whose value has twenty-three bits fits the wide field. -/
theorem Operand.wideField_label (hv : symbols.value? name = some v) (hlt : v.toNat < 2 ^ 23) :
    wideField symbols (some (label name)) = .ok v.toNat := by
  have hresolve : resolve symbols name = .ok v := resolve_eq_ok.2 hv
  have hfit : fitAddress .wide v = .ok v.toNat := if_pos (Nat.le_of_lt_succ hlt)
  show (resolve symbols name >>= fitAddress .wide) = _
  rw [hresolve]
  exact hfit

/-- **A name whose value has twenty-three bits has a word**, and the word is decoded to the value as
a direct address. -/
theorem Instruction.encodeNamed_label (hop : Opcode.ofMnemonic? mnemonic = some op)
    (hreach : op ∈ Opcode.farReaching) (hv : symbols.value? name = some v)
    (hlt : v.toNat < 2 ^ 23) :
    ∃ w, encodeNamed symbols mnemonic (some (.label name)) none = .ok w ∧
      decode w = .ok { opcode := op, a := some (.address v), b := none } := by
  have hform : op.form = .addr24 := Opcode.form_eq_addr24_iff.2 hreach
  have hfields : op.form.encode symbols op (some (.label name)) none =
      .ok (op, v.toNat / 2 ^ 16, v.toNat % 2 ^ 16) := by
    rw [hform]
    show (Operand.wideField symbols (some (.label name)) >>= _) = _
    rw [Operand.wideField_label hv hlt]
    rfl
  obtain ⟨w, hword⟩ : ∃ w, encodeWith symbols { opcode := op, a := some (.label name) } = .ok w := by
    simp only [encodeWith, hfields]
    exact ⟨_, rfl⟩
  have hnormal : normalise symbols { opcode := op, a := some (.label name) } =
      { opcode := op, a := some (.address v) } := by
    have hkept : ∀ b, op.normalise b = op :=
      Opcode.normalise_of_ne (by rw [hform]; exact nofun)
    simp [normalise, hform, hkept, Form.normalise, Operand.asAddress, hv]
  refine ⟨w, ?_, ?_⟩
  · rw [encodeNamed, hop]
    exact hword
  · rw [decode_of_encodeWith hword, hnormal]

end Encoding

/-! ### Commands that name a label -/

namespace Program

variable {memory : MemorySize} {source mnemonic name : Text} {before after cs : List Command}
  {c : Command} {l : Layout} {op : Opcode}

/-- **A command reaches a label** with the value `v`, by the word `w`. -/
structure Reaches (memory : MemorySize) (source : Text) (l : Layout) (before : List Command)
    (c : Command) (op : Opcode) (name : Text) (v w : UInt32) : Prop where
  /-- The value of the label. -/
  value : l.symbols.value? name = some v
  /-- The label is the address of a byte of memory. -/
  inside : v.toNat < memory.bytes
  /-- The address does not meet the bit that marks a register. -/
  fits : v.toNat < 2 ^ 23
  /-- The command has a word. -/
  word : c.word? l.symbols = some (.ok w)
  /-- The second walk appends the word, whatever was emitted and reported before, and reports
  nothing. -/
  emitted : ∀ e : Emission, e.step l.symbols c =
    { e with text := e.text.push w, lines := e.lines.push c.line }
  /-- The word is decoded to the address of the label, and not to a register. -/
  decoded : Instruction.decode w = .ok { opcode := op, a := some (.address v), b := none }
  /-- In the assembled program the word stands after those of the instructions before it. -/
  text : ∀ p, assemble memory source = .ok p →
    p.text[before.countP Command.isInstruction]? = some w

/-- The place of a word in the text of an assembled program. -/
theorem getElem?_text {p : Program} {w : UInt32} (hcs : commands source = .ok cs)
    (hl : Layout.ofCommands memory cs = .ok l) (hsplit : cs = before ++ c :: after)
    (hword : c.word? l.symbols = some (.ok w)) (h : assemble memory source = .ok p) :
    p.text[before.countP Command.isInstruction]? = some w := by
  obtain ⟨cs', hcs', hbuilt⟩ := built_of_assemble h
  obtain rfl : cs = cs' := Except.ok.inj (hcs.symm.trans hcs')
  have hsymbols : p.symbols = l.symbols := by
    obtain ⟨-, -, rfl⟩ := layout_ok hl
    exact hbuilt.symbols
  have htext : p.text.map Except.ok = cs.filterMap (Command.word? l.symbols) := by
    rw [hbuilt.text, ← hsymbols]
    exact Emission.text_ofCommands hbuilt.emitted
  have hlength : (before.filterMap (Command.word? l.symbols)).length =
      before.countP Command.isInstruction := by
    rw [List.length_filterMap_eq_countP]
    simp only [Command.isSome_word?]
  have hget : (p.text.map Except.ok)[before.countP Command.isInstruction]? =
      some (Except.ok w : Except EncodingError UInt32) := by
    rw [htext, hsplit, List.filterMap_append, List.filterMap_cons_some hword, ← hlength]
    simp
  rw [List.getElem?_map] at hget
  obtain ⟨w', hw', hok⟩ := Option.map_eq_some_iff.1 hget
  rw [hw', Except.ok.inj hok]

/-- **Every label is within reach**: whenever the first walk admits a program, for a memory of any
size that there is, each command that takes a place and names a label has a word, and the word is
decoded to the address of that label. -/
theorem reaches_of_label (hcs : commands source = .ok cs)
    (hl : Layout.ofCommands memory cs = .ok l) (hsplit : cs = before ++ c :: after)
    (hc : c.operation = .instruction mnemonic) (hop : Opcode.ofMnemonic? mnemonic = some op)
    (hreach : op ∈ Opcode.farReaching) (ha : c.a = some (.label name)) (hb : c.b = none)
    (hname : ∃ d ∈ cs, d.label = some name) :
    ∃ v w, Reaches memory source l before c op name v w := by
  obtain ⟨d, hd, hname⟩ := hname
  obtain ⟨v, hv, hinside⟩ := Layout.value?_label hl hd hname
  have hfits : v.toNat < 2 ^ 23 := Nat.lt_of_lt_of_le hinside memory.le_largest
  obtain ⟨w, hw, hdecode⟩ := Instruction.encodeNamed_label hop hreach hv hfits
  have hencode : Instruction.encodeNamed l.symbols mnemonic c.a c.b = .ok w := by
    rw [ha, hb]
    exact hw
  have hword : c.word? l.symbols = some (.ok w) := by
    simp only [Command.word?, hc, hencode]
  refine ⟨v, w, hv, hinside, hfits, hword, ?_, hdecode, ?_⟩
  · intro e
    simp only [Emission.step, hc, Emission.addInstruction, hencode]
  · intro p h
    exact getElem?_text hcs hl hsplit hword h

/-- A source with a label behind its data, and a stack of one byte. -/
def remoteSource : Text :=
  ".stack_size 1\nINC AX\n.data\n.byte 7\nend:\n.text\nCALL end".toList

/-- In the largest memory the label is its last address, which has all bits but that of the mark. -/
theorem reaches_lastByte :
    let memory : MemorySize := { bytes := largestMemory }
    let c : Command :=
      { line := 7, operation := .instruction "CALL".toList, a := some (.label "end".toList) }
    ∃ before l, commands remoteSource = .ok (before ++ [c]) ∧
      Layout.ofCommands memory (before ++ [c]) = .ok l ∧
      (∃ d ∈ before ++ [c], d.label = some "end".toList) ∧
      Reaches memory remoteSource l before c .call "end".toList 0x7FFFFF 0x417FFFFF := by
  intro memory c
  let marker : Command := { line := 5, label := some "end".toList, operation := .blank }
  let before : List Command :=
    [{ line := 1, operation := .setting .stackSize 1, a := some (.immediate 1) },
      { line := 2, operation := .instruction "INC".toList, a := some (.register .ax) },
      { line := 3, operation := .enter .data },
      { line := 4, operation := .data .byte, a := some (.immediate 7) }, marker,
      { line := 6, operation := .enter .text }]
  let l : Layout :=
    { textStart := 0, dataStart := 0x7FFFFE, stackStart := 0x7FFFFF, stackSize := 1,
      symbols := [("end".toList, 0x7FFFFF)] }
  have hcs : commands remoteSource = .ok (before ++ [c]) := by decide +kernel
  have hl : Layout.ofCommands memory (before ++ [c]) = .ok l := by decide +kernel
  have hname : ∃ d ∈ before ++ [c], d.label = some "end".toList :=
    ⟨marker, by simp [before], rfl⟩
  have hop : Opcode.ofMnemonic? "CALL".toList = some .call := Opcode.ofMnemonic?_mnemonic .call
  have hreach : Opcode.call ∈ Opcode.farReaching := by simp [Opcode.farReaching]
  obtain ⟨v, w, hreaches⟩ := reaches_of_label hcs hl rfl rfl hop hreach rfl rfl hname
  obtain rfl : 0x7FFFFF = v := Option.some.inj (hreaches.value.symm.trans rfl).symm
  obtain rfl : 0x417FFFFF = w := by
    have hword : c.word? l.symbols = some (.ok 0x417FFFFF) := by decide
    exact Except.ok.inj (Option.some.inj (hword.symm.trans hreaches.word))
  exact ⟨before, l, hcs, hl, hname, hreaches⟩

end Program

end WordMachine
