/-
**The two walks agree on every address.**

The first walk counts bytes before any word or byte exists; the second walk makes the words and the
bytes, with a section and an offset of its own.  The values of the names come from the first walk,
and the addresses that they are meant to be come from the second.  Here the two are compared: a
label in the text stands for the word that follows it, a label in the data for the byte that follows
it, and the name of a number for that number.

Main definitions:

* `Program.place` — the address after what some commands stand for, as the second walk has it;
* `Program.Agrees` — the text, the names and their values are those that the commands call for.

Main results:

* `Program.Built.value?_eq` — the value of a name, without loss;
* `Program.agrees_of_assemble` — **the two walks agree on every address**.
-/

import WordMachine.Proofs.Assembly.Placement

set_option relaxedAutoImplicit false
set_option autoImplicit false

namespace WordMachine

/-- A name that is listed once has the value that is listed with it. -/
theorem SymbolTable.value?_of_mem {symbols : SymbolTable} {name : Text} {v : UInt32}
    (hnodup : (symbols.map Prod.fst).Nodup) (h : (name, v) ∈ symbols) :
    symbols.value? name = some v := by
  induction symbols with
  | nil => contradiction
  | cons entry symbols ih =>
      rw [List.map_cons, List.nodup_cons] at hnodup
      rcases List.mem_cons.1 h with rfl | h
      · simp [value?]
      · have hne : (name == entry.1) = false := by
          refine beq_eq_false_iff_ne.2 ?_
          rintro rfl
          exact hnodup.1 (List.mem_map.2 ⟨_, h, rfl⟩)
        rw [value?, List.lookup_cons, hne]
        exact ih hnodup.2 h

namespace Survey

variable {memory : MemorySize} {before after cs : List Command} {c : Command} {name : Text}

/-- The value of a name is what a walk without mistakes has found, and nothing is lost in its 32
bits. -/
theorem value?_symbols (h : (ofCommands cs).problems = #[])
    (hplaced : (ofCommands cs).Placed memory.bytes) {d : Definition}
    (hd : d ∈ (ofCommands cs).definitions.toList) :
    ∃ v, ((ofCommands cs).symbols memory.bytes).value? d.name = some v ∧
      v.toNat = (ofCommands cs).resolve memory.bytes d := by
  have hlt := hplaced.resolve_lt (sheltered_ofCommands h hd) (Nat.le_of_lt memory.bytes_lt)
  refine ⟨((ofCommands cs).resolve memory.bytes d).toUInt32, ?_, toNat_toUInt32 hlt⟩
  refine SymbolTable.value?_of_mem ?_ (List.mem_map_of_mem hd)
  rw [symbols, List.map_map]
  exact nodup_names h

/-- A label has been defined as the place that the walk had reached. -/
theorem mem_definitions_label (h : (ofCommands (before ++ c :: after)).problems = #[])
    (hname : c.label = some name) :
    ⟨name, (ofCommands before).current.origin, (ofCommands before).offset, c.line⟩ ∈
      (ofCommands (before ++ c :: after)).definitions.toList := by
  refine mem_definitions h (List.mem_append_left _ ?_)
  simp only [labelDefinitions, hname]
  exact List.mem_singleton_self _

end Survey

namespace Program

/-- The address after what some commands stand for, in the segment whose section is then in force:
four bytes for each instruction, or the bytes of data that the second walk has emitted.  The sums
are those of unbounded numbers. -/
def place (p : Program) (before : List Command) : Nat :=
  match Section.inForce before with
  | .text => p.textStart.toNat + 4 * before.countP Command.isInstruction
  | .data => p.dataStart.toNat + (Emission.ofCommands p.symbols before).data.size

/-- **The text, the names and their values are those that the commands call for.** -/
structure Agrees (p : Program) (cs : List Command) : Prop where
  /-- No name is defined twice. -/
  nodup : (cs.flatMap Command.names).Nodup
  /-- The names with a value are those that are defined. -/
  names : p.symbols.map Prod.fst = cs.flatMap Command.names
  /-- The text consists of the words of the instructions, in their order. -/
  text : p.text.map Except.ok = cs.filterMap (Command.word? p.symbols)
  /-- Every word has the line of its instruction. -/
  lines : p.lines = (cs.filter Command.isInstruction).map Command.line
  /-- The data is what the second walk emits. -/
  data : p.data = (Emission.ofCommands p.symbols cs).data.toList
  /-- A label stands for the place in front of which it is written. -/
  label : ∀ before c after name, cs = before ++ c :: after → c.label = some name →
    ∃ v, p.symbols.value? name = some v ∧ v.toNat = p.place before
  /-- The name of a number stands for that number. -/
  number : ∀ c ∈ cs, c.operation = .equate → ∃ name v, c.a = some (.label name) ∧
    c.b = some (.immediate v) ∧ p.symbols.value? name = some v

variable {memory : MemorySize} {source : Text} {cs : List Command} {p : Program}

/-! ### Names -/

theorem Built.names_eq (h : Built memory cs p) :
    p.symbols.map Prod.fst = cs.flatMap Command.names := by
  rw [h.symbols, ← Survey.names_ofCommands h.surveyed, Survey.symbols, List.map_map]
  rfl

theorem Built.nodup_names (h : Built memory cs p) : (cs.flatMap Command.names).Nodup := by
  rw [← Survey.names_ofCommands h.surveyed]
  exact Survey.nodup_names h.surveyed

/-- **The value of a name is what the first walk has found**, and nothing is lost in its 32 bits. -/
theorem Built.value?_eq (h : Built memory cs p) {d : Definition}
    (hd : d ∈ (Survey.ofCommands cs).definitions.toList) :
    ∃ v, p.symbols.value? d.name = some v ∧
      v.toNat = (Survey.ofCommands cs).resolve memory.bytes d := by
  rw [h.symbols]
  exact Survey.value?_symbols h.surveyed h.placed hd

/-! ### Values -/

/-- The first walk places a label where the second walk stands when it reaches the label. -/
theorem Built.resolve_label {before after : List Command} {c : Command}
    (h : Built memory (before ++ c :: after) p) (name : Text) (line : Nat) :
    (Survey.ofCommands (before ++ c :: after)).resolve memory.bytes
      ⟨name, (Survey.ofCommands before).current.origin, (Survey.ofCommands before).offset, line⟩ =
      p.place before := by
  have hbefore := Survey.problems_of_append h.surveyed
  have hcurrent := Survey.current_ofCommands hbefore
  unfold Survey.resolve Survey.offset place
  rcases (Section.inForce before).eq_text_or_eq_data with hc | hc
  · simp only [hcurrent, hc, Section.origin]
    rw [Survey.textSize_ofCommands hbefore, h.textStart, Nat.add_comm]
  · simp only [hcurrent, hc, Section.origin]
    rw [h.dataSize_prefix, h.dataStart, Nat.add_comm]

theorem Built.value?_label {before after : List Command} {c : Command} {name : Text}
    (h : Built memory (before ++ c :: after) p) (hname : c.label = some name) :
    ∃ v, p.symbols.value? name = some v ∧ v.toNat = p.place before := by
  have hd := Survey.mem_definitions_label h.surveyed hname
  obtain ⟨v, hv, hplace⟩ := h.value?_eq hd
  exact ⟨v, hv, hplace.trans (h.resolve_label name c.line)⟩

theorem Built.value?_number {c : Command} (h : Built memory cs p) (hc : c ∈ cs)
    (hop : c.operation = .equate) : ∃ name v, c.a = some (.label name) ∧
      c.b = some (.immediate v) ∧ p.symbols.value? name = some v := by
  obtain ⟨before, after, rfl⟩ := List.append_of_mem hc
  have hsurveyed : (Survey.ofCommands ((before ++ [c]) ++ after)).problems = #[] := by
    rw [← List.append_cons]
    exact h.surveyed
  have hvisited := Survey.visited_of_concat (Survey.problems_of_append hsurveyed)
  obtain ⟨name, v, ha, hb⟩ := hvisited.equate hop
  have hd := Survey.mem_definitions h.surveyed (List.mem_append_right _ (by
    simp only [Survey.numberDefinitions, hop, ha, hb]
    exact List.mem_singleton_self _))
  obtain ⟨w, hw, hvalue⟩ := h.value?_eq hd
  refine ⟨name, v, ha, hb, ?_⟩
  rw [hw, UInt32.toNat_inj.1 hvalue]

/-! ### Agreement -/

/-- **The two walks agree on every address**: whenever a source is assembled, every word, every line,
every name and every value is the one that its commands, with all macros expanded, call for. -/
theorem agrees_of_assemble (h : assemble memory source = .ok p) :
    ∃ cs, commands source = .ok cs ∧ p.Agrees cs := by
  obtain ⟨cs, hcs, hbuilt⟩ := built_of_assemble h
  refine ⟨cs, hcs, hbuilt.nodup_names, hbuilt.names_eq, ?_, ?_, hbuilt.data, ?_, ?_⟩
  · rw [hbuilt.text, Emission.text_ofCommands hbuilt.emitted]
  · rw [hbuilt.lines, Emission.lines_ofCommands hbuilt.emitted]
  · rintro before c after name rfl hname
    exact hbuilt.value?_label hname
  · intro c hc hop
    exact hbuilt.value?_number hc hop

/-- A source that goes back and forth between its sections, with a macro, padding, a number and a
label at the end. -/
def switchingSource : Text :=
  (".macro twice r\nINC r\nINC r\n.endmacro\nstart: MOVI AX, k\nagain: twice AX\n" ++
    ".data\na: .byte 1\n.align 4\nb: .word c\n.equ k, 7\n.text\nJMP again\nc: HALT\nend:").toList

/-- The label behind the padding is the place of its word, and that word holds a place of the
text. -/
theorem agrees_switchingSource :
    ∃ p cs, assemble .standard switchingSource = .ok p ∧ commands switchingSource = .ok cs ∧
      p.symbols.value? "b".toList = some 61436 ∧ p.data = [1, 0, 0, 0, 16, 0, 0, 0] ∧
      p.Agrees cs := by
  have h : assemble .standard switchingSource = .ok
      { text := [0x01000007, 0x13000000, 0x13000000, 0x40000004, 0xFF000000],
        data := [1, 0, 0, 0, 16, 0, 0, 0], textStart := 0, dataStart := 61432,
        stackStart := 61440, lines := [5, 6, 6, 13, 14], stackSize := 4096,
        symbols := [("start".toList, 0), ("again".toList, 4), ("a".toList, 61432),
          ("b".toList, 61436), ("k".toList, 7), ("c".toList, 16), ("end".toList, 20)] } := by
    decide +kernel
  obtain ⟨cs, hcs, hagrees⟩ := agrees_of_assemble h
  exact ⟨_, cs, h, hcs, by decide, rfl, hagrees⟩

end Program

end WordMachine
