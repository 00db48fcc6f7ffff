/-
**Line numbers in a program.**

The two walks over the commands of a program carry the numbers of lines along, and never look at
them; the sizes and places of the segments, the values of the names, the words and the bytes do not
depend on them.  So assembling an annotated text gives what assembling the text gives, except that
the words have the new numbers of their lines, and when it fails, the same findings on their new
lines.

Main definitions:

* `Survey.renumber`, `Emission.renumber` — what a walk has found, with other line numbers;
* `Program.renumber`, `AssemblyError.renumber` — the outcome with other line numbers.

Main results:

* `Survey.step_renumber`, `Emission.step_renumber` — a step of a walk carries the number along;
* `Program.assemble_of_annotates` — **what an annotated text assembles to**, or fails with;
* `Program.mem_lines_of_assemble` — the line of a word is a line of the text;
* `Program.assemble_annotated` — **comments, blank lines and line ends do not matter**.
-/

import WordMachine.Proofs.Assembly.Placement
import WordMachine.Proofs.Source.Labels
import WordMachine.Proofs.Source.Renumbering

set_option relaxedAutoImplicit false
set_option autoImplicit false

namespace WordMachine

/-! ### The first walk -/

/-- A mistake with other line numbers: one of them names another line. -/
def LayoutError.renumber (φ : Nat → Nat) : LayoutError → LayoutError
  | duplicateLabel name first => duplicateLabel name (φ first)
  | cause => cause

/-- A definition on another line. -/
def Definition.renumber (φ : Nat → Nat) (d : Definition) : Definition := { d with line := φ d.line }

namespace Survey

/-- What the walk has found, with other line numbers. -/
def renumber (φ : Nat → Nat) (s : Survey) : Survey :=
  { s with
    definitions := s.definitions.map (Definition.renumber φ)
    problems := s.problems.map (Diagnostic.renumber φ (LayoutError.renumber φ)) }

/-- What a command leads to, with other line numbers. -/
def Visit.renumber (φ : Nat → Nat) : Visit → Visit :=
  Except.bimap (Prod.map (LayoutError.renumber φ) (Survey.renumber φ)) (Survey.renumber φ)

variable (φ : Nat → Nat) (s : Survey) (c : Command)

theorem define_renumber (d : Definition) :
    (s.renumber φ).define (d.renumber φ) = Visit.renumber φ (s.define d) := by
  have hfind : (s.renumber φ).find? d.name = (s.find? d.name).map (Definition.renumber φ) :=
    Array.find?_map
  have hname : (d.renumber φ).name = d.name := rfl
  have hvalue : (d.renumber φ).value = d.value := rfl
  unfold define
  rw [hname, hfind, hvalue]
  cases s.find? d.name with
  | some first => rfl
  | none =>
      simp only [Option.map_none]
      split
      · rfl
      · simp [Visit.renumber, Except.bimap, renumber]

theorem defineLabel_renumber :
    (s.renumber φ).defineLabel (c.renumber φ) = Visit.renumber φ (s.defineLabel c) := by
  obtain ⟨line, label, operation, a, b⟩ := c
  cases label with
  | none => rfl
  | some name => exact define_renumber φ s ⟨name, s.current.origin, s.offset, line⟩

/-- Whatever comes after the label is defined. -/
theorem defineLabel_bind_renumber {f f' : Survey → Visit}
    (hf : ∀ s : Survey, f' (s.renumber φ) = Visit.renumber φ (f s)) :
    ((s.renumber φ).defineLabel (c.renumber φ) >>= f') =
      Visit.renumber φ (s.defineLabel c >>= f) := by
  rw [defineLabel_renumber]
  exact Except.bind_bimap hf

theorem equate_renumber :
    (s.renumber φ).equate (c.renumber φ) = Visit.renumber φ (s.equate c) := by
  have ha : (c.renumber φ).a = c.a := rfl
  have hb : (c.renumber φ).b = c.b := rfl
  unfold equate
  rw [ha, hb]
  split
  · rename_i name v _ _
    exact defineLabel_bind_renumber φ s c fun s =>
      define_renumber φ s ⟨name, .absolute, v.toNat, c.line⟩
  · rfl
  · rfl

theorem enter_renumber (target : Section) :
    (s.renumber φ).enter (c.renumber φ) target = Visit.renumber φ (s.enter c target) := by
  obtain ⟨line, label, operation, a, b⟩ := c
  cases a <;> cases b <;> rfl

theorem place_renumber (setting : Setting) (v : UInt32) :
    (s.renumber φ).place setting v = Visit.renumber φ (s.place setting v) := by
  obtain ⟨_, _, _, textStart, stackStart, stackSize, _, _⟩ := s
  cases setting with
  | textStart => cases textStart <;> rfl
  | stackStart => cases stackStart <;> rfl
  | stackSize => cases stackSize <;> rfl

theorem addData_renumber (k : DataKind) :
    (s.renumber φ).addData (c.renumber φ) k = Visit.renumber φ (s.addData c k) := by
  have hoperands : Datum.ofOperands k (c.renumber φ).a (c.renumber φ).b =
      Datum.ofOperands k c.a c.b := rfl
  unfold addData
  by_cases htext : s.current = .text ∧ k ≠ .align
  · have htext' : (s.renumber φ).current = .text ∧ k ≠ .align := htext
    rw [if_pos htext, if_pos htext']
    rfl
  · have htext' : ¬ ((s.renumber φ).current = .text ∧ k ≠ .align) := htext
    rw [if_neg htext, if_neg htext', hoperands]
    cases Datum.ofOperands k c.a c.b with
    | error cause => rfl
    | ok d =>
        obtain ⟨current, _, _, _, _, _, _, _⟩ := s
        cases current <;> rfl

theorem addInstruction_renumber (mnemonic : Text) :
    (s.renumber φ).addInstruction mnemonic = Visit.renumber φ (s.addInstruction mnemonic) := by
  obtain ⟨current, _, _, _, _, _, _, _⟩ := s
  cases current <;> rfl

theorem visit_renumber :
    (s.renumber φ).visit (c.renumber φ) = Visit.renumber φ (s.visit c) := by
  have hoperation : (c.renumber φ).operation = c.operation := rfl
  unfold visit
  rw [hoperation]
  cases c.operation with
  | blank => exact defineLabel_renumber φ s c
  | equate => exact equate_renumber φ s c
  | enter target => exact defineLabel_bind_renumber φ s c fun s => enter_renumber φ s c target
  | setting setting v =>
      exact defineLabel_bind_renumber φ s c fun s => place_renumber φ s setting v
  | data k => exact defineLabel_bind_renumber φ s c fun s => addData_renumber φ s c k
  | instruction mnemonic =>
      exact defineLabel_bind_renumber φ s c fun s => addInstruction_renumber φ s mnemonic
  | macroStart name parameters => exact defineLabel_bind_renumber φ s c fun s => rfl
  | macroEnd => exact defineLabel_bind_renumber φ s c fun s => rfl

/-- **A step of the first walk carries the number along.** -/
theorem step_renumber : (s.renumber φ).step (c.renumber φ) = (s.step c).renumber φ := by
  unfold step
  rw [visit_renumber]
  cases s.visit c with
  | ok s => rfl
  | error x =>
      obtain ⟨cause, s⟩ := x
      simp [Visit.renumber, Except.bimap, renumber, Diagnostic.renumber, Command.renumber]

theorem ofCommands_renumber (cs : List Command) :
    ofCommands (cs.map (Command.renumber φ)) = (ofCommands cs).renumber φ := by
  have hempty : renumber φ {} = {} := by simp [renumber]
  rw [ofCommands, List.foldl_map, ← hempty]
  exact List.foldl_hom (renumber φ) fun s c => step_renumber φ s c

end Survey

/-! ### The layout -/

/-- None of the findings on the places of the segments names a line. -/
theorem Survey.map_placementErrors (φ : Nat → Nat) (s : Survey) (memory : Nat) :
    (s.placementErrors memory).map (LayoutError.renumber φ) = s.placementErrors memory := by
  have htext : (s.textErrors memory).map (LayoutError.renumber φ) = s.textErrors memory := by
    unfold textErrors
    split <;> rfl
  have hstack : (s.stackErrors memory).map (LayoutError.renumber φ) = s.stackErrors memory := by
    simp only [stackErrors]
    split_ifs <;> rfl
  have hdata : (s.dataErrors memory).map (LayoutError.renumber φ) = s.dataErrors memory := by
    simp only [dataErrors]
    split_ifs <;> rfl
  unfold placementErrors
  split
  · rfl
  · rw [List.map_append, List.map_append, htext, hstack, hdata]

/-- Everything that is wrong with the layout of a program. -/
def Survey.findings (s : Survey) (memory : Nat) : List (Diagnostic LayoutError) :=
  s.problems.toList ++ (s.placementErrors memory).map fun e => ⟨0, e⟩

/-- A finding on the places of the segments belongs to line zero, which stays. -/
theorem Survey.findings_renumber {φ : Nat → Nat} (hφ : φ 0 = 0) (s : Survey) (memory : Nat) :
    (s.renumber φ).findings memory =
      (s.findings memory).map (Diagnostic.renumber φ (LayoutError.renumber φ)) := by
  have hplacement : (s.renumber φ).placementErrors memory = s.placementErrors memory := rfl
  have hzero : ((s.placementErrors memory).map fun e => (⟨0, e⟩ : Diagnostic LayoutError)).map
        (Diagnostic.renumber φ (LayoutError.renumber φ)) =
      ((s.placementErrors memory).map (LayoutError.renumber φ)).map fun e => ⟨0, e⟩ := by
    simp [Diagnostic.renumber, hφ, Function.comp_def]
  rw [findings, findings, hplacement, List.map_append, hzero, map_placementErrors, renumber,
    Array.toList_map]

/-- The places and the values do not depend on line numbers. -/
theorem Layout.ofSurvey_renumber (φ : Nat → Nat) (s : Survey) (memory : Nat) :
    ofSurvey (s.renumber φ) memory = ofSurvey s memory := by
  have hsymbols : (s.renumber φ).symbols memory = s.symbols memory := by
    simp only [Survey.symbols, Survey.renumber, Array.toList_map, List.map_map]
    rfl
  rw [ofSurvey, hsymbols]
  rfl

theorem Layout.ofCommands_eq (memory : MemorySize) (cs : List Command) :
    ofCommands memory cs =
      match (Survey.ofCommands cs).findings memory.bytes with
      | [] => .ok (ofSurvey (Survey.ofCommands cs) memory.bytes)
      | problems => .error problems := rfl

theorem Layout.ofCommands_renumber {φ : Nat → Nat} (hφ : φ 0 = 0) (memory : MemorySize)
    (cs : List Command) :
    ofCommands memory (cs.map (Command.renumber φ)) =
      Except.bimap (List.map (Diagnostic.renumber φ (LayoutError.renumber φ))) id
        (ofCommands memory cs) := by
  rw [ofCommands_eq, ofCommands_eq, Survey.ofCommands_renumber, Survey.findings_renumber hφ,
    ofSurvey_renumber]
  cases (Survey.ofCommands cs).findings memory.bytes with
  | nil => rfl
  | cons d ds => rfl

/-! ### The second walk -/

namespace Emission

/-- The words and bytes so far, with other line numbers. -/
def renumber (φ : Nat → Nat) (e : Emission) : Emission :=
  { e with lines := e.lines.map φ, problems := e.problems.map (Diagnostic.renumber φ id) }

variable (φ : Nat → Nat) (symbols : SymbolTable) (e : Emission) (c : Command)

theorem report_renumber (n : Nat) (cause : EmissionError) :
    (e.renumber φ).report (φ n) cause = (e.report n cause).renumber φ := by
  simp [report, renumber, Diagnostic.renumber]

theorem addData_renumber (k : DataKind) :
    addData symbols (e.renumber φ) (c.renumber φ) k = (addData symbols e c k).renumber φ := by
  have hbytes :
      dataBytes symbols e.data.size k (c.renumber φ) = dataBytes symbols e.data.size k c := rfl
  have hcurrent : (e.renumber φ).current = e.current := rfl
  have hsize : (e.renumber φ).data = e.data := rfl
  unfold addData
  rw [hcurrent, hsize, hbytes]
  cases e.current with
  | text => rfl
  | data =>
      cases dataBytes symbols e.data.size k c with
      | ok bytes => rfl
      | error cause => exact report_renumber φ e c.line cause

theorem addInstruction_renumber (mnemonic : Text) :
    addInstruction symbols (e.renumber φ) (c.renumber φ) mnemonic =
      (addInstruction symbols e c mnemonic).renumber φ := by
  have ha : (c.renumber φ).a = c.a := rfl
  have hb : (c.renumber φ).b = c.b := rfl
  unfold addInstruction
  rw [ha, hb]
  cases Instruction.encodeNamed symbols mnemonic c.a c.b with
  | ok w => simp [renumber, Command.renumber]
  | error cause => exact report_renumber φ e c.line (.instruction cause)

/-- **A step of the second walk carries the number along.** -/
theorem step_renumber :
    step symbols (e.renumber φ) (c.renumber φ) = (step symbols e c).renumber φ := by
  have hoperation : (c.renumber φ).operation = c.operation := rfl
  unfold step
  rw [hoperation]
  cases c.operation with
  | data k => exact addData_renumber φ symbols e c k
  | instruction mnemonic => exact addInstruction_renumber φ symbols e c mnemonic
  | enter | blank | equate | setting | macroStart | macroEnd => rfl

theorem ofCommands_renumber (cs : List Command) :
    ofCommands symbols (cs.map (Command.renumber φ)) = (ofCommands symbols cs).renumber φ := by
  have hempty : renumber φ {} = {} := by simp [renumber]
  rw [ofCommands, List.foldl_map, ← hempty]
  exact List.foldl_hom (renumber φ) fun e c => step_renumber φ symbols e c

end Emission

/-! ### All stages -/

/-- A failure with other line numbers. -/
def AssemblyError.renumber (φ : Nat → Nat) : AssemblyError → AssemblyError
  | source ds => source (ds.map (Diagnostic.renumber φ (SourceError.renumber φ)))
  | expansion ds => expansion (ds.map (Diagnostic.renumber φ id))
  | layout ds => layout (ds.map (Diagnostic.renumber φ (LayoutError.renumber φ)))
  | emission ds => emission (ds.map (Diagnostic.renumber φ id))

namespace AssemblyError

theorem renumber_source (φ : Nat → Nat) (ds : List (Diagnostic SourceError)) :
    (source ds).renumber φ = source (ds.map (Diagnostic.renumber φ (SourceError.renumber φ))) := rfl

theorem renumber_expansion (φ : Nat → Nat) (ds : List (Diagnostic ExpansionError)) :
    (expansion ds).renumber φ = expansion (ds.map (Diagnostic.renumber φ id)) := rfl

theorem renumber_layout (φ : Nat → Nat) (ds : List (Diagnostic LayoutError)) :
    (layout ds).renumber φ = layout (ds.map (Diagnostic.renumber φ (LayoutError.renumber φ))) := rfl

end AssemblyError

namespace Program

/-- A program with other line numbers. -/
def renumber (φ : Nat → Nat) (p : Program) : Program := { p with lines := p.lines.map φ }

theorem ofLayout_renumber (φ : Nat → Nat) (l : Layout) (cs : List Command) :
    ofLayout l (cs.map (Command.renumber φ)) =
      Except.bimap (AssemblyError.renumber φ) (renumber φ) (ofLayout l cs) := by
  simp only [ofLayout, Emission.ofCommands_renumber]
  generalize Emission.ofCommands l.symbols cs = e
  simp only [Emission.renumber, Array.toList_map]
  cases e.problems.toList with
  | nil => rfl
  | cons d ds => rfl

variable {s t : Text} {numbers : List Nat} {memory : MemorySize} {p : Program}

theorem commands_of_annotates (h : Text.Annotates 1 s.lines t.lines numbers) :
    commands t =
      Except.bimap (AssemblyError.renumber (Text.newNumber numbers))
        (List.map (Command.renumber (Text.newNumber numbers))) (commands s) := by
  rw [commands, commands, Source.parse_of_annotates h,
    Except.mapError_bimap (AssemblyError.renumber_source _)]
  refine Except.bind_bimap fun parsed => ?_
  rw [Source.expand_renumber]
  exact Except.mapError_bimap (AssemblyError.renumber_expansion _) _

/-- **What an annotated text assembles to**: the same program, with the new numbers of the lines.
When the text does not assemble, neither does the annotated one, for the same reasons. -/
theorem assemble_of_annotates (h : Text.Annotates 1 s.lines t.lines numbers)
    (memory : MemorySize) :
    assemble memory t =
      Except.bimap (AssemblyError.renumber (Text.newNumber numbers))
        (renumber (Text.newNumber numbers)) (assemble memory s) := by
  rw [assemble, assemble, commands_of_annotates h]
  refine Except.bind_bimap fun cs => ?_
  have hzero : Text.newNumber numbers 0 = 0 := rfl
  rw [Layout.ofCommands_renumber hzero, Except.mapError_bimap (AssemblyError.renumber_layout _)]
  refine Except.bind_bimap fun l => ?_
  exact ofLayout_renumber _ l cs

/-! ### Lines of the text -/

/-- A command outside macros has the number of a line. -/
theorem line_of_mem_commands {parsed : Source} {c : Command} (h : Source.parse s = .ok parsed)
    (hc : c ∈ parsed.commands) : ∃ i l, c.line = i + 1 ∧ s.lines[i]? = some l := by
  obtain ⟨ps, hreads, -, rfl⟩ := Source.parse_eq_ok_iff.1 h
  have hread : c ∈ ps.flatMap Passage.commands :=
    List.mem_of_mem_filter ((Source.allCommands_perm ps).subset (List.mem_append_left _ hc))
  have hline := List.mem_map_of_mem (f := Command.line) hread
  rw [Source.map_line_of_reads hreads, List.mem_range'_1] at hline
  obtain ⟨i, hi⟩ := Nat.exists_eq_add_of_le' hline.1
  have hlt : i < s.lines.length := by omega
  exact ⟨i, _, hi, List.getElem?_eq_getElem hlt⟩

/-- **The line of a word is a line of the text.** -/
theorem mem_lines_of_assemble {n : Nat} (h : assemble memory s = .ok p) (hn : n ∈ p.lines) :
    ∃ i l, n = i + 1 ∧ s.lines[i]? = some l := by
  obtain ⟨cs, hcs, hbuilt⟩ := built_of_assemble h
  rw [hbuilt.lines, Emission.lines_ofCommands hbuilt.emitted] at hn
  obtain ⟨d, hd, rfl⟩ := List.mem_map.1 hn
  obtain ⟨parsed, hparsed, hexpand⟩ := Except.bind_eq_ok.1 hcs
  have hparsed : Source.parse s = .ok parsed := Except.mapError_eq_ok.1 hparsed
  obtain ⟨hproblems, rfl⟩ := Source.expand_eq_ok_iff.1 (Except.mapError_eq_ok.1 hexpand)
  -- A command of the expansion has the line of the call that it comes from.
  obtain ⟨c, hc, hd⟩ := List.mem_flatMap.1 (List.mem_of_mem_filter hd)
  have hexpands := Source.expands_of_problems (Source.nodup_keys hparsed) (hproblems c hc)
  rw [hexpands.line_eq d hd]
  exact line_of_mem_commands hparsed hc

/-- **Comments, blank lines and line ends do not matter.**  When a text assembles, it does so with
comments behind its lines, with lines that say nothing between them, inside macros and outside, and
with its lines ended in the other way: to the same program, in which every word has the new number
of its line. -/
theorem assemble_annotated (h : Text.Annotates 1 s.lines t.lines numbers)
    (hp : assemble memory s = .ok p) :
    assemble memory t = .ok { p with lines := p.lines.map (Text.newNumber numbers) } ∧
      ∀ n ∈ p.lines, ∃ i j l l', n = i + 1 ∧ Text.newNumber numbers n = j + 1 ∧
        s.lines[i]? = some l ∧ t.lines[j]? = some l' ∧ l.Retouched l' := by
  refine ⟨?_, ?_⟩
  · rw [assemble_of_annotates h, hp]
    rfl
  · intro n hn
    obtain ⟨i, l, rfl, hl⟩ := mem_lines_of_assemble hp hn
    obtain ⟨j, l', hj, hl', hsame⟩ := h.getElem? hl
    exact ⟨i, j, l, l', rfl, by rw [Text.newNumber_succ hj, Nat.add_comm], hl, hl', hsame⟩

/-- A source with a macro and with a semicolon in a string. -/
def plainSource : Text :=
  (".macro load r, v\nmovi r, v\n.endmacro\nload ax, 7\n.data\n.string \"a;b\"\n").toList

/-- The same source with remarks, and with some of its lines ended by carriage returns. -/
def remarkedSource : Text :=
  ("; a program\r\n.macro load r, v;\"loads\"\r\n\t\r\nmovi r, v\r\n  ; done\n.endmacro\n\n" ++
    "load ax, 7;seven\n.data\r\n.string \"a;b\";\"c\n").toList

/-- The only instruction comes from the macro, and has the line of its call. -/
theorem assemble_remarkedSource :
    Text.Annotates 1 plainSource.lines remarkedSource.lines [2, 4, 6, 8, 9, 10] ∧
      ∃ p, assemble .standard plainSource = .ok p ∧ p.lines = [4] ∧
        assemble .standard remarkedSource = .ok { p with lines := [8] } := by
  have hplain : plainSource.lines =
      [".macro load r, v".toList ++ Text.LineEnd.newline.text,
        "movi r, v".toList ++ Text.LineEnd.newline.text,
        ".endmacro".toList ++ Text.LineEnd.newline.text,
        "load ax, 7".toList ++ Text.LineEnd.newline.text,
        ".data".toList ++ Text.LineEnd.newline.text,
        ".string \"a;b\"".toList ++ Text.LineEnd.newline.text] := by decide +kernel
  have hremarked : remarkedSource.lines =
      [[] ++ ';' :: " a program\r".toList,
        ".macro load r, v".toList ++ ';' :: "\"loads\"".toList ++ Text.LineEnd.carriageReturn.text,
        "\t\r".toList,
        "movi r, v".toList ++ Text.LineEnd.carriageReturn.text,
        "  ".toList ++ ';' :: " done".toList,
        ".endmacro".toList ++ Text.LineEnd.newline.text,
        [],
        "load ax, 7".toList ++ ';' :: "seven".toList ++ Text.LineEnd.newline.text,
        ".data".toList ++ Text.LineEnd.carriageReturn.text,
        ".string \"a;b\"".toList ++ ';' :: "\"c".toList ++ Text.LineEnd.newline.text] := by
    decide +kernel
  have h : Text.Annotates 1 plainSource.lines remarkedSource.lines [2, 4, 6, 8, 9, 10] := by
    rw [hplain, hremarked]
    refine .insert (.remark (List.forall_mem_nil _) _) ?_
    refine .keep (.remarked (by decide +kernel) _ _ _) ?_
    refine .insert (.blank (List.all_eq_true.1 (by decide +kernel))) (.keep (.ended _ _ _) ?_)
    refine .insert (.remark (List.all_eq_true.1 (by decide +kernel)) _) (.keep (.ended _ _ _) ?_)
    refine .insert (.blank nofun) (.keep (.remarked (by decide +kernel) _ _ _) ?_)
    exact .keep (.ended _ _ _) (.keep (.remarked (by decide +kernel) _ _ _) (.nil _))
  have hp : assemble .standard plainSource = .ok
      { text := [0x01000007], data := [97, 59, 98, 0], textStart := 0, dataStart := 61436,
        stackStart := 61440, lines := [4], stackSize := 4096, symbols := [] } := by
    decide +kernel
  exact ⟨h, _, hp, rfl, (assemble_annotated h hp).1⟩

end Program

end WordMachine
