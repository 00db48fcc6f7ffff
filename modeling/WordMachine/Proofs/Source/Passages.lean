/-
**The passages of a source text.**

The lines of a source text form passages: a line outside macros, or a block that holds the start of
a macro, the lines of its body and its end.  Nothing but such lines can be inside a block, so blocks
are not nested, and every start has its own end.  The reader follows the passages: between two of
them it has read the program that they describe, and inside a block the part of the macro so far.

Main definitions:

* `OpenBlock`, `MacroBlock`, `Passage` — the passages;
* `Source.ofPassages` — the source program that passages describe;
* `Reader.Tracks` — the reader has read commands that form passages.

Main results:

* `Reader.tracks_command` — a command without a mistake keeps the reader on the track of passages;
* `Reader.foldl_command_passages` — passages whose macros have different names are read as they are;
* `Reader.problems_prefix_foldl` — no mistake is forgotten.
-/

import WordMachine.Proofs.Source.Macros
import Mathlib.Data.List.Induction

set_option relaxedAutoImplicit false
set_option autoImplicit false

namespace WordMachine

/-! ### Passages -/

/-- The operation neither starts nor ends a macro. -/
def Operation.isPlain : Operation → Bool
  | macroStart _ _ | macroEnd => false
  | _ => true

@[simp] theorem Operation.isPlain_macroStart (name : Text) (parameters : List Text) :
    (macroStart name parameters).isPlain = false := rfl

@[simp] theorem Operation.isPlain_macroEnd : macroEnd.isPlain = false := rfl

theorem Operation.not_isPlain {o : Operation} (h : ¬ o.isPlain) :
    (∃ name parameters, o = .macroStart name parameters) ∨ o = .macroEnd := by
  cases o with
  | macroStart name parameters => exact .inl ⟨name, parameters, rfl⟩
  | macroEnd => exact .inr rfl
  | _ => exact absurd rfl h

/-- The command has a label or an operation. -/
def Command.speaks (c : Command) : Bool :=
  c.label.isSome || c.operation != .blank

/-- The commands that have a label or an operation. -/
def Command.kept (cs : List Command) : List Command :=
  cs.filter speaks

/-- The reader passes over a command that has neither. -/
theorem Command.speaks_eq (c : Command) : c.speaks = !c.isVoid := by
  rw [speaks, isVoid, Bool.not_and, Bool.or_comm, bne, Option.not_isNone]

/-- The lines of a macro up to some line of its body. -/
structure OpenBlock where
  /-- The line that starts the macro. -/
  start : Command
  name : Text
  parameters : List Text
  /-- The lines of the body. -/
  body : List Command
  starts : start.operation = .macroStart name parameters
  unlabelled : start.label = none
  plain : ∀ c ∈ body, c.operation.isPlain

/-- **The lines of a macro**, from its start to its end. -/
structure MacroBlock extends OpenBlock where
  /-- The line that ends the macro. -/
  stop : Command
  stops : stop.operation = .macroEnd

/-- **A passage of a source text.** -/
inductive Passage
  /-- A line outside macros. -/
  | line (c : Command) (plain : c.operation.isPlain)
  /-- The lines of a macro. -/
  | block (b : MacroBlock)

namespace OpenBlock

/-- The block of a macro that starts with the given line. -/
def ofStart (c : Command) (name : Text) (parameters : List Text)
    (h : c.operation = .macroStart name parameters) (hlabel : c.label = none) : OpenBlock :=
  ⟨c, name, parameters, [], h, hlabel, List.forall_mem_nil _⟩

/-- The block with one more line in its body. -/
def extend (b : OpenBlock) (c : Command) (h : c.operation.isPlain) : OpenBlock :=
  { b with
    body := b.body ++ [c]
    plain := by
      intro d hd
      rcases List.mem_append.1 hd with hd | hd
      · exact b.plain d hd
      · rwa [List.mem_singleton.1 hd] }

/-- The commands of the lines. -/
def commands (b : OpenBlock) : List Command :=
  b.start :: b.body

/-- The macro, if it ended here. -/
def toMacro (b : OpenBlock) : Macro :=
  ⟨b.name, b.parameters, Command.kept b.body, b.start.line⟩

@[simp] theorem key_toMacro (b : OpenBlock) : b.toMacro.key = b.name.upper := rfl

end OpenBlock

namespace Passage

/-- The commands of the lines. -/
def commands : Passage → List Command
  | line c _ => [c]
  | block b => b.toOpenBlock.commands ++ [b.stop]

/-- The commands outside macros. -/
def outside : Passage → List Command
  | line c _ => Command.kept [c]
  | block _ => []

/-- The macros. -/
def macros : Passage → List Macro
  | line _ _ => []
  | block b => [b.toMacro]

end Passage

/-- **The source program that passages describe.** -/
def Source.ofPassages (ps : List Passage) : Source :=
  ⟨ps.flatMap Passage.outside, ps.flatMap Passage.macros⟩

@[simp] theorem Source.commands_ofPassages_append (ps qs : List Passage) :
    (ofPassages (ps ++ qs)).commands = (ofPassages ps).commands ++ (ofPassages qs).commands :=
  List.flatMap_append

@[simp] theorem Source.macros_ofPassages_append (ps qs : List Passage) :
    (ofPassages (ps ++ qs)).macros = (ofPassages ps).macros ++ (ofPassages qs).macros :=
  List.flatMap_append

@[simp] theorem Source.ofPassages_line (c : Command) (h : c.operation.isPlain) :
    ofPassages [.line c h] = ⟨Command.kept [c], []⟩ := by
  simp [ofPassages, Passage.outside, Passage.macros]

@[simp] theorem Source.ofPassages_block (b : MacroBlock) :
    ofPassages [.block b] = ⟨[], [b.toMacro]⟩ := rfl

/-! ### Mistakes -/

namespace Reader

variable {r : Reader} {c : Command} {cs : List Command} {ps : List Passage} {b : OpenBlock}
  {name : Text} {parameters : List Text}

/-- A mistake is reported after those before it. -/
theorem problems_prefix_report (r : Reader) (line : Nat) (cause : SourceError) :
    r.problems.toList <+: (r.report line cause).problems.toList := by
  simp [report]

theorem problems_prefix_startMacro (r : Reader) (c : Command) (name : Text)
    (parameters : List Text) :
    r.problems.toList <+: (r.startMacro c name parameters).problems.toList := by
  rw [startMacro]
  cases r.open? with
  | some outer => exact r.problems_prefix_report _ _
  | none =>
      cases c.label with
      | none =>
          dsimp only
          split
          · exact r.problems_prefix_report _ _
          · exact List.prefix_refl _
      | some label =>
          dsimp only
          split
          · exact (r.problems_prefix_report _ _).trans (problems_prefix_report _ _ _)
          · exact r.problems_prefix_report _ _

theorem problems_prefix_endMacro (r : Reader) (c : Command) :
    r.problems.toList <+: (r.endMacro c).problems.toList := by
  rw [endMacro]
  cases r.open? with
  | none => exact r.problems_prefix_report _ _
  | some m =>
      dsimp only
      split_ifs <;> exact List.prefix_refl _

theorem problems_addCommand (r : Reader) (c : Command) :
    (r.addCommand c).problems = r.problems := by
  obtain ⟨commands, macros, open?, problems⟩ := r
  cases open? with
  | none => rfl
  | some m =>
      simp only [addCommand]
      split_ifs <;> rfl

theorem problems_prefix_command (r : Reader) (c : Command) :
    r.problems.toList <+: (r.command c).problems.toList := by
  rw [command]
  split
  · exact r.problems_prefix_startMacro c _ _
  · exact r.problems_prefix_endMacro c
  · split_ifs
    · exact List.prefix_refl _
    · simp [problems_addCommand]

theorem problems_prefix_step (r : Reader) (line : Text × Nat) :
    r.problems.toList <+: (r.step line).problems.toList := by
  rw [step]
  cases Command.parse line.2 line.1 with
  | ok c => exact r.problems_prefix_command c
  | error cause => exact r.problems_prefix_report _ _

/-- **No mistake is forgotten.** -/
theorem problems_prefix_foldl (r : Reader) (lines : List (Text × Nat)) :
    r.problems.toList <+: (lines.foldl step r).problems.toList := by
  induction lines generalizing r with
  | nil => exact List.prefix_refl _
  | cons line lines ih => exact (r.problems_prefix_step line).trans (ih _)

/-! ### Readers on the track of passages -/

/-- The reader between two passages. -/
def ofPassages (ps : List Passage) : Reader :=
  { commands := (Source.ofPassages ps).commands.toArray
    macros := (Source.ofPassages ps).macros.toArray }

/-- The reader inside a block. -/
def inside (ps : List Passage) (b : OpenBlock) : Reader :=
  { ofPassages ps with
    open? := some
      { name := b.name
        parameters := b.parameters
        line := b.start.line
        isDuplicate := false
        body := (Command.kept b.body).toArray } }

/-- **The commands form passages, and the reader has read them.**  In the end a block can be open.
The names of the macros differ, that of an open one included. -/
inductive Tracks : List Command → Reader → Prop
  /-- All blocks have ended. -/
  | outside {ps : List Passage} (h : ((Source.ofPassages ps).macros.map Macro.key).Nodup) :
      Tracks (ps.flatMap Passage.commands) (ofPassages ps)
  /-- The last block has not ended. -/
  | inside {ps : List Passage} {b : OpenBlock}
      (h : (((Source.ofPassages ps).macros ++ [b.toMacro]).map Macro.key).Nodup) :
      Tracks (ps.flatMap Passage.commands ++ b.commands) (inside ps b)

theorem tracks_nil : Tracks [] {} := by
  have hnames : ((Source.ofPassages []).macros.map Macro.key).Nodup := List.nodup_nil
  exact .outside hnames

theorem command_of_plain (h : c.operation.isPlain) (r : Reader) :
    r.command c = if c.speaks then r.addCommand c else r := by
  rw [command]
  split
  · rename_i hstart
    simp [hstart] at h
  · rename_i hend
    simp [hend] at h
  · rw [Command.speaks_eq]
    cases c.isVoid <;> rfl

/-- A plain line between two passages is a passage of its own. -/
theorem command_ofPassages_plain (h : c.operation.isPlain) :
    (ofPassages ps).command c = ofPassages (ps ++ [.line c h]) := by
  rw [command_of_plain h]
  split_ifs with hspeaks
  · simp [ofPassages, Command.kept, hspeaks, addCommand]
  · simp [ofPassages, Command.kept, hspeaks]

/-- A plain line inside a block belongs to the body. -/
theorem command_inside_plain (h : c.operation.isPlain) :
    (inside ps b).command c = inside ps (b.extend c h) := by
  rw [command_of_plain h]
  split_ifs with hspeaks
  · simp [inside, OpenBlock.extend, Command.kept, hspeaks, addCommand]
  · simp [inside, OpenBlock.extend, Command.kept, hspeaks]

theorem keys_ofPassages (ps : List Passage) :
    (ofPassages ps).keys = (Source.ofPassages ps).macros.map Macro.key := rfl

/-- A start without a label and with a name that is not taken opens a block. -/
theorem command_ofPassages_start (h : c.operation = .macroStart name parameters)
    (hlabel : c.label = none) (hname : name.upper ∉ (ofPassages ps).keys) :
    (ofPassages ps).command c = inside ps (.ofStart c name parameters h hlabel) := by
  have hfind : (ofPassages ps).macros.find? (·.key == name.upper) = none := by
    refine Array.find?_eq_none.2 ?_
    intro m hm hkey
    exact hname (List.mem_map.2 ⟨m, by simpa using hm, by simpa using hkey⟩)
  have hopen : (ofPassages ps).open? = none := rfl
  rw [command, h]
  dsimp only
  rw [startMacro, hopen, hlabel]
  dsimp only
  rw [hfind]
  rfl

/-- The end of a macro turns the open block into a passage. -/
theorem command_inside_end (h : c.operation = .macroEnd) :
    (inside ps b).command c = ofPassages (ps ++ [.block ⟨b, c, h⟩]) := by
  rw [command, h]
  simp [endMacro, inside, ofPassages, OpenMacro.close, OpenBlock.toMacro]

/-- A start without a mistake has no label, and a name that is not taken. -/
theorem of_problems_startMacro (hopen : r.open? = none)
    (h : (r.startMacro c name parameters).problems = #[]) :
    c.label = none ∧ name.upper ∉ r.keys := by
  rw [startMacro, hopen] at h
  cases hlabel : c.label with
  | some label =>
      rw [hlabel] at h
      dsimp only at h
      split at h
      · simp [report] at h
      · simp [report] at h
  | none =>
      rw [hlabel] at h
      dsimp only at h
      split at h
      · simp [report] at h
      · rename_i hfind
        exact ⟨rfl, not_mem_keys_of_find? hfind⟩

theorem Tracks.plain (h : Tracks cs r) (hplain : c.operation.isPlain) :
    Tracks (cs ++ [c]) (r.command c) := by
  cases h with
  | @outside ps h =>
      rw [command_ofPassages_plain hplain]
      have hnames : ((Source.ofPassages (ps ++ [.line c hplain])).macros.map Macro.key).Nodup := by
        simpa using h
      simpa [Passage.commands] using Tracks.outside hnames
  | @inside ps b h =>
      rw [command_inside_plain hplain, List.append_assoc]
      exact .inside (b := b.extend c hplain) (by simpa [OpenBlock.extend] using h)

theorem Tracks.start (h : Tracks cs r)
    (hstart : c.operation = .macroStart name parameters)
    (hproblems : (r.command c).problems = #[]) : Tracks (cs ++ [c]) (r.command c) := by
  cases h with
  | @outside ps h =>
      have hcommand : (ofPassages ps).command c = (ofPassages ps).startMacro c name parameters := by
        rw [command, hstart]
      rw [hcommand] at hproblems
      obtain ⟨hlabel, hname⟩ := of_problems_startMacro rfl hproblems
      rw [command_ofPassages_start hstart hlabel hname]
      refine .inside (b := .ofStart c name parameters hstart hlabel) ?_
      rw [List.map_append, ← keys_ofPassages]
      exact List.nodup_append_comm.1 (List.nodup_cons.2 ⟨hname, h⟩)
  | inside h =>
      -- A macro inside a macro is a mistake.
      simp [command, hstart, startMacro, Reader.inside, report] at hproblems

theorem Tracks.stop (h : Tracks cs r) (hend : c.operation = .macroEnd)
    (hproblems : (r.command c).problems = #[]) : Tracks (cs ++ [c]) (r.command c) := by
  cases h with
  | outside h =>
      -- An end without a start is a mistake.
      simp [command, hend, endMacro, ofPassages, report] at hproblems
  | @inside ps b h =>
      rw [command_inside_end hend]
      have hnames :
          ((Source.ofPassages (ps ++ [.block ⟨b, c, hend⟩])).macros.map Macro.key).Nodup := by
        simpa using h
      simpa [Passage.commands] using Tracks.outside hnames

/-- **A command without a mistake keeps the reader on the track of passages.** -/
theorem tracks_command (h : Tracks cs r)
    (hproblems : (r.command c).problems = #[]) : Tracks (cs ++ [c]) (r.command c) := by
  by_cases hplain : c.operation.isPlain
  · exact h.plain hplain
  · obtain ⟨name, parameters, hstart⟩ | hend := Operation.not_isPlain hplain
    · exact h.start hstart hproblems
    · exact h.stop hend hproblems

/-- A block whose name is not taken is read as far as it goes. -/
theorem foldl_command_openBlock (b : OpenBlock) (hname : b.name.upper ∉ (ofPassages ps).keys) :
    b.commands.foldl command (ofPassages ps) = inside ps b := by
  obtain ⟨start, name, parameters, body, hstart, hlabel, hplain⟩ := b
  induction body using List.reverseRecOn with
  | nil => exact command_ofPassages_start hstart hlabel hname
  | append_singleton body c ih =>
      have hbody : ∀ d ∈ body, d.operation.isPlain := fun d hd => hplain d (by simp [hd])
      have hc : c.operation.isPlain := hplain c (by simp)
      simp only [OpenBlock.commands] at ih ⊢
      rw [← List.cons_append, List.foldl_append, ih hbody hname]
      exact command_inside_plain hc

/-- **Passages whose macros have different names are read as they are.** -/
theorem foldl_command_passages (h : ((Source.ofPassages ps).macros.map Macro.key).Nodup) :
    (ps.flatMap Passage.commands).foldl command {} = ofPassages ps := by
  induction ps using List.reverseRecOn with
  | nil => rfl
  | append_singleton ps x ih =>
      rw [Source.macros_ofPassages_append, List.map_append, List.nodup_append] at h
      rw [List.flatMap_append, List.foldl_append, ih h.1]
      cases x with
      | line c hc => exact command_ofPassages_plain hc
      | block b =>
          have hname : b.name.upper ∉ (ofPassages ps).keys := by
            intro hname
            exact h.2.2 _ hname b.name.upper (by simp) rfl
          simp only [List.flatMap_singleton, Passage.commands]
          rw [List.foldl_append, foldl_command_openBlock _ hname]
          exact command_inside_end b.stops

end Reader

end WordMachine
