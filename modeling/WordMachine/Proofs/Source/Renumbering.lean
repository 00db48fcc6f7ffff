/-
**Line numbers in a source program.**

Reading a text and expanding its macros carry the numbers of lines along, and never look at them.
So when the lines get other numbers, the commands, the macros and the findings get them, too, and
nothing else changes.  Lines that say nothing leave no trace.  What an annotated text reads as is
therefore what the text reads as, with the new numbers of its lines.

Main definitions:

* `Command.renumber`, `Macro.renumber`, `Source.renumber` — a program with other line numbers;
* `SourceError.renumber`, `Diagnostic.renumber` — a finding with other line numbers;
* `Reader.renumber` — what has been read, with other line numbers.

Main results:

* `Command.parse_renumber` — a line with another number;
* `Reader.command_renumber` — reading a command carries its number along;
* `Source.parse_of_annotates` — **what an annotated text reads as**;
* `Source.expand_renumber` — **expanding a program carries its numbers along**.
-/

import WordMachine.Proofs.Except
import WordMachine.Proofs.Source.Expansion
import WordMachine.Proofs.Source.Remarks

set_option relaxedAutoImplicit false
set_option autoImplicit false

namespace WordMachine

variable {φ : Nat → Nat}

/-! ### Commands -/

namespace Command

/-- A command with another line number. -/
def renumber (φ : Nat → Nat) (c : Command) : Command := { c with line := φ c.line }

theorem parseSetting_renumber (φ : Nat → Nat) (c : Command) (s : Setting) (rest : Text) :
    (c.renumber φ).parseSetting s rest = Except.bimap id (renumber φ) (c.parseSetting s rest) := by
  unfold parseSetting
  split
  · rfl
  · split
    · rename_i field _
      cases parseOperand field with
      | error cause => rfl
      | ok o => cases o <;> rfl
    · rfl

theorem parseMacroStart_renumber (φ : Nat → Nat) (c : Command) (rest : Text) :
    (c.renumber φ).parseMacroStart rest =
      Except.bimap id (renumber φ) (c.parseMacroStart rest) := by
  unfold parseMacroStart
  split
  · rfl
  · rename_i name parameters _
    cases checkName .macroName name with
    | error cause => rfl
    | ok u =>
        show ((parameters.forM (checkName .parameter)) >>= _) =
          Except.bimap id (renumber φ) ((parameters.forM (checkName .parameter)) >>= _)
        cases parameters.forM (checkName .parameter) with
        | error cause => rfl
        | ok u => rfl

theorem parseDirective_renumber (φ : Nat → Nat) (c : Command) (d : Directive) (rest : Text) :
    (c.renumber φ).parseDirective d rest =
      Except.bimap id (renumber φ) (c.parseDirective d rest) := by
  cases d with
  | enter s =>
      simp only [parseDirective]
      cases operands s.name (Text.splitFields ',' rest) <;> rfl
  | data k =>
      simp only [parseDirective]
      cases operands k.name (Text.splitFields ',' rest) <;> rfl
  | equate =>
      obtain ⟨line, label, operation, a, b⟩ := c
      simp only [parseDirective, renumber]
      cases operands Directive.equate.name (Text.splitFields ',' rest) with
      | error cause => rfl
      | ok ab =>
          obtain ⟨a, b⟩ := ab
          cases label <;> cases b <;> rfl
  | setting s => exact parseSetting_renumber φ c s rest
  | macroStart => exact parseMacroStart_renumber φ c rest
  | macroEnd =>
      simp only [parseDirective]
      split <;> rfl

theorem parseOperation_renumber (φ : Nat → Nat) (c : Command) (s : Text) :
    (c.renumber φ).parseOperation s = Except.bimap id (renumber φ) (c.parseOperation s) := by
  simp only [parseOperation]
  split
  · split
    · exact parseDirective_renumber φ c _ _
    · rfl
  · cases operands _ _ <;> rfl

/-- **A line with another number is the same command with that number.** -/
theorem parse_renumber (φ : Nat → Nat) (n : Nat) (s : Text) :
    parse (φ n) s = Except.bimap id (renumber φ) (parse n s) := by
  simp only [parse]
  split
  · rfl
  · cases takeLabel s.stripComment.trim with
    | error cause => rfl
    | ok x =>
        obtain ⟨label, rest⟩ := x
        show (if rest.isEmpty then _ else _) =
          Except.bimap id (renumber φ) (if rest.isEmpty then _ else _)
        split
        · rfl
        · exact parseOperation_renumber φ { line := n, label } rest

/-- Only what a line says is read. -/
theorem parse_of_gist {l l' : Text} (h : l'.gist = l.gist) (n : Nat) : parse n l' = parse n l := by
  have hsame : l'.stripComment.trim = l.stripComment.trim := h
  simp only [parse, hsame]

theorem parse_of_gist_nil {l : Text} (h : l.gist = []) (n : Nat) :
    parse n l = .ok { line := n } := by
  have hnil : l.stripComment.trim = [] := h
  simp only [parse, hnil]
  rfl

end Command

/-! ### Programs and findings -/

/-- A finding on another line. -/
def Diagnostic.renumber {ε : Type} (φ : Nat → Nat) (f : ε → ε) (d : Diagnostic ε) : Diagnostic ε :=
  ⟨φ d.line, f d.cause⟩

/-- A mistake with other line numbers: one of them names another line. -/
def SourceError.renumber (φ : Nat → Nat) : SourceError → SourceError
  | duplicateMacro name first => duplicateMacro name (φ first)
  | cause => cause

/-- A macro with other line numbers. -/
def Macro.renumber (φ : Nat → Nat) (m : Macro) : Macro :=
  { m with body := m.body.map (Command.renumber φ), line := φ m.line }

/-- A source program with other line numbers. -/
def Source.renumber (φ : Nat → Nat) (p : Source) : Source :=
  ⟨p.commands.map (Command.renumber φ), p.macros.map (Macro.renumber φ)⟩

/-- A macro whose end has not been read, with other line numbers. -/
def OpenMacro.renumber (φ : Nat → Nat) (m : OpenMacro) : OpenMacro :=
  { m with line := φ m.line, body := m.body.map (Command.renumber φ) }

/-- A macro that has just been opened. -/
theorem OpenMacro.renumber_mk (φ : Nat → Nat) (name : Text) (parameters : List Text) (n : Nat)
    (isDuplicate : Bool) :
    renumber φ { name, parameters, line := n, isDuplicate } =
      { name, parameters, line := φ n, isDuplicate } := by
  simp [renumber]

theorem OpenMacro.close_renumber (φ : Nat → Nat) (m : OpenMacro) :
    (m.renumber φ).close = m.close.renumber φ := by
  simp [close, renumber, Macro.renumber]

/-! ### Reading -/

namespace Reader

/-- What has been read, with other line numbers. -/
def renumber (φ : Nat → Nat) (r : Reader) : Reader where
  commands := r.commands.map (Command.renumber φ)
  macros := r.macros.map (Macro.renumber φ)
  open? := r.open?.map (OpenMacro.renumber φ)
  problems := r.problems.map (Diagnostic.renumber φ (SourceError.renumber φ))

theorem report_renumber (φ : Nat → Nat) (r : Reader) (n : Nat) (cause : SourceError) :
    (r.renumber φ).report (φ n) (cause.renumber φ) = (r.report n cause).renumber φ := by
  simp [report, renumber, Diagnostic.renumber]

/-- The start of a macro that no other one surrounds, once its label has been looked at. -/
def openMacro (r : Reader) (line : Nat) (name : Text) (parameters : List Text) : Reader :=
  match r.macros.find? (·.key == name.upper) with
  | some first =>
    { r.report line (.duplicateMacro name first.line) with
      open? := some { name, parameters, line, isDuplicate := true } }
  | none => { r with open? := some { name, parameters, line, isDuplicate := false } }

theorem openMacro_renumber (φ : Nat → Nat) (r : Reader) (n : Nat) (name : Text)
    (parameters : List Text) :
    (r.renumber φ).openMacro (φ n) name parameters =
      (r.openMacro n name parameters).renumber φ := by
  have hmacros : (r.renumber φ).macros.find? (·.key == name.upper) =
      (r.macros.find? (·.key == name.upper)).map (Macro.renumber φ) := Array.find?_map
  unfold openMacro
  rw [hmacros]
  cases r.macros.find? (·.key == name.upper) with
  | none => simp only [Option.map_none, renumber, Option.map_some, OpenMacro.renumber_mk]
  | some first =>
      have hreport := report_renumber φ r n (.duplicateMacro name first.line)
      simp only [SourceError.renumber] at hreport
      simp only [Option.map_some, Macro.renumber, hreport]
      simp only [renumber, Option.map_some, OpenMacro.renumber_mk]

theorem startMacro_renumber (φ : Nat → Nat) (r : Reader) (c : Command) (name : Text)
    (parameters : List Text) :
    (r.renumber φ).startMacro (c.renumber φ) name parameters =
      (r.startMacro c name parameters).renumber φ := by
  obtain ⟨line, label, operation, a, b⟩ := c
  obtain ⟨commands, macros, open?, problems⟩ := r
  cases open? with
  | some outer =>
      have hreport := report_renumber φ ⟨commands, macros, some outer, problems⟩ line
        (.nestedMacro name outer.name)
      exact congrArg (fun r : Reader =>
        { r with open? := some { outer.renumber φ with skipped := outer.skipped + 1 } }) hreport
  | none =>
      cases label with
      | none => exact openMacro_renumber φ ⟨commands, macros, none, problems⟩ line name parameters
      | some label =>
          have hreport := report_renumber φ ⟨commands, macros, none, problems⟩ line
            (.labelledMacro label)
          have hopen := openMacro_renumber φ
            (report ⟨commands, macros, none, problems⟩ line (.labelledMacro label)) line name
            parameters
          rw [← hreport] at hopen
          exact hopen

theorem endMacro_renumber (φ : Nat → Nat) (r : Reader) (c : Command) :
    (r.renumber φ).endMacro (c.renumber φ) = (r.endMacro c).renumber φ := by
  obtain ⟨commands, macros, open?, problems⟩ := r
  cases open? with
  | none => exact report_renumber φ ⟨commands, macros, none, problems⟩ c.line .strayMacroEnd
  | some m =>
      have hskipped : (m.renumber φ).skipped = m.skipped := rfl
      have hduplicate : (m.renumber φ).isDuplicate = m.isDuplicate := rfl
      simp only [endMacro, renumber, Option.map_some, hskipped, hduplicate]
      split
      · rfl
      · split
        · rfl
        · simp only [Array.map_push, m.close_renumber, Option.map_none]

theorem addCommand_renumber (φ : Nat → Nat) (r : Reader) (c : Command) :
    (r.renumber φ).addCommand (c.renumber φ) = (r.addCommand c).renumber φ := by
  obtain ⟨commands, macros, open?, problems⟩ := r
  cases open? with
  | none => simp [addCommand, renumber]
  | some m =>
      have hskipped : (m.renumber φ).skipped = m.skipped := rfl
      simp only [addCommand, renumber, Option.map_some, hskipped]
      split
      · rfl
      · simp only [OpenMacro.renumber, Option.map_some, Array.map_push]

/-- **Reading a command carries its number along.** -/
theorem command_renumber (φ : Nat → Nat) (r : Reader) (c : Command) :
    (r.renumber φ).command (c.renumber φ) = (r.command c).renumber φ := by
  have hoperation : (c.renumber φ).operation = c.operation := rfl
  simp only [command, hoperation]
  split
  · exact startMacro_renumber φ r c _ _
  · exact endMacro_renumber φ r c
  · by_cases hvoid : c.isVoid
    · have hvoid' : (c.renumber φ).isVoid := hvoid
      rw [if_pos hvoid, if_pos hvoid']
    · have hvoid' : ¬ (c.renumber φ).isVoid := hvoid
      rw [if_neg hvoid, if_neg hvoid', addCommand_renumber]

/-- A line that says the same, with another number. -/
theorem step_renumber {l l' : Text} (h : l'.gist = l.gist) (φ : Nat → Nat) (r : Reader) (n : Nat) :
    (r.renumber φ).step (l', φ n) = (r.step (l, n)).renumber φ := by
  simp only [step]
  rw [Command.parse_of_gist h, Command.parse_renumber]
  cases Command.parse n l with
  | error cause => exact report_renumber φ r n (.line cause)
  | ok c => exact command_renumber φ r c

/-- A line that says nothing leaves no trace, inside a macro and outside. -/
theorem step_of_gist_nil {l : Text} (h : l.gist = []) (r : Reader) (n : Nat) :
    r.step (l, n) = r := by
  simp only [step]
  rw [Command.parse_of_gist_nil h]
  rfl

/-- **Reading annotated lines** is reading the lines, with their new numbers. -/
theorem foldl_step_of_annotates {n k : Nat} {old new : List Text} {numbers : List Nat}
    (h : Text.Annotates n old new numbers) (hφ : ∀ i m, numbers[i]? = some m → φ (k + i) = m)
    (r : Reader) :
    (new.zipIdx n).foldl step (r.renumber φ) = ((old.zipIdx k).foldl step r).renumber φ := by
  induction h generalizing k r with
  | nil => rfl
  | insert hl _ ih =>
      rw [List.zipIdx_cons, List.foldl_cons, step_of_gist_nil (Text.gist_of_saysNothing hl)]
      exact ih hφ r
  | @keep n l l' old new numbers hl _ ih =>
      have hn : φ k = n := hφ 0 n rfl
      have hrest : ∀ i m, numbers[i]? = some m → φ (k + 1 + i) = m := by
        intro i m hm
        rw [Nat.add_assoc, Nat.add_comm 1 i]
        exact hφ (i + 1) m hm
      rw [List.zipIdx_cons, List.zipIdx_cons, List.foldl_cons, List.foldl_cons]
      have hstep := step_renumber (Text.gist_of_retouched hl) φ r k
      rw [hn] at hstep
      rw [hstep]
      exact ih hrest (r.step (l, k))

theorem findings_renumber (φ : Nat → Nat) (r : Reader) :
    (r.renumber φ).findings =
      r.findings.map (Diagnostic.renumber φ (SourceError.renumber φ)) := by
  obtain ⟨commands, macros, open?, problems⟩ := r
  cases open? with
  | none => simp [findings, renumber]
  | some m =>
      simp [findings, renumber, Diagnostic.renumber, SourceError.renumber, OpenMacro.renumber]

end Reader

namespace Source

variable {s t : Text} {numbers : List Nat}

/-- **What an annotated text reads as**: the same as the text, with the new numbers of its lines.
When the text is not read, neither is the annotated one, and the same is reported. -/
theorem parse_of_annotates (h : Text.Annotates 1 s.lines t.lines numbers) :
    Source.parse t =
      Except.bimap (List.map (Diagnostic.renumber (Text.newNumber numbers)
        (SourceError.renumber (Text.newNumber numbers))))
        (renumber (Text.newNumber numbers)) (Source.parse s) := by
  have hφ : ∀ i m, numbers[i]? = some m → Text.newNumber numbers (1 + i) = m := by
    intro i m hm
    rw [Nat.add_comm]
    exact Text.newNumber_succ hm
  have hfold := Reader.foldl_step_of_annotates h hφ {}
  have hempty : Reader.renumber (Text.newNumber numbers) {} = {} := by simp [Reader.renumber]
  rw [hempty] at hfold
  simp only [Source.parse, hfold, Reader.findings_renumber]
  generalize (s.lines.zipIdx 1).foldl Reader.step {} = r
  cases hfindings : r.findings with
  | nil => simp [Except.bimap, renumber, Reader.renumber]
  | cons d ds => rfl

end Source

/-! ### Expanding -/

namespace Macro

variable (φ : Nat → Nat) (m : Macro) (call : Command)

theorem instantiate_renumber :
    (m.renumber φ).instantiate (call.renumber φ) =
      (m.instantiate call).map (Command.renumber φ) := by
  rw [instantiate, instantiate, renumber, List.map_map, List.map_map]
  rfl

theorem missing_renumber : (m.renumber φ).missing (call.renumber φ) = m.missing call := by
  rw [missing, missing, renumber, List.flatMap_map]
  rfl

end Macro

/-- A command of the expanded program, or a call that cannot be replaced, with another line
number. -/
def Expanded.renumber (φ : Nat → Nat) : Expanded → Expanded :=
  Except.bimap (Diagnostic.renumber φ id) (Command.renumber φ)

theorem Expanded.problems_renumber (φ : Nat → Nat) (xs : List Expanded) :
    problems (xs.map (renumber φ)) = (problems xs).map (Diagnostic.renumber φ id) := by
  induction xs with
  | nil => rfl
  | cons x xs ih =>
      cases x with
      | error d => exact congrArg (Diagnostic.renumber φ id d :: ·) ih
      | ok c => exact ih

theorem Expanded.commands_renumber (φ : Nat → Nat) (xs : List Expanded) :
    commands (xs.map (renumber φ)) = (commands xs).map (Command.renumber φ) := by
  induction xs with
  | nil => rfl
  | cons x xs ih =>
      cases x with
      | error d => exact ih
      | ok c => exact congrArg (c.renumber φ :: ·) ih

namespace Command

variable (φ : Nat → Nat)

theorem marker_renumber (c : Command) :
    (c.renumber φ).marker = c.marker.map (renumber φ) := by
  obtain ⟨line, label, operation, a, b⟩ := c
  cases label <;> rfl

theorem macro?_renumber (p : Source) (c : Command) :
    (c.renumber φ).macro? (p.renumber φ).macros =
      (c.macro? p.macros).map (Macro.renumber φ) := by
  obtain ⟨line, label, operation, a, b⟩ := c
  cases operation with
  | instruction mnemonic => exact List.find?_map
  | _ => rfl

/-- A command that is no call is expanded to itself. -/
theorem expand_renumber_of_macro?_eq_none {p : Source} {c : Command}
    (h : c.macro? p.macros = none) (depth : Nat) :
    (c.renumber φ).expand (p.renumber φ).macros depth =
      (c.expand p.macros depth).map (Expanded.renumber φ) := by
  have hmacro : (c.renumber φ).macro? (p.renumber φ).macros = none := by
    rw [macro?_renumber, h, Option.map_none]
  rw [Source.expand_of_macro?_eq_none h, Source.expand_of_macro?_eq_none hmacro]
  rfl

/-- **Expanding a command carries its number along.** -/
theorem expand_renumber (p : Source) (depth : Nat) (c : Command) :
    (c.renumber φ).expand (p.renumber φ).macros depth =
      (c.expand p.macros depth).map (Expanded.renumber φ) := by
  -- On the depth: what a call is replaced by is expanded one call less deep.
  induction depth generalizing c with
  | zero =>
      have hmacro := macro?_renumber φ p c
      cases hm : c.macro? p.macros with
      | none => exact expand_renumber_of_macro?_eq_none φ hm 0
      | some m =>
          rw [hm] at hmacro
          rw [Source.expand_zero hm, Source.expand_zero hmacro]
          rfl
  | succ depth ih =>
      have hmacro := macro?_renumber φ p c
      cases hm : c.macro? p.macros with
      | none => exact expand_renumber_of_macro?_eq_none φ hm (depth + 1)
      | some m =>
          rw [hm] at hmacro
          have hgiven : (c.renumber φ).given = c.given := rfl
          have hparameters : (m.renumber φ).parameters = m.parameters := rfl
          simp only [expand, hm, hmacro, Option.map_some, hgiven, hparameters, m.missing_renumber]
          split
          · rfl
          · split
            · rw [marker_renumber, m.instantiate_renumber, List.map_append, List.map_flatMap,
                List.flatMap_map, List.map_map, List.map_map]
              refine congrArg₂ (· ++ ·) rfl ?_
              exact List.flatMap_congr fun d _ => ih d
            · rw [List.map_map]
              rfl

end Command

/-- **Expanding a program carries its numbers along.** -/
theorem Source.expand_renumber (φ : Nat → Nat) (p : Source) :
    (p.renumber φ).expand =
      Except.bimap (List.map (Diagnostic.renumber φ id)) (List.map (Command.renumber φ))
        p.expand := by
  have hexpand : (p.renumber φ).commands.flatMap
        (Command.expand (p.renumber φ).macros macroDepth) =
      (p.commands.flatMap (Command.expand p.macros macroDepth)).map (Expanded.renumber φ) := by
    rw [List.map_flatMap, renumber, List.flatMap_map]
    exact List.flatMap_congr fun c _ => Command.expand_renumber φ p macroDepth c
  simp only [expand, hexpand, Expanded.problems_renumber, Expanded.commands_renumber]
  generalize p.commands.flatMap (Command.expand p.macros macroDepth) = xs
  cases Expanded.problems xs with
  | nil => rfl
  | cons d ds => rfl

end WordMachine
