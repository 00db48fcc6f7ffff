/-
**Source programs.**

A source text is read line by line.  The lines between `.macro` and `.endmacro` are the body of a
macro, the others are the program itself; lines with neither a label nor an operation are left out.
Macro bodies cannot be nested, and no two macros have one name, whatever the letter case.

Reading goes on after a mistake.  A line that cannot be read is reported and left out; a macro whose
name is taken is read and forgotten; a macro inside a macro is skipped up to its own end.

Main definitions:

* `Macro`, `Source` — what a source text defines;
* `SourceError` — what can be wrong with it;
* `Reader`, `Reader.step` — what has been read so far, and one more line;
* `Source.parse` — reading a source text.
-/

import WordMachine.Source.Line
import WordMachine.Diagnostic

set_option relaxedAutoImplicit false
set_option autoImplicit false

namespace WordMachine

/-- A **macro**: commands under a name, with parameters for their operands. -/
structure Macro where
  /-- The name, as it was written. -/
  name : Text
  /-- The names that stand for the operands of a call. -/
  parameters : List Text
  /-- The commands. -/
  body : List Command
  /-- The number of the line that starts the macro. -/
  line : Nat
  deriving DecidableEq, Repr

/-- The name by which a macro is called, in upper case. -/
def Macro.key (m : Macro) : Text := m.name.upper

/-- A **source program**: its commands and its macros, in the order of the text. -/
structure Source where
  /-- The commands outside macros. -/
  commands : List Command
  /-- The macros. -/
  macros : List Macro
  deriving DecidableEq, Repr

/-- The macro called by a name in upper case. -/
def Source.findMacro? (macros : List Macro) (key : Text) : Option Macro :=
  macros.find? (·.key == key)

/-! ### Errors -/

/-- What can be wrong with a source text. -/
inductive SourceError
  /-- A line is no command. -/
  | line (cause : LineError)
  /-- A macro starts inside another one. -/
  | nestedMacro (name outer : Text)
  /-- A label stands in front of the start of a macro. -/
  | labelledMacro (label : Text)
  /-- The name of a macro is taken, since the given line. -/
  | duplicateMacro (name : Text) (first : Nat)
  /-- A macro ends that did not start. -/
  | strayMacroEnd
  /-- A macro does not end. -/
  | unclosedMacro (name : Text)
  deriving DecidableEq, Repr

/-- The wording of a diagnostic. -/
def SourceError.message : SourceError → String
  | line cause => cause.message
  | nestedMacro name outer =>
    s!"nested macro definition '{name.str}' inside macro '{outer.str}'"
  | labelledMacro label => s!"label '{label.str}' not allowed on a .macro line"
  | duplicateMacro name first =>
    s!"duplicate macro '{name.str}' (first defined on line {(Numeral.decimal first).str})"
  | strayMacroEnd => ".endmacro without a matching .macro"
  | unclosedMacro name => s!"unclosed macro '{name.str}'"

/-! ### Reading line by line -/

/-- A macro whose end has not been read. -/
structure OpenMacro where
  /-- The name, as it was written. -/
  name : Text
  /-- The parameters. -/
  parameters : List Text
  /-- The number of the line that starts the macro. -/
  line : Nat
  /-- The name is taken, so that the macro will be forgotten. -/
  isDuplicate : Bool
  /-- How many macros inside this one are being skipped. -/
  skipped : Nat := 0
  /-- The commands so far. -/
  body : Array Command := #[]

/-- The macro, now that its end has been read. -/
def OpenMacro.close (m : OpenMacro) : Macro :=
  ⟨m.name, m.parameters, m.body.toList, m.line⟩

/-- What has been read so far. -/
structure Reader where
  /-- The commands outside macros. -/
  commands : Array Command := #[]
  /-- The macros. -/
  macros : Array Macro := #[]
  /-- The macro whose end has not been read. -/
  open? : Option OpenMacro := none
  /-- What was wrong. -/
  problems : Array (Diagnostic SourceError) := #[]

namespace Reader

/-- Reports a mistake. -/
def report (r : Reader) (line : Nat) (cause : SourceError) : Reader :=
  { r with problems := r.problems.push ⟨line, cause⟩ }

/-- Reads the start of a macro. -/
def startMacro (r : Reader) (c : Command) (name : Text) (parameters : List Text) : Reader :=
  match r.open? with
  | some outer =>
    { r.report c.line (.nestedMacro name outer.name) with
      open? := some { outer with skipped := outer.skipped + 1 } }
  | none =>
    let r := match c.label with
      | some label => r.report c.line (.labelledMacro label)
      | none => r
    match r.macros.find? (·.key == name.upper) with
    | some first =>
      { r.report c.line (.duplicateMacro name first.line) with
        open? := some { name, parameters, line := c.line, isDuplicate := true } }
    | none => { r with open? := some { name, parameters, line := c.line, isDuplicate := false } }

/-- Reads the end of a macro. -/
def endMacro (r : Reader) (c : Command) : Reader :=
  match r.open? with
  | none => r.report c.line .strayMacroEnd
  | some m =>
    -- The innermost macro ends first: one that is being skipped, if there is any.
    if m.skipped ≠ 0 then { r with open? := some { m with skipped := m.skipped - 1 } }
    else if m.isDuplicate then { r with open? := none }
    else { r with open? := none, macros := r.macros.push m.close }

/-- Reads a command that is neither void nor the start or the end of a macro. -/
def addCommand (r : Reader) (c : Command) : Reader :=
  -- The reader is taken apart first, so that the body it holds is extended in place.
  match r with
  | { commands, macros, open? := none, problems } =>
    { commands := commands.push c, macros, open? := none, problems }
  | { commands, macros, open? := some m, problems } =>
    if m.skipped ≠ 0 then { commands, macros, open? := some m, problems }
    else { commands, macros, open? := some { m with body := m.body.push c }, problems }

/-- Reads a command. -/
def command (r : Reader) (c : Command) : Reader :=
  match c.operation with
  | .macroStart name parameters => r.startMacro c name parameters
  | .macroEnd => r.endMacro c
  | _ => if c.isVoid then r else r.addCommand c

/-- Reads a line with its number. -/
def step (r : Reader) (line : Text × Nat) : Reader :=
  match Command.parse line.2 line.1 with
  | .ok c => r.command c
  | .error cause => r.report line.2 (.line cause)

/-- Everything that was wrong, once the last line has been read. -/
def findings (r : Reader) : List (Diagnostic SourceError) :=
  r.problems.toList ++
    match r.open? with
    | some m => [⟨m.line, .unclosedMacro m.name⟩]
    | none => []

end Reader

/-- Reads a source text. -/
def Source.parse (s : Text) : Except (List (Diagnostic SourceError)) Source :=
  let r := (s.lines.zipIdx 1).foldl Reader.step {}
  match r.findings with
  | [] => .ok ⟨r.commands.toList, r.macros.toList⟩
  | problems => .error problems

end WordMachine
