/-
**Reading a line.**

A line is read from the left: a comment is cut off, a label is split from the first word, the next
word is the operation, and the rest is its operands.  Operands are separated by commas; those of an
instruction may be separated by white space instead.

Main definitions:

* `LineError` — why a line is no command;
* `Text.stripComment` — a line without its comment;
* `Command.parse` — reading a line.
-/

import WordMachine.Source.Command
import WordMachine.Operand.Parser
import WordMachine.Text.Split

set_option relaxedAutoImplicit false
set_option autoImplicit false

namespace WordMachine

/-! ### Errors -/

/-- The things that a line can name. -/
inductive NameRole
  | label | macroName | parameter
  deriving DecidableEq, Repr

/-- What a diagnostic calls them. -/
def NameRole.name : NameRole → String
  | label => "label"
  | macroName => "macro"
  | parameter => "macro parameter"

/-- Why a line is no command. -/
inductive LineError
  /-- An operand cannot be read. -/
  | operand (cause : OperandError)
  /-- A name is no operand at all. -/
  | invalidName (role : NameRole) (name : Text)
  /-- A name reads as some other operand, or holds a colon. -/
  | reservedName (role : NameRole) (name : Text) (reading : Operand)
  /-- There is nothing in front of the colon. -/
  | emptyLabel
  /-- No directive has the given name. -/
  | unknownDirective (name : Text)
  /-- There are more than two operands. -/
  | tooManyOperands (operation : Text)
  /-- The place of a segment is not given. -/
  | settingMissing (s : Setting)
  /-- There are several operands for the place of a segment. -/
  | settingCount (s : Setting)
  /-- The place of a segment is not a number. -/
  | settingKind (s : Setting) (got : Operand)
  /-- A macro has no name. -/
  | macroNameMissing
  /-- Something follows the end of a macro. -/
  | macroEndOperands
  deriving DecidableEq, Repr

/-- The wording of a diagnostic. -/
def LineError.message (e : LineError) : String :=
  Text.message <| match e with
  | operand cause => cause.message
  | invalidName role name => s!"invalid {role.name} name: '{name.str}'"
  | reservedName role name reading =>
    s!"invalid {role.name} name: '{name.str}' is a {Operand.kindName reading}"
  | emptyLabel => "empty label"
  | unknownDirective name => s!"unknown directive: {name.str}"
  | tooManyOperands operation => s!"too many operands for {operation.str} (at most 2)"
  | settingMissing s => s!"{s.name.str} expects an immediate value"
  | settingCount s => s!"{s.name.str} expects exactly one operand"
  | settingKind s got => s!"{s.name.str} expects an immediate value, got {Operand.kindName got}"
  | macroNameMissing => ".macro expects a name"
  | macroEndOperands => ".endmacro takes no operands"

/-! ### Comments -/

/-- A line up to the first semicolon outside a string. -/
def Text.cutComment : Bool → Text → Text
  | _, [] => []
  | quoted, c :: cs =>
    let quoted := if c == '"' then !quoted else quoted
    if c == ';' && !quoted then [] else c :: cutComment quoted cs

/-- A line without its comment. -/
def Text.stripComment (s : Text) : Text :=
  s.cutComment false

/-! ### Parts of a line -/

namespace Command

/-- Reads an operand. -/
def parseOperand (s : Text) : Except LineError Operand :=
  (Operand.parse s).mapError .operand

/-- A name must read as a bare label and hold no colon. -/
def checkName (role : NameRole) (name : Text) : Except LineError Unit :=
  match Operand.parse name with
  | .error _ => .error (.invalidName role name)
  | .ok (.label text) =>
    if name.contains ':' then .error (.reservedName role name (.label text)) else .ok ()
  | .ok reading => .error (.reservedName role name reading)

/-- Splits a label from the front of a line: the part before the first colon of the first word,
unless that word holds a double quote. -/
def takeLabel (s : Text) : Except LineError (Option Text × Text) :=
  -- Of all white space only the space and the tab end this word.
  let word := s.takeWhile fun c => c != ' ' && c != '\t'
  if word.contains ':' && !word.contains '"' then do
    let name := word.takeWhile (· != ':')
    if name.isEmpty then throw .emptyLabel
    checkName .label name
    return (some name, Text.trim (s.drop (name.length + 1)))
  else return (none, s)

/-- Reads at most two operands. -/
def operands (operation : Text) : List Text → Except LineError (Option Operand × Option Operand)
  | [] => return (none, none)
  | [a] => return (← parseOperand a, none)
  | [a, b] => do
    let a ← parseOperand a
    let b ← parseOperand b
    return (a, b)
  | _ => throw (.tooManyOperands operation)

/-- The operands of an instruction: fields between commas, or words if there is no comma. -/
def instructionFields (rest : Text) : List Text :=
  match Text.splitFields ',' rest with
  | [_] => rest.splitWords
  | fields => fields

/-- Reads the operand of a directive that places a segment. -/
def parseSetting (c : Command) (s : Setting) (rest : Text) : Except LineError Command :=
  if rest.isEmpty then .error (.settingMissing s)
  else match Text.splitFields ',' rest with
  | [field] => do
    match ← parseOperand field with
    | .immediate v => return { c with operation := .setting s v, a := some (.immediate v) }
    | got => throw (.settingKind s got)
  | _ => .error (.settingCount s)

/-- Reads the name and the parameters of a macro, separated by commas or by white space. -/
def parseMacroStart (c : Command) (rest : Text) : Except LineError Command :=
  match (Text.splitFields ',' rest).flatMap Text.splitWords with
  | [] => .error .macroNameMissing
  | name :: parameters => do
    checkName .macroName name
    parameters.forM (checkName .parameter)
    return { c with operation := .macroStart name parameters }

/-- Reads the operands of a directive.  A name that stands as a label before a single number is
moved behind the directive that names numbers. -/
def parseDirective (c : Command) (d : Directive) (rest : Text) : Except LineError Command :=
  let fields := Text.splitFields ',' rest
  match d with
  | .enter s => do
    let (a, b) ← operands s.name fields
    return { c with operation := .enter s, a, b }
  | .data k => do
    let (a, b) ← operands k.name fields
    return { c with operation := .data k, a, b }
  | .equate => do
    let (a, b) ← operands d.name fields
    match c.label, b with
    | some label, none =>
      return { c with label := none, operation := .equate, a := some (.label label), b := a }
    | _, _ => return { c with operation := .equate, a, b }
  | .setting s => c.parseSetting s rest
  | .macroStart => c.parseMacroStart rest
  | .macroEnd =>
    if rest.isEmpty then return { c with operation := .macroEnd } else throw .macroEndOperands

/-- Reads the operation and its operands. -/
def parseOperation (c : Command) (s : Text) : Except LineError Command :=
  let word := s.takeWhile (!Text.isBlank ·)
  -- What follows a newline inside the text does not belong to the operands.
  let rest := Text.trim ((s.drop word.length).takeWhile (· != '\n'))
  if word.head? == some '.' then
    match Directive.ofName? (Text.lower word) with
    | some d => c.parseDirective d rest
    | none => .error (.unknownDirective (Text.lower word))
  else do
    let mnemonic := Text.upper word
    let (a, b) ← operands mnemonic (instructionFields rest)
    return { c with operation := .instruction mnemonic, a, b }

/-- Reads a line.  A line with nothing but a comment is a blank command. -/
def parse (line : Nat) (s : Text) : Except LineError Command :=
  let s := s.stripComment.trim
  if s.isEmpty then return { line }
  else do
    let (label, rest) ← takeLabel s
    if rest.isEmpty then return { line, label }
    parseOperation { line, label } rest

end Command

end WordMachine
