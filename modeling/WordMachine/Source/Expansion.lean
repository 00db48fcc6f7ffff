/-
**Expanding macros.**

A call of a macro is replaced by the body of the macro, in which every label that is a parameter is
replaced by the operand of the call in the same place.  All replacements in a body happen at once.
The commands of the body get the line of the call; the label of the call stays in front of them, on
a command of its own.  What comes out is expanded again, up to sixteen calls deep.

Main definitions:

* `ExpansionError` — why a call cannot be replaced;
* `Macro.instantiate`, `Macro.missing` — the body for a call, and the parameters without operand;
* `Command.expand` — the commands that replace a command;
* `Source.expand` — the commands of a program without macros.
-/

import WordMachine.Source.Program

set_option relaxedAutoImplicit false
set_option autoImplicit false

namespace WordMachine

/-- How deep calls of macros may be nested. -/
def macroDepth : Nat := 16

/-- Why a call of a macro cannot be replaced. -/
inductive ExpansionError
  /-- The call is nested too deep. -/
  | tooDeep (name : Text)
  /-- The call has more operands than the macro has parameters. -/
  | tooManyArguments (name : Text) (parameters given : Nat)
  /-- The body uses a parameter for which the call has no operand. -/
  | missingArgument (parameter name : Text)
  deriving DecidableEq, Repr

/-- The wording of a diagnostic. -/
def ExpansionError.message : ExpansionError → String
  | tooDeep name =>
    s!"macro expansion of '{name.str}' exceeds depth {(Numeral.decimal macroDepth).str}"
  | tooManyArguments name parameters given =>
    s!"macro '{name.str}' takes {(Numeral.decimal parameters).str} argument(s)," ++
      s!" got {(Numeral.decimal given).str}"
  | missingArgument parameter name =>
    s!"missing argument '{parameter.str}' for macro '{name.str}'"

/-! ### One call -/

namespace Command

/-- The operand in a place, the places being counted from zero. -/
def operand? (c : Command) : Nat → Option Operand
  | 0 => c.a
  | 1 => c.b
  | _ => none

/-- How many operands a call gives: a second one makes two of them, even without a first. -/
def given (c : Command) : Nat :=
  if c.b.isSome then 2 else if c.a.isSome then 1 else 0

/-- The macro that a command calls. -/
def macro? (macros : List Macro) (c : Command) : Option Macro :=
  match c.operation with
  | .instruction mnemonic => Source.findMacro? macros mnemonic.upper
  | _ => none

/-- A command with nothing but the label of a call. -/
def marker (c : Command) : List Command :=
  match c.label with
  | some label => [{ line := c.line, label := some label }]
  | none => []

end Command

namespace Macro

/-- The place of the parameter that an operand names. -/
def place? (m : Macro) : Option Operand → Option Nat
  | some (.label name) => m.parameters.findIdx? (· == name)
  | _ => none

/-- An operand of the body with the operand of the call for a parameter. -/
def substitute (m : Macro) (call : Command) (x : Option Operand) : Option Operand :=
  match m.place? x with
  | some i => call.operand? i
  | none => x

/-- The body of a macro for a call. -/
def instantiate (m : Macro) (call : Command) : List Command :=
  m.body.map fun c =>
    { c with line := call.line, a := m.substitute call c.a, b := m.substitute call c.b }

/-- The parameter that an operand names, if the call has no operand for it. -/
def missingIn (m : Macro) (call : Command) (x : Option Operand) : List Text :=
  match x, m.place? x with
  | some (.label name), some i => if (call.operand? i).isNone then [name] else []
  | _, _ => []

/-- The parameters that the body uses and for which the call has no operand, once for each use. -/
def missing (m : Macro) (call : Command) : List Text :=
  m.body.flatMap fun c => m.missingIn call c.a ++ m.missingIn call c.b

end Macro

/-! ### All calls -/

/-- A command of the expanded program, or a call that cannot be replaced. -/
abbrev Expanded := Except (Diagnostic ExpansionError) Command

/-- Expands a command, with calls at most `depth` deep. -/
def Command.expand (macros : List Macro) : Nat → Command → List Expanded
  | depth, c =>
    match c.macro? macros with
    | none => [.ok c]
    | some m =>
      match depth with
      | 0 => [.error ⟨c.line, .tooDeep m.name⟩]
      | depth + 1 =>
        if m.parameters.length < c.given then
          [.error ⟨c.line, .tooManyArguments m.name m.parameters.length c.given⟩]
        -- A call that lacks an operand is reported once for each use and not looked into.
        else match m.missing c with
        | [] => c.marker.map .ok ++ (m.instantiate c).flatMap (Command.expand macros depth)
        | parameters => parameters.map fun p => .error ⟨c.line, .missingArgument p m.name⟩

/-- The mistakes in an expansion. -/
def Expanded.problems (xs : List Expanded) : List (Diagnostic ExpansionError) :=
  xs.filterMap fun
    | .error d => some d
    | .ok _ => none

/-- The commands in an expansion. -/
def Expanded.commands (xs : List Expanded) : List Command :=
  xs.filterMap fun
    | .ok c => some c
    | .error _ => none

/-- The commands of a program with all calls replaced. -/
def Source.expand (p : Source) : Except (List (Diagnostic ExpansionError)) (List Command) :=
  let xs := p.commands.flatMap (Command.expand p.macros macroDepth)
  match Expanded.problems xs with
  | [] => .ok (Expanded.commands xs)
  | problems => .error problems

end WordMachine
