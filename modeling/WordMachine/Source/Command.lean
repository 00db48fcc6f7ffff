/-
**Commands.**

A line of assembly text is a command: an optional label, an operation and up to two operands.  An
operation is an instruction, named by any word in upper case, or a directive, whose name starts with
a point.

Main definitions:

* `Section`, `DataKind`, `Setting`, `Directive` — the directives and their names;
* `Operation` — what a command asks for;
* `Command`, `Command.print` — a command, and its text in a listing.
-/

import WordMachine.Instruction.Basic

set_option relaxedAutoImplicit false
set_option autoImplicit false

namespace WordMachine

/-! ### Directives -/

/-- The two sections that a program is written in. -/
inductive Section
  | text | data
  deriving DecidableEq, Repr

/-- The directives that fill the data section. -/
inductive DataKind
  | word | byte | string | space | align
  /-- Room for the indices between two numbers. -/
  | indices
  deriving DecidableEq, Repr

/-- The directives that place the segments of a program. -/
inductive Setting
  | textStart | stackStart | stackSize
  deriving DecidableEq, Repr

/-- The directives. -/
inductive Directive
  /-- What follows belongs to a section. -/
  | enter (s : Section)
  /-- Bytes for the data section. -/
  | data (k : DataKind)
  /-- A name for a number. -/
  | equate
  /-- The place of a segment. -/
  | setting (s : Setting)
  /-- The body of a macro starts. -/
  | macroStart
  /-- The body of a macro ends. -/
  | macroEnd
  deriving DecidableEq, Repr

/-- The name of the directive that enters a section. -/
def Section.name : Section → Text
  | text => ".text".toList
  | data => ".data".toList

/-- The name of a directive for the data section. -/
def DataKind.name : DataKind → Text
  | word => ".word".toList
  | byte => ".byte".toList
  | string => ".string".toList
  | space => ".space".toList
  | align => ".align".toList
  | indices => ".bitv".toList

/-- The name of a directive that places a segment. -/
def Setting.name : Setting → Text
  | textStart => ".text_start".toList
  | stackStart => ".stack_start".toList
  | stackSize => ".stack_size".toList

namespace Directive

/-- All directives. -/
def all : List Directive :=
  [enter .text, enter .data, data .word, data .byte, data .string, data .space, data .align,
   data .indices, equate, setting .textStart, setting .stackStart, setting .stackSize,
   macroStart, macroEnd]

/-- The name of a directive. -/
def name : Directive → Text
  | enter s => s.name
  | data k => k.name
  | equate => ".equ".toList
  | setting s => s.name
  | macroStart => ".macro".toList
  | macroEnd => ".endmacro".toList

/-- The directive with the given name, in lower case. -/
def ofName? (s : Text) : Option Directive :=
  all.find? (·.name == s)

/-- The name of a directive leads back to it. -/
@[simp] theorem ofName?_name (d : Directive) : ofName? d.name = some d := by
  rcases d with (_ | _) | (_ | _ | _ | _ | _ | _) | _ | (_ | _ | _) | _ | _ <;> decide

end Directive

/-! ### Operations -/

/-- What a command asks for. -/
inductive Operation
  /-- Nothing. -/
  | blank
  /-- An instruction or a call of a macro, by its name in upper case. -/
  | instruction (mnemonic : Text)
  /-- What follows belongs to a section. -/
  | enter (s : Section)
  /-- Bytes for the data section. -/
  | data (k : DataKind)
  /-- A name for a number. -/
  | equate
  /-- The place of a segment. -/
  | setting (s : Setting) (value : UInt32)
  /-- The body of a macro starts. -/
  | macroStart (name : Text) (parameters : List Text)
  /-- The body of a macro ends. -/
  | macroEnd
  deriving DecidableEq, Repr

/-- The word for an operation; none for the blank one. -/
def Operation.name : Operation → Text
  | blank => []
  | instruction mnemonic => mnemonic
  | enter s => s.name
  | data k => k.name
  | equate => Directive.equate.name
  | setting s _ => s.name
  | macroStart _ _ => Directive.macroStart.name
  | macroEnd => Directive.macroEnd.name

/-! ### Commands -/

/-- A **command**: what one line of assembly text says. -/
structure Command where
  /-- The number of the line. -/
  line : Nat
  /-- The label in front of the operation. -/
  label : Option Text := none
  /-- What the command asks for. -/
  operation : Operation := .blank
  /-- The first operand. -/
  a : Option Operand := none
  /-- The second operand. -/
  b : Option Operand := none
  deriving DecidableEq, Repr

namespace Command

/-- The command has neither a label nor an operation. -/
def isVoid (c : Command) : Bool :=
  c.operation == .blank && c.label.isNone

/-- The label of a command, with a colon and a space after it. -/
def printLabel (c : Command) : Text :=
  match c.label with
  | some label => label ++ [':', ' ']
  | none => []

/-- The name and the parameters of a macro, each after a space. -/
def printHeader : Operation → Text
  | .macroStart name parameters => (name :: parameters).flatMap fun w => ' ' :: w
  | _ => []

/-- A command as assembly text. -/
def printBody (c : Command) : Text :=
  c.printLabel ++ c.operation.name ++ printHeader c.operation ++ Operand.printPair c.a c.b

/-- A command as a line of a listing: its line number and its text. -/
def print (c : Command) : Text :=
  "line ".toList ++ Numeral.decimal c.line ++ [':', ' '] ++ c.printBody ++ ['\n']

end Command

end WordMachine
