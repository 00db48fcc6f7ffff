/-
**Assembling.**

A second walk over the commands, with the values of all names at hand, gives the words of the text
and the bytes of the data.  A program is the result: an image that can be loaded into memory, and
what a listing tells about it.

Main definitions:

* `Image`, `Program` — an assembled program;
* `EmissionError` — why a command has no words or bytes;
* `Emission`, `Emission.step` — the words and bytes so far, and one more command;
* `AssemblyError`, `Program.assemble` — from source text to a program.
-/

import WordMachine.Assembly.Layout
import WordMachine.Source.Expansion

set_option relaxedAutoImplicit false
set_option autoImplicit false

namespace WordMachine

/-- What is loaded into memory. -/
structure Image where
  /-- The words of the text. -/
  text : List UInt32
  /-- The bytes of the data. -/
  data : List UInt8
  /-- Where the text starts. -/
  textStart : UInt32
  /-- Where the data starts. -/
  dataStart : UInt32
  /-- Where the stack starts. -/
  stackStart : UInt32
  deriving DecidableEq, Repr

namespace Image

/-- The address after the text. -/
def textEnd (p : Image) : Nat := p.textStart.toNat + 4 * p.text.length

/-- The address after the data. -/
def dataEnd (p : Image) : Nat := p.dataStart.toNat + p.data.length

end Image

/-- An assembled **program**. -/
structure Program extends Image where
  /-- The line of each word of the text. -/
  lines : List Nat
  /-- How many bytes the stack has. -/
  stackSize : UInt32
  /-- The values of the names. -/
  symbols : SymbolTable
  deriving DecidableEq, Repr

/-! ### The second walk -/

/-- Why a command has no words or bytes. -/
inductive EmissionError
  /-- An instruction has no word. -/
  | instruction (cause : EncodingError)
  /-- The operands do not fit a data directive. -/
  | operands (cause : DataError)
  /-- A datum has no bytes. -/
  | value (cause : Datum.ValueError)
  deriving DecidableEq, Repr

/-- The wording of a diagnostic. -/
def EmissionError.message : EmissionError → String
  | instruction cause => cause.message
  | operands cause => cause.message
  | value cause => cause.message

/-- The words and bytes of the commands so far. -/
structure Emission where
  /-- The section of the next command. -/
  current : Section := .text
  /-- The words of the text. -/
  text : Array UInt32 := #[]
  /-- The line of each word of the text. -/
  lines : Array Nat := #[]
  /-- The bytes of the data. -/
  data : Array UInt8 := #[]
  /-- What was wrong. -/
  problems : Array (Diagnostic EmissionError) := #[]

namespace Emission

/-- Reports a mistake. -/
def report (e : Emission) (line : Nat) (cause : EmissionError) : Emission :=
  { e with problems := e.problems.push ⟨line, cause⟩ }

/-- The bytes of a data directive, when `offset` bytes come before it. -/
def dataBytes (symbols : SymbolTable) (offset : Nat) (k : DataKind) (c : Command) :
    Except EmissionError (List UInt8) := do
  let d ← (Datum.ofOperands k c.a c.b).mapError .operands
  (d.bytes symbols offset).mapError .value

/-- Appends the bytes of a data directive; in the text section it has none. -/
def addData (symbols : SymbolTable) (e : Emission) (c : Command) (k : DataKind) : Emission :=
  match e.current with
  | .text => e
  | .data =>
    match dataBytes symbols e.data.size k c with
    | .ok bytes => { e with data := e.data ++ bytes }
    | .error cause => e.report c.line cause

/-- Appends the word of an instruction. -/
def addInstruction (symbols : SymbolTable) (e : Emission) (c : Command) (mnemonic : Text) :
    Emission :=
  match Instruction.encodeNamed symbols mnemonic c.a c.b with
  | .ok w => { e with text := e.text.push w, lines := e.lines.push c.line }
  | .error cause => e.report c.line (.instruction cause)

/-- Appends what a command stands for. -/
def step (symbols : SymbolTable) (e : Emission) (c : Command) : Emission :=
  match c.operation with
  | .enter target => { e with current := target }
  | .data k => addData symbols e c k
  | .instruction mnemonic => addInstruction symbols e c mnemonic
  | .blank | .equate | .setting _ _ | .macroStart _ _ | .macroEnd => e

/-- The words and bytes of some commands. -/
def ofCommands (symbols : SymbolTable) (cs : List Command) : Emission :=
  cs.foldl (step symbols) {}

end Emission

/-! ### All stages -/

/-- What can be wrong with a program, by the stage that finds it. -/
inductive AssemblyError
  | source (problems : List (Diagnostic SourceError))
  | expansion (problems : List (Diagnostic ExpansionError))
  | layout (problems : List (Diagnostic LayoutError))
  | emission (problems : List (Diagnostic EmissionError))
  deriving DecidableEq, Repr

namespace AssemblyError

/-- The findings with their wording. -/
def diagnostics : AssemblyError → List (Diagnostic String)
  | source ds => ds.map (·.map SourceError.message)
  | expansion ds => ds.map (·.map ExpansionError.message)
  | layout ds => ds.map (·.map LayoutError.message)
  | emission ds => ds.map (·.map EmissionError.message)

/-- The text of all findings together. -/
def message (e : AssemblyError) : String :=
  Text.message (Diagnostic.report e.diagnostics)

end AssemblyError

namespace Program

/-- The commands of a source text, without macros. -/
def commands (source : Text) : Except AssemblyError (List Command) := do
  let parsed ← (Source.parse source).mapError .source
  parsed.expand.mapError .expansion

/-- The program of some commands with the given layout. -/
def ofLayout (l : Layout) (cs : List Command) : Except AssemblyError Program :=
  let e := Emission.ofCommands l.symbols cs
  match e.problems.toList with
  | [] => .ok
      { text := e.text.toList
        data := e.data.toList
        textStart := l.textStart
        dataStart := l.dataStart
        stackStart := l.stackStart
        lines := e.lines.toList
        stackSize := l.stackSize
        symbols := l.symbols }
  | problems => .error (.emission problems)

/-- Assembles a source text for a memory of the given size. -/
def assemble (memory : MemorySize) (source : Text) : Except AssemblyError Program := do
  let cs ← commands source
  let l ← (Layout.ofCommands memory cs).mapError .layout
  ofLayout l cs

end Program

end WordMachine
