/-
**Layout.**

A first walk over the commands finds out how long the text and the data are, where the segments are
to be placed, and what the names stand for: a place in the text, a place in the data, or a number.
The text lies where it is told to, at zero otherwise; the stack has the size and the place that it
is told, or else four kilobytes at the end of memory; the data ends where the stack begins.  Then
the places become addresses.

The walk goes on after a mistake, with what the command had done by then: a label may be defined
although the rest of its command is wrong.

Main definitions:

* `LayoutError` — what can be wrong with a command, and with the whole;
* `Survey`, `Survey.visit`, `Survey.step` — what the walk has found, and one more command;
* `Survey.placementErrors` — whether the segments fit into memory;
* `Layout`, `Layout.ofCommands` — addresses for the segments and the names.
-/

import WordMachine.Assembly.Data
import WordMachine.MemorySize
import WordMachine.Diagnostic

set_option relaxedAutoImplicit false
set_option autoImplicit false

namespace WordMachine

/-! ### Errors -/

/-- What can be wrong with the layout of a program. -/
inductive LayoutError
  /-- A name is defined twice. -/
  | duplicateLabel (name : Text) (first : Nat)
  /-- The place of a label exceeds 32 bits. -/
  | labelOverflow (name : Text)
  /-- What is to be named by `.equ` is missing. -/
  | equateName
  /-- What `.equ` names is not a number. -/
  | equateValue
  /-- A section is entered with operands. -/
  | sectionOperands (s : Section)
  /-- A segment is placed twice. -/
  | duplicateSetting (s : Setting)
  /-- The operands do not fit a data directive. -/
  | data (cause : DataError)
  /-- A data directive stands in the text section. -/
  | dataInText (k : DataKind)
  /-- An instruction stands in the data section. -/
  | instructionInData (mnemonic : Text)
  /-- The start or the end of a macro stands among the commands. -/
  | misplaced (name : Text)
  /-- The stack is larger than memory. -/
  | stackTooLarge (size memory : Nat)
  /-- The text starts outside memory. -/
  | textOutside (start memory : Nat)
  /-- The stack starts outside memory. -/
  | stackOutside (start memory : Nat)
  /-- The stack ends outside memory. -/
  | stackEnd (start stop memory : Nat)
  /-- The data does not fit below the stack. -/
  | dataTooLarge (size stack : Nat)
  /-- The text does not end before the data. -/
  | textOverlap (start stop limit : Nat)
  deriving DecidableEq, Repr

/-- The wording of a diagnostic. -/
def LayoutError.message (e : LayoutError) : String :=
  Text.message <| match e with
  | duplicateLabel name first =>
    s!"duplicate label '{name.str}' (first defined on line {(Numeral.decimal first).str})"
  | labelOverflow name => s!"label '{name.str}' address overflows 32 bits"
  | equateName => ".equ expects NAME, value"
  | equateValue => ".equ value must be an immediate"
  | sectionOperands s => s!"{s.name.str} takes no operands"
  | duplicateSetting s => s!"duplicate {s.name.str} directive"
  | data cause => cause.message
  | dataInText k => s!"{k.name.str} is only allowed in the .data section"
  | instructionInData mnemonic =>
    s!"instruction {mnemonic.str} is only allowed in the .text section"
  | misplaced name => s!"unknown directive: {name.str}"
  | stackTooLarge size memory =>
    s!"stack segment size {(Numeral.word size).str} exceeds total memory" ++
      s!" ({(Numeral.word memory).str})"
  | textOutside start memory =>
    s!"text segment start {(Numeral.word start).str} is outside total memory" ++
      s!" ({(Numeral.word memory).str})"
  | stackOutside start memory =>
    s!"stack segment start {(Numeral.word start).str} is outside total memory" ++
      s!" ({(Numeral.word memory).str})"
  | stackEnd start stop memory =>
    s!"stack segment ({(Numeral.word start).str} - {(Numeral.word stop).str})" ++
      s!" exceeds total memory ({(Numeral.word memory).str})"
  | dataTooLarge size stack =>
    s!"data segment ({(Numeral.decimal size).str} bytes) does not fit below the stack" ++
      s!" at {(Numeral.word stack).str}"
  | textOverlap start stop limit =>
    s!"text segment ({(Numeral.word start).str} - {(Numeral.word stop).str})" ++
      s!" overlaps data segment at {(Numeral.word limit).str}"

/-! ### The walk -/

/-- What a name stands for: a place in the text or in the data, or a number. -/
inductive Origin
  | text | data | absolute
  deriving DecidableEq, Repr

/-- The place that a label in a section stands for. -/
def Section.origin : Section → Origin
  | text => .text
  | data => .data

/-- A name and what it stands for. -/
structure Definition where
  /-- The name. -/
  name : Text
  /-- What the value counts from. -/
  origin : Origin
  /-- The place or the number. -/
  value : Nat
  /-- The line of the definition. -/
  line : Nat
  deriving DecidableEq, Repr

/-- What the walk has found. -/
structure Survey where
  /-- The section of the next command. -/
  current : Section := .text
  /-- The number of bytes of text. -/
  textSize : Nat := 0
  /-- The number of bytes of data. -/
  dataSize : Nat := 0
  /-- Where the text is told to start. -/
  textStart : Option UInt32 := none
  /-- Where the stack is told to start. -/
  stackStart : Option UInt32 := none
  /-- How many bytes the stack is told to have. -/
  stackSize : Option UInt32 := none
  /-- The names, in the order of their definitions. -/
  definitions : Array Definition := #[]
  /-- What was wrong. -/
  problems : Array (Diagnostic LayoutError) := #[]

namespace Survey

/-- What a command leads to: the walk goes on, after a mistake with what had been done by then. -/
abbrev Visit := Except (LayoutError × Survey) Survey

/-- A mistake. -/
def fail (s : Survey) (cause : LayoutError) : Visit := .error (cause, s)

/-- The definition of a name. -/
def find? (s : Survey) (name : Text) : Option Definition :=
  s.definitions.find? (·.name == name)

/-- Defines a name. -/
def define (s : Survey) (d : Definition) : Visit :=
  match s.find? d.name with
  | some first => s.fail (.duplicateLabel d.name first.line)
  | none =>
    if 2 ^ 32 ≤ d.value then s.fail (.labelOverflow d.name)
    else .ok { s with definitions := s.definitions.push d }

/-- The number of bytes so far in the section of the next command. -/
def offset (s : Survey) : Nat :=
  match s.current with
  | .text => s.textSize
  | .data => s.dataSize

/-- Defines the label of a command. -/
def defineLabel (s : Survey) (c : Command) : Visit :=
  match c.label with
  | some name => s.define ⟨name, s.current.origin, s.offset, c.line⟩
  | none => .ok s

/-- Names a number. -/
def equate (s : Survey) (c : Command) : Visit :=
  match c.a, c.b with
  | some (.label name), some (.immediate v) => do
    let s ← s.defineLabel c
    s.define ⟨name, .absolute, v.toNat, c.line⟩
  | some (.label _), _ => s.fail .equateValue
  | _, _ => s.fail .equateName

/-- Enters a section. -/
def enter (s : Survey) (c : Command) (target : Section) : Visit :=
  if c.a.isSome || c.b.isSome then s.fail (.sectionOperands target)
  else .ok { s with current := target }

/-- Places a segment. -/
def place (s : Survey) (setting : Setting) (v : UInt32) : Visit :=
  match setting with
  | .textStart =>
    if s.textStart.isSome then s.fail (.duplicateSetting setting)
    else .ok { s with textStart := some v }
  | .stackStart =>
    if s.stackStart.isSome then s.fail (.duplicateSetting setting)
    else .ok { s with stackStart := some v }
  | .stackSize =>
    if s.stackSize.isSome then s.fail (.duplicateSetting setting)
    else .ok { s with stackSize := some v }

/-- Counts the bytes of a data directive.  In the text section only an alignment is admitted, which
has no effect there. -/
def addData (s : Survey) (c : Command) (k : DataKind) : Visit :=
  if s.current = .text ∧ k ≠ .align then s.fail (.dataInText k)
  else match Datum.ofOperands k c.a c.b with
  | .error cause => s.fail (.data cause)
  | .ok d =>
    match s.current with
    | .text => .ok s
    | .data => .ok { s with dataSize := s.dataSize + d.size s.dataSize }

/-- Counts the bytes of an instruction. -/
def addInstruction (s : Survey) (mnemonic : Text) : Visit :=
  match s.current with
  | .text => .ok { s with textSize := s.textSize + 4 }
  | .data => s.fail (.instructionInData mnemonic)

/-- Visits a command. -/
def visit (s : Survey) (c : Command) : Visit :=
  match c.operation with
  | .equate => s.equate c
  | .blank => s.defineLabel c
  | .enter target => do (← s.defineLabel c).enter c target
  | .setting setting v => do (← s.defineLabel c).place setting v
  | .data k => do (← s.defineLabel c).addData c k
  | .instruction mnemonic => do (← s.defineLabel c).addInstruction mnemonic
  | .macroStart _ _ | .macroEnd => do (← s.defineLabel c).fail (.misplaced c.operation.name)

/-- Visits a command and goes on in any case. -/
def step (s : Survey) (c : Command) : Survey :=
  match s.visit c with
  | .ok s => s
  | .error (cause, s) => { s with problems := s.problems.push ⟨c.line, cause⟩ }

/-- What the walk over some commands has found. -/
def ofCommands (cs : List Command) : Survey :=
  cs.foldl step {}

/-! ### Placement -/

/-- Where the text starts. -/
def textBase (s : Survey) : Nat := (s.textStart.getD 0).toNat

/-- How many bytes the stack has. -/
def stackBytes (s : Survey) : Nat := (s.stackSize.getD 4096).toNat

/-- Where the stack starts, in a memory of the given size. -/
def stackBase (s : Survey) (memory : Nat) : Nat :=
  match s.stackStart with
  | some a => a.toNat
  | none => memory - s.stackBytes

/-- Where the data starts. -/
def dataBase (s : Survey) (memory : Nat) : Nat := s.stackBase memory - s.dataSize

/-- What is wrong with the start of the text. -/
def textErrors (s : Survey) (memory : Nat) : List LayoutError :=
  if memory ≤ s.textBase then [.textOutside s.textBase memory] else []

/-- What is wrong with the place of the stack. -/
def stackErrors (s : Survey) (memory : Nat) : List LayoutError :=
  let start := s.stackBase memory
  let stop := start + s.stackBytes
  if memory ≤ start then [.stackOutside start memory]
  else if memory < stop then [.stackEnd start stop memory]
  else []

/-- What is wrong with the place of the data and with the end of the text.  The latter is looked at
only if nothing else is wrong. -/
def dataErrors (s : Survey) (memory : Nat) : List LayoutError :=
  let stop := s.textBase + s.textSize
  if s.stackBase memory < s.dataSize then [.dataTooLarge s.dataSize (s.stackBase memory)]
  else if (s.textErrors memory).isEmpty && (s.stackErrors memory).isEmpty &&
      s.dataBase memory < stop then
    [.textOverlap s.textBase stop (s.dataBase memory)]
  else []

/-- Why the segments do not fit into a memory of the given size. -/
def placementErrors (s : Survey) (memory : Nat) : List LayoutError :=
  if s.stackStart.isNone && memory < s.stackBytes then [.stackTooLarge s.stackBytes memory]
  else s.textErrors memory ++ s.stackErrors memory ++ s.dataErrors memory

/-- The address or the number that a name stands for. -/
def resolve (s : Survey) (memory : Nat) (d : Definition) : Nat :=
  match d.origin with
  | .text => d.value + s.textBase
  | .data => d.value + s.dataBase memory
  | .absolute => d.value

/-- The values of the names. -/
def symbols (s : Survey) (memory : Nat) : SymbolTable :=
  s.definitions.toList.map fun d => (d.name, (s.resolve memory d).toUInt32)

end Survey

/-! ### The layout -/

/-- Addresses for the segments of a program, and the values of its names. -/
structure Layout where
  /-- Where the text starts. -/
  textStart : UInt32
  /-- Where the data starts. -/
  dataStart : UInt32
  /-- Where the stack starts. -/
  stackStart : UInt32
  /-- How many bytes the stack has. -/
  stackSize : UInt32
  /-- The values of the names. -/
  symbols : SymbolTable
  deriving DecidableEq, Repr

namespace Layout

/-- The layout that a walk leads to. -/
def ofSurvey (s : Survey) (memory : Nat) : Layout where
  textStart := s.textBase.toUInt32
  dataStart := (s.dataBase memory).toUInt32
  stackStart := (s.stackBase memory).toUInt32
  stackSize := s.stackBytes.toUInt32
  symbols := s.symbols memory

/-- The layout of a program in a memory of the given size. -/
def ofCommands (memory : MemorySize) (cs : List Command) :
    Except (List (Diagnostic LayoutError)) Layout :=
  let s := Survey.ofCommands cs
  let placement := (s.placementErrors memory.bytes).map fun e => ⟨0, e⟩
  match s.problems.toList ++ placement with
  | [] => .ok (ofSurvey s memory.bytes)
  | problems => .error problems

end Layout

end WordMachine
