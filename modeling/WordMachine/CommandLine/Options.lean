/-
**Options of the tools.**

Both tools take the path of a source file and then flags, some of which take values.  Flags may come
in any order and may be repeated; the last one of a kind counts.  The value of a flag is the next
argument, whatever it looks like.

Main definitions:

* `OptionError` — why arguments are no options;
* `OptionFlag`, `OptionFlag.ofName?` — the flags and their names;
* `RunOptions`, `RunOptions.parse` — the options of the tool that runs programs;
* `AssembleOptions`, `AssembleOptions.parse` — the options of the tool that lists programs.
-/

import WordMachine.MemorySize

set_option relaxedAutoImplicit false
set_option autoImplicit false

namespace WordMachine

/-- Why arguments are no options. -/
inductive OptionError
  /-- There is no path. -/
  | missingInput
  /-- A flag comes without its values. -/
  | missingValues (flag : Text) (count : Nat)
  /-- A value is not a number. -/
  | invalidValue (flag value : Text)
  /-- A value is no size of memory. -/
  | size (cause : SizeError)
  /-- There is no such flag. -/
  | unknownFlag (flag : Text)
  deriving DecidableEq, Repr

/-- The wording of a diagnostic. -/
def OptionError.message (e : OptionError) : String :=
  Text.message <| match e with
  | missingInput => "missing input file"
  | missingValues flag count =>
    s!"{flag.str} expects {(Numeral.decimal count).str} value(s)"
  | invalidValue flag value => s!"invalid value for {flag.str}: {value.str}"
  | size cause => cause.message
  | unknownFlag flag => s!"unknown flag: {flag.str}"

/-! ### Flags -/

/-- The flags of the tools. -/
inductive OptionFlag
  /-- The size of memory. -/
  | memory
  /-- The largest number of instructions. -/
  | maxSteps
  /-- A trace. -/
  | trace
  /-- A print of the registers. -/
  | dumpRegisters
  /-- A dump of memory. -/
  | dumpMemory
  /-- The input. -/
  | input
  deriving DecidableEq, Repr

namespace OptionFlag

/-- All flags. -/
def all : List OptionFlag :=
  [memory, maxSteps, trace, dumpRegisters, dumpMemory, input]

/-- The name of a flag. -/
def name : OptionFlag → Text
  | memory => "--memory".toList
  | maxSteps => "--max-steps".toList
  | trace => "--trace".toList
  | dumpRegisters => "--dump-regs".toList
  | dumpMemory => "--dump-memory".toList
  | input => "--input".toList

/-- How many values a flag takes. -/
def arity : OptionFlag → Nat
  | trace | dumpRegisters => 0
  | memory | maxSteps | input => 1
  | dumpMemory => 2

/-- The flag with the given name. -/
def ofName? (s : Text) : Option OptionFlag :=
  all.find? (·.name == s)

/-- The name of a flag leads back to it. -/
@[simp] theorem ofName?_name (f : OptionFlag) : ofName? f.name = some f := by
  cases f <;> decide

end OptionFlag

/-! ### Running -/

/-- A range of memory. -/
structure MemoryRange where
  /-- The first address. -/
  start : UInt32
  /-- The number of bytes. -/
  length : UInt64
  deriving DecidableEq, Repr

/-- The options of the tool that runs programs. -/
structure RunOptions where
  /-- The path of the source file. -/
  path : Text
  /-- The size of memory. -/
  memory : MemorySize := .standard
  /-- The largest number of instructions; zero stands for no limit. -/
  maxSteps : Nat := 0
  /-- Each instruction is shown before it is executed. -/
  trace : Bool := false
  /-- The registers are shown at the end. -/
  dumpRegisters : Bool := false
  /-- A range of memory is shown at the end. -/
  dumpMemory : Option MemoryRange := none
  /-- What the program can read. -/
  input : Text := []
  deriving DecidableEq, Repr

namespace RunOptions

/-- Reads the value of a flag for the size of memory. -/
def readSize (value : Text) : Except OptionError MemorySize :=
  (MemorySize.parse value).mapError .size

/-- Reads the value of a flag that takes an integer literal. -/
def readCount (flag value : Text) : Except OptionError UInt32 :=
  match Literal.integer value with
  | .value n => .ok n
  | _ => .error (.invalidValue flag value)

/-- Reads flags from left to right. -/
def parseFlags (o : RunOptions) : List Text → Except OptionError RunOptions
  | [] => .ok o
  | flag :: rest =>
    match OptionFlag.ofName? flag, rest with
    | some .trace, rest => { o with trace := true }.parseFlags rest
    | some .dumpRegisters, rest => { o with dumpRegisters := true }.parseFlags rest
    | some .memory, value :: rest => do
      let memory ← readSize value
      { o with memory }.parseFlags rest
    | some .maxSteps, value :: rest => do
      let n ← readCount flag value
      { o with maxSteps := n.toNat }.parseFlags rest
    | some .dumpMemory, start :: length :: rest => do
      let start ← readCount flag start
      let length ← readCount flag length
      { o with dumpMemory := some ⟨start, length.toUInt64⟩ }.parseFlags rest
    | some .input, input :: rest => { o with input }.parseFlags rest
    | some f, _ => .error (.missingValues flag f.arity)
    | none, _ => .error (.unknownFlag flag)

/-- Reads the arguments: the path, then flags. -/
def parse : List Text → Except OptionError RunOptions
  | [] => .error .missingInput
  | path :: flags => ({ path } : RunOptions).parseFlags flags

end RunOptions

/-! ### Listing -/

/-- The options of the tool that lists programs. -/
structure AssembleOptions where
  /-- The path of the source file. -/
  path : Text
  /-- The size of memory. -/
  memory : MemorySize := .standard
  deriving DecidableEq, Repr

/-- Why arguments are no options of the tool that lists programs. -/
inductive AssembleOptionError
  /-- The only flag comes without its value. -/
  | missingValue
  /-- A value is no size of memory. -/
  | size (cause : SizeError)
  /-- There is no such flag. -/
  | unknownFlag (flag : Text)
  deriving DecidableEq, Repr

/-- The wording of a diagnostic.  A flag that does not exist is not called an error. -/
def AssembleOptionError.message : AssembleOptionError → String
  | missingValue => "error: --memory expects a value"
  | size cause => s!"error: {cause.message}"
  | unknownFlag flag => s!"unknown flag: {flag.str}"

namespace AssembleOptions

/-- Reads flags from left to right. -/
def parseFlags (o : AssembleOptions) : List Text → Except AssembleOptionError AssembleOptions
  | [] => .ok o
  | flag :: rest =>
    if flag = OptionFlag.memory.name then
      match rest with
      | value :: rest => do
        let memory ← (MemorySize.parse value).mapError .size
        { o with memory }.parseFlags rest
      | [] => .error .missingValue
    else .error (.unknownFlag flag)

end AssembleOptions

end WordMachine
