/-
**The two tools.**

One tool assembles a source file and prints its listing; the other assembles it, runs it and prints
how the run ended.  What a tool does depends on its arguments and on the file that they name, and is
given here as a function of the two.

Main definitions:

* `ToolResult` — what a tool prints, and its exit code;
* `listTool` — assembling and listing;
* `runTool` — assembling and running.
-/

import WordMachine.CommandLine.Options
import WordMachine.Assembly.Listing
import WordMachine.Emulator.Run
import WordMachine.Memory.Dump

set_option relaxedAutoImplicit false
set_option autoImplicit false

namespace WordMachine

/-- What a tool prints, and its exit code. -/
structure ToolResult where
  /-- The exit code: one for bad arguments, two for any other failure. -/
  exitCode : Nat := 0
  /-- What goes to standard output. -/
  output : Text := []
  /-- What goes to standard error. -/
  errors : String := ""
  deriving DecidableEq, Repr

namespace ToolResult

/-- A failure because of the arguments. -/
def badArguments (message : String) : ToolResult :=
  { exitCode := 1, errors := message ++ "\n" }

/-- Any other failure, after some output. -/
def failure (output : Text) (message : String) : ToolResult :=
  { exitCode := 2, output, errors := "error: " ++ message ++ "\n" }

end ToolResult

/-- Why a source file gives no program. -/
inductive FileError
  /-- The file cannot be opened. -/
  | unreadable (path : Text)
  /-- The text of the file is no program. -/
  | assembly (cause : AssemblyError)
  deriving DecidableEq, Repr

/-- The wording of a diagnostic. -/
def FileError.message : FileError → String
  | unreadable path => Text.message s!"could not open input file: {path.str}"
  | assembly cause => cause.message

/-- Assembles the file at a path, if there is one. -/
def Program.assembleFile (files : Text → Option Text) (memory : MemorySize) (path : Text) :
    Except FileError Program :=
  match files path with
  | none => .error (.unreadable path)
  | some source => (Program.assemble memory source).mapError .assembly

/-! ### Listing -/

/-- The tool that assembles a file and prints its listing. -/
def listTool (tool : String) (files : Text → Option Text) : List Text → ToolResult
  | [] => .badArguments s!"usage: {tool} <input.asm> [--memory SIZE]"
  | path :: flags =>
    match ({ path } : AssembleOptions).parseFlags flags with
    | .error e => .badArguments e.message
    | .ok o =>
      match Program.assembleFile files o.memory o.path with
      | .error e => .failure [] e.message
      | .ok p => { output := p.print }

/-! ### Running -/

/-- How the run ended. -/
def printResult (r : RunResult) (pc : UInt32) : Text :=
  "Program finished (".toList ++ r.termination.name.toList ++ ") after ".toList ++
    Numeral.decimal r.steps ++ " step(s). Final PC = 0x".toList ++
    Numeral.hexLower 8 pc.toNat ++ ['\n']

/-- What the program wrote, under a heading and with a newline at the end. -/
def printOutput (out : Text) : Text :=
  if out.isEmpty then []
  else "\nOutput:\n".toList ++ out ++ if out.getLast? = some '\n' then [] else ['\n']

/-- What is printed after a run that ended. -/
def printRun (o : RunOptions) (m : Machine) (r : RunResult) : Text :=
  printResult r m.pc ++ printOutput (Text.ofBytes m.console.output.toList) ++ ['\n'] ++
    (if o.dumpRegisters then m.registers.print else []) ++
    match o.dumpMemory with
    | some range => m.memory.dump range.start range.length
    | none => []

/-- What the tool prints after a run. -/
def reportRun (o : RunOptions) (r : Run) : ToolResult :=
  let notes := r.notes.toList.flatten
  match r.result with
  | .ok result => { output := notes ++ printRun o r.emulator.machine result }
  | .error e => .failure notes e.message

/-- Runs as the options say; without a limit, for at most `budget` instructions. -/
def RunOptions.run (o : RunOptions) (budget : Nat) (e : Emulator) : Option Run :=
  if o.trace then e.traceUpTo budget o.maxSteps else e.runUpTo budget o.maxSteps

/-- The arguments of the tool that runs programs. -/
def runUsage (tool : String) : String :=
  s!"usage: {tool} <input.asm> [--memory SIZE] [--max-steps N] [--trace]" ++
    " [--dump-regs] [--dump-memory ADDR LEN] [--input TEXT]"

/-- The tool that assembles a file and runs the program.  A run without a limit that takes more than
`budget` instructions gives no result. -/
def runTool (tool : String) (budget : Nat) (files : Text → Option Text) :
    List Text → Option ToolResult
  | [] => some (.badArguments (runUsage tool))
  | path :: flags =>
    match RunOptions.parse (path :: flags) with
    | .error e => some (.badArguments ("error: " ++ e.message))
    | .ok o =>
      match Program.assembleFile files o.memory o.path with
      | .error e => some (.failure [] e.message)
      | .ok p =>
        match (Emulator.ofSize o.memory).load p.toImage with
        | (_, some e) => some (.failure [] e.message)
        | (e, none) => (o.run budget (e.pushInput o.input.toBytes)).map (reportRun o)

end WordMachine
