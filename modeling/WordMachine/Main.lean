/-
**The command line.**

The first argument chooses a tool, `asm` or `run`; the others are passed to it.  This module reads
the source file and writes what the tool prints, byte for byte.
-/

import WordMachine.CommandLine.Tools

set_option relaxedAutoImplicit false
set_option autoImplicit false

namespace WordMachine.Main

/-- The text of an argument. -/
def textOf (s : String) : Text := Text.ofBytes s.toUTF8.toList

/-- The bytes of a text. -/
def bytesOf (s : Text) : ByteArray := ⟨s.toBytes.toArray⟩

/-- The source file that the arguments name, if it can be read. -/
def readSource : List String → IO (Option Text)
  | [] => return none
  | path :: _ => do
    try
      let bytes ← IO.FS.readBinFile path
      return some (Text.ofBytes bytes.toList)
    catch _ => return none

/-- More instructions than any run can execute. -/
def budget : Nat := 2 ^ 62

/-- Writes what a tool prints. -/
def deliver (r : ToolResult) : IO UInt32 := do
  (← IO.getStdout).write (bytesOf r.output)
  (← IO.getStderr).write (bytesOf r.errors.toList)
  return r.exitCode.toUInt32

end WordMachine.Main

open WordMachine WordMachine.Main in
/-- Runs the tool that the first argument names. -/
def main : List String → IO UInt32
  | "asm" :: args => do
    let source ← readSource args
    deliver (listTool "asm" (fun _ => source) (args.map textOf))
  | "run" :: args => do
    let source ← readSource args
    match runTool "run" budget (fun _ => source) (args.map textOf) with
    | some r => deliver r
    | none => return 2
  | _ => deliver (.badArguments "usage: asm|run <input.asm> [flags]")
