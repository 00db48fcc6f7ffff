/-
**Tracing a run.**

The tool that runs programs can be told to show each instruction before it is executed.  The flag
for that changes nothing else: the arguments are read in the same way, the same program is assembled
and loaded, its run is the same run, and what is printed after it or reported about a failure is the
same.  In front of the output stands one note for each step that the run tried, on the emulator as
it was just before that step.

Main definitions:

* `RunOptions.Untraced` — arguments that do not ask for a trace;
* `RunOptions.Starts` — the tool comes to run a program;
* `Emulator.IsNote` — what a note on an emulator says.

Main results:

* `RunOptions.parseFlags_traced` — the flag for a trace changes nothing about the other options;
* `RunOptions.run_traced` — a traced run is the run with its notes;
* `runTool_traced` — **the tool does the same with a trace**.
-/

import WordMachine.CommandLine.Tools
import WordMachine.Proofs.Emulator.Cuts
import WordMachine.Proofs.Emulator.Loading

set_option relaxedAutoImplicit false
set_option autoImplicit false

namespace WordMachine

/-! ### Options -/

namespace RunOptions

variable {o : RunOptions} {path : Text} {flags : List Text} {budget : Nat} {e : Emulator}

/-- The same options, with a trace. -/
def traced (o : RunOptions) : RunOptions := { o with trace := true }

/-- The arguments **do not ask for a trace**.  A value that looks like the flag for it is none. -/
def Untraced (args : List Text) : Prop :=
  ∀ o, parse args = .ok o → o.trace = false

/-- **The flag for a trace changes nothing about the other options**, whether they can be read or
not. -/
theorem parseFlags_traced (o : RunOptions) (flags : List Text) :
    o.traced.parseFlags flags = (o.parseFlags flags).map traced := by
  fun_induction parseFlags o flags with
  | case1 o => rfl
  | case2 o flag rest hname ih =>
      simp only [parseFlags, hname]
      exact ih
  | case3 o flag rest hname ih =>
      simp only [parseFlags, hname]
      exact ih
  | case4 o flag value rest hname ih =>
      simp only [parseFlags, hname]
      cases readSize value with
      | error cause => rfl
      | ok memory => exact ih memory
  | case5 o flag value rest hname ih =>
      simp only [parseFlags, hname]
      cases readCount flag value with
      | error cause => rfl
      | ok n => exact ih n
  | case6 o flag start length rest hname ih =>
      simp only [parseFlags, hname]
      cases readCount flag start with
      | error cause => rfl
      | ok start =>
          cases readCount flag length with
          | error cause => rfl
          | ok length => exact ih start length
  | case7 o flag input rest hname ih =>
      simp only [parseFlags, hname]
      exact ih
  | case8 o flag rest f htrace hregisters hname hmemory hsteps hdump hinput =>
      -- The values are missing with a trace as well.
      simp only [parseFlags, hname]
      rfl
  | case9 o flag rest hname =>
      simp only [parseFlags, hname]
      rfl

/-- The flag for a trace right after the path. -/
theorem parse_traced (path : Text) (flags : List Text) :
    parse (path :: OptionFlag.trace.name :: flags) = (parse (path :: flags)).map traced := by
  have hname := OptionFlag.ofName?_name .trace
  rw [parse, parse, parseFlags.eq_2 _ _ _ hname]
  exact parseFlags_traced { path } flags

/-! ### Runs -/

/-- The tool **comes to run** an emulator: the arguments are options, the file that they name is
assembled, and the program is loaded and has its input. -/
def Starts (files : Text → Option Text) (args : List Text) (o : RunOptions) (e : Emulator) : Prop :=
  parse args = .ok o ∧ ∃ p loaded, Program.assembleFile files o.memory o.path = .ok p ∧
    (Emulator.ofSize o.memory).load p.toImage = (loaded, none) ∧
    e = loaded.pushInput o.input.toBytes

theorem run_of_untraced (h : o.trace = false) (budget : Nat) (e : Emulator) :
    o.run budget e = e.runUpTo budget o.maxSteps := by
  rw [RunOptions.run, h, if_neg Bool.false_ne_true]

/-- **A traced run is the run with its notes**, and is reported in the same way. -/
theorem run_traced {run : Run} (huntraced : o.trace = false) (h : o.run budget e = some run) :
    ∃ es, run.HasTrail e es ∧
      (o.traced.run budget e).map (reportRun o.traced) =
        some { reportRun o run with
          output := es.flatMap Emulator.note ++ (reportRun o run).output } := by
  rw [run_of_untraced huntraced] at h
  obtain ⟨hnotes, es, htrail, htrace⟩ := Emulator.traceUpTo_of_runUpTo h
  have htraced : o.traced.run budget e = e.traceUpTo budget o.maxSteps := if_pos rfl
  refine ⟨es, htrail, ?_⟩
  rw [htraced, htrace]
  obtain ⟨notes, emulator, result⟩ := run
  obtain rfl : notes = #[] := hnotes
  cases result with
  | ok r => simp [reportRun, List.flatMap, printRun, traced]
  | error r => simp [reportRun, List.flatMap, ToolResult.failure]

end RunOptions

/-- What a note on an emulator says: the program counter, and the instruction there as assembly
text.  There is none when its word is not wholly inside memory. -/
structure Emulator.IsNote (e : Emulator) (line : Text) : Prop where
  inside : ∀ w, e.machine.fetch = .ok w → line = "PC: 0x".toList ++
    Numeral.hexLower 8 e.machine.pc.toNat ++ "  ".toList ++ disassemble w ++ ['\n']
  outside : ∀ cause, e.machine.fetch = .error cause → line = "PC: 0x".toList ++
    Numeral.hexLower 8 e.machine.pc.toNat ++ "  <pc ".toList ++
    Numeral.word e.machine.pc.toNat ++ " outside memory>".toList ++ ['\n']

theorem Emulator.isNote_note (e : Emulator) : e.IsNote e.note where
  inside := by
    intro w hfetch
    have hblanks : "  ".toList = [' ', ' '] := rfl
    unfold note
    simp only [disassembleCurrent, current?, hfetch, Except.toOption, hblanks]
  outside := by
    intro cause hfetch
    have hblanks : "  <pc ".toList = [' ', ' '] ++ "<pc ".toList := rfl
    unfold note
    simp only [disassembleCurrent, current?, hfetch, Except.toOption, hblanks, List.append_assoc]

/-- The emulator after a `HALT`. -/
def Emulator.afterHalt (e : Emulator) : Emulator :=
  { e with
    machine := { e.machine.setPc (e.machine.pc + 4) with halted := true }
    status := .halted }

/-- A ready emulator in front of a `HALT` halts, also on the last step that it is allowed. -/
theorem Emulator.run_of_halt {e : Emulator} (hready : e.status = .ready)
    (hfetch : e.machine.fetch = .ok 0xFF000000) (n : Nat) :
    e.run (n + 1) = { emulator := e.afterHalt, result := .ok ⟨.halted, 1⟩ } := by
  have hexec : Exec.instruction { opcode := .halt } (e.machine.setPc (e.machine.pc + 4)) =
      .ok () e.afterHalt.machine := rfl
  have hstep : e.step = (e.afterHalt, none) :=
    (step_of_fetch hready hfetch).trans (executeReady_of_ok rfl hexec)
  have hend : e.afterHalt.termination? = some .halted := if_pos rfl
  rw [run_of_step (termination?_of_step hstep) hstep, run, runFrom_of_termination hend]
  rfl

/-! ### The tool -/

section Tool

variable {tool : String} {budget : Nat} {files : Text → Option Text} {path : Text}
  {flags : List Text} {o : RunOptions} {e : Emulator}

open RunOptions

/-- The tool does what the run that it comes to leads to. -/
theorem runTool_of_starts (h : Starts files (path :: flags) o e) :
    runTool tool budget files (path :: flags) = (o.run budget e).map (reportRun o) := by
  obtain ⟨hparse, p, loaded, hassemble, hload, rfl⟩ := h
  simp only [runTool, hparse, hassemble, hload]

/-- With a trace the tool comes to run the same emulator. -/
theorem starts_traced (h : Starts files (path :: flags) o e) :
    Starts files (path :: OptionFlag.trace.name :: flags) o.traced e := by
  obtain ⟨hparse, hrest⟩ := h
  refine ⟨?_, hrest⟩
  rw [parse_traced, hparse]
  rfl

/-- When the tool does not come to run anything, it says the same with a trace. -/
theorem runTool_traced_of_not_starts (h : ∀ o e, ¬ Starts files (path :: flags) o e) :
    runTool tool budget files (path :: OptionFlag.trace.name :: flags) =
      runTool tool budget files (path :: flags) := by
  cases hparse : RunOptions.parse (path :: flags) with
  | error cause => simp only [runTool, parse_traced, hparse, Except.map]
  | ok o =>
      have hmemory : o.traced.memory = o.memory := rfl
      have hpath : o.traced.path = o.path := rfl
      cases hassemble : Program.assembleFile files o.memory o.path with
      | error cause =>
          simp only [runTool, parse_traced, hparse, Except.map, hmemory, hpath, hassemble]
      | ok p =>
          rcases hload : (Emulator.ofSize o.memory).load p.toImage with ⟨loaded, _ | cause⟩
          · exact absurd ⟨hparse, p, loaded, hassemble, hload, rfl⟩ (h o _)
          · simp only [runTool, parse_traced, hparse, Except.map, hmemory, hpath, hassemble, hload]

/-- **The tool does the same with a trace.**  When it comes to an end with arguments that do not ask
for a trace, it comes to an end with a trace as well, with the same exit code and the same errors.
In front of its output stand notes on some emulators: on the trail of the run, if the tool came to
run an emulator, and on none otherwise. -/
theorem runTool_traced {result : ToolResult} (huntraced : Untraced (path :: flags))
    (h : runTool tool budget files (path :: flags) = some result) :
    ∃ es : List Emulator,
      runTool tool budget files (path :: OptionFlag.trace.name :: flags) =
        some { result with output := es.flatMap Emulator.note ++ result.output } ∧
      (∀ e ∈ es, e.IsNote e.note) ∧
      ((∃ o e run, Starts files (path :: flags) o e ∧ o.run budget e = some run ∧
          result = reportRun o run ∧ run.HasTrail e es) ∨
        (es = [] ∧ ∀ o e, ¬ Starts files (path :: flags) o e)) := by
  by_cases hstarts : ∃ o e, Starts files (path :: flags) o e
  · obtain ⟨o, e, hstarts⟩ := hstarts
    rw [runTool_of_starts hstarts] at h
    obtain ⟨run, hrun, rfl⟩ := Option.map_eq_some_iff.1 h
    obtain ⟨es, htrail, htraced⟩ := run_traced (huntraced o hstarts.1) hrun
    refine ⟨es, ?_, fun e _ => e.isNote_note, .inl ⟨o, e, run, hstarts, hrun, rfl, htrail⟩⟩
    rw [runTool_of_starts (starts_traced hstarts), htraced]
  · simp only [not_exists] at hstarts
    refine ⟨[], ?_, fun e _ => e.isNote_note, .inr ⟨rfl, hstarts⟩⟩
    rw [runTool_traced_of_not_starts hstarts, h]
    rfl

/-- The program of a file that holds one `HALT`. -/
def haltProgram : Program where
  text := [0xFF000000]
  data := []
  textStart := 0
  dataStart := 0xF000
  stackStart := 0xF000
  lines := [1]
  stackSize := 4096
  symbols := []

/-- An emulator that has loaded this program, with an input that looks like the flag for a trace. -/
def haltEmulator : Emulator :=
  Emulator.pushInput
    { machine := Emulator.boot (Emulator.ofSize .standard).machine haltProgram.toImage }
    (Text.toBytes "--trace".toList)

theorem starts_halt (path : Text) :
    Starts (fun _ => some "HALT".toList) [path, "--input".toList, "--trace".toList]
      { path, input := "--trace".toList } haltEmulator := by
  have hassemble : Program.assemble .standard "HALT".toList = .ok haltProgram := by decide +kernel
  have hfits : (Emulator.ofSize .standard).fits haltProgram.toImage = true := by
    have hsize : (Emulator.ofSize .standard).machine.memory.size = 65536 := Memory.size_zeros 65536
    rw [Emulator.fits_iff, hsize]
    decide
  exact ⟨rfl, haltProgram, _, Except.mapError_eq_ok.2 hassemble, Emulator.load_of_fits hfits, rfl⟩

theorem fetch_haltEmulator : haltEmulator.machine.fetch = .ok 0xFF000000 := by
  have hrange : (Emulator.ofSize .standard).machine.memory.clear.InRange 0 4 := by
    have hsize : (Emulator.ofSize .standard).machine.memory.size = 65536 := Memory.size_zeros 65536
    rw [Memory.InRange, Memory.size_clear, hsize]
    decide
  exact Memory.read32_put hrange 0xFF000000

/-- A program that halts at once, and an input that looks like the flag. -/
theorem runTool_traced_halt :
    let files : Text → Option Text := fun _ => some "HALT".toList
    let path : Text := "halt.asm".toList
    let flags : List Text := ["--input".toList, "--trace".toList]
    Untraced (path :: flags) ∧ ∃ result, runTool "run" 1 files (path :: flags) = some result ∧
      ∃ es : List Emulator,
        runTool "run" 1 files (path :: OptionFlag.trace.name :: flags) =
          some { result with output := es.flatMap Emulator.note ++ result.output } ∧
        ∃ o e run, Starts files (path :: flags) o e ∧ result = reportRun o run ∧
          run.HasTrail e es := by
  intro files path flags
  have hstarts : Starts files (path :: flags) _ haltEmulator := starts_halt path
  have huntraced : Untraced (path :: flags) := by
    intro o ho
    obtain rfl := Except.ok.inj (hstarts.1.symm.trans ho)
    rfl
  have hrun : haltEmulator.run 1 = { emulator := _, result := .ok ⟨.halted, 1⟩ } :=
    Emulator.run_of_halt rfl fetch_haltEmulator 0
  have hended : ∀ k, (haltEmulator.run 1).result ≠ .ok ⟨.stepLimit, k⟩ := by
    intro k
    rw [hrun]
    simp
  have hfreely : haltEmulator.runUpTo 1 0 = some (haltEmulator.run 1) :=
    Emulator.runUpTo_zero_of_le hended (Nat.le_refl 1)
  have htool : runTool "run" 1 files (path :: flags) = _ := runTool_of_starts hstarts
  rw [run_of_untraced rfl, hfreely] at htool
  obtain ⟨es, htraced, _, ⟨o, e, run, hstarts', _, hresult, htrail⟩ | ⟨_, hnone⟩⟩ :=
    runTool_traced huntraced htool
  · exact ⟨huntraced, _, htool, es, htraced, o, e, run, hstarts', hresult, htrail⟩
  · exact absurd hstarts (hnone _ _)

end Tool

end WordMachine
