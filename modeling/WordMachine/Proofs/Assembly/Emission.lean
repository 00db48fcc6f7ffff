/-
**What the second walk emits.**

The second walk keeps a section of its own and takes the number of data bytes from the bytes that it
has emitted.  `Emission.Emitted` lists what a step without a mistake appends: the word of an
instruction with its line, and as many bytes of data as the command stands for.

Main definitions:

* `Emission.Emitted` — everything that a step without a mistake does.

Main results:

* `Emission.emitted_of_step` — a step without a mistake does what `Emission.Emitted` says;
* `Emission.current_ofCommands` — the section after a walk, also after mistakes;
* `Emission.text_ofCommands`, `Emission.lines_ofCommands` — **the text is the list of the words of
  the instructions**, in their order, and each keeps its line.
-/

import WordMachine.Assembly.Program
import WordMachine.Proofs.Except
import WordMachine.Proofs.Assembly.Commands
import Mathlib.Data.List.Induction

set_option relaxedAutoImplicit false
set_option autoImplicit false

namespace WordMachine

namespace Emission

variable {symbols : SymbolTable} {e f : Emission} {c : Command} {cs ds : List Command}

/-! ### One step -/

/-- **Everything that a step without a mistake does.** -/
structure Emitted (symbols : SymbolTable) (e : Emission) (c : Command) (f : Emission) : Prop where
  current : f.current = e.current.after c
  text : f.text.toList.map Except.ok = e.text.toList.map Except.ok ++ (c.word? symbols).toList
  lines : f.lines.toList = e.lines.toList ++ if c.isInstruction then [c.line] else []
  data : f.data.size = e.data.size + c.dataBytes e.current e.data.size
  problems : f.problems = e.problems

/-- A report is a mistake. -/
theorem report_problems_ne (e : Emission) (line : Nat) (cause : EmissionError) :
    (e.report line cause).problems ≠ #[] := by
  simp [report]

/-- The bytes of a data directive are as many as its operands promise. -/
theorem length_dataBytes {offset : Nat} {k : DataKind} {bytes : List UInt8}
    (hk : c.operation = .data k) (h : dataBytes symbols offset k c = .ok bytes) :
    bytes.length = c.dataBytes .data offset := by
  obtain ⟨d, hd, hbytes⟩ := Except.bind_eq_ok.1 h
  have hoperands : Datum.ofOperands k c.a c.b = .ok d := Except.mapError_eq_ok.1 hd
  rw [Datum.length_bytes (Except.mapError_eq_ok.1 hbytes)]
  simp [Command.dataBytes, hk, hoperands]

theorem emitted_addData {k : DataKind} (hk : c.operation = .data k)
    (h : (addData symbols e c k).problems = #[]) :
    Emitted symbols e c (addData symbols e c k) := by
  have hafter : e.current.after c = e.current := Section.after_of_ne (by simp [hk])
  have hword : c.word? symbols = none := Command.word?_of_ne (by simp [hk])
  have hinstruction : c.isInstruction = false := Command.isInstruction_of_ne (by simp [hk])
  unfold addData at h ⊢
  rcases e.current.eq_text_or_eq_data with hc | hc
  · simp only [hc]
    refine ⟨hafter.symm, ?_, ?_, ?_, rfl⟩
    · simp [hword]
    · simp [hinstruction]
    · simp [Command.dataBytes, hc]
  · simp only [hc] at h ⊢
    cases hbytes : dataBytes symbols e.data.size k c with
    | error cause =>
        simp only [hbytes] at h
        exact absurd h (report_problems_ne e c.line cause)
    | ok bytes =>
        refine ⟨?_, ?_, ?_, ?_, rfl⟩
        · rw [hafter, hc]
        · simp [hword]
        · simp [hinstruction]
        · have hsize : (e.data ++ bytes).size = e.data.size + bytes.length := by
            simp [← Array.length_toList]
          rw [hc, ← length_dataBytes hk hbytes, ← hsize]

theorem emitted_addInstruction {mnemonic : Text} (hop : c.operation = .instruction mnemonic)
    (h : (addInstruction symbols e c mnemonic).problems = #[]) :
    Emitted symbols e c (addInstruction symbols e c mnemonic) := by
  unfold addInstruction at h ⊢
  cases hw : Instruction.encodeNamed symbols mnemonic c.a c.b with
  | error cause =>
      simp only [hw] at h
      exact absurd h (report_problems_ne e c.line (.instruction cause))
  | ok w =>
      refine ⟨?_, ?_, ?_, ?_, rfl⟩
      · simp [Section.after, hop]
      · simp [Command.word?, hop, hw]
      · simp [Command.isInstruction, hop]
      · simp [Command.dataBytes, hop]

/-- A command that is neither an instruction nor a data directive appends nothing. -/
theorem emitted_of_silent (hcurrent : f.current = e.current.after c) (htext : f.text = e.text)
    (hlines : f.lines = e.lines) (hdata : f.data = e.data) (hproblems : f.problems = e.problems)
    (hinstruction : ∀ mnemonic, c.operation ≠ .instruction mnemonic)
    (hdirective : ∀ k, c.operation ≠ .data k) : Emitted symbols e c f := by
  refine ⟨hcurrent, ?_, ?_, ?_, hproblems⟩
  · rw [htext, Command.word?_of_ne hinstruction]
    exact (List.append_nil _).symm
  · rw [hlines, Command.isInstruction_of_ne hinstruction]
    exact (List.append_nil _).symm
  · rw [hdata, Command.dataBytes_of_ne hdirective, Nat.add_zero]

/-- **A step without a mistake does what it should**, whatever the command. -/
theorem emitted_of_step (h : (step symbols e c).problems = #[]) :
    Emitted symbols e c (step symbols e c) := by
  unfold step at h ⊢
  cases hop : c.operation with
  | data k =>
      simp only [hop] at h
      exact emitted_addData hop h
  | instruction mnemonic =>
      simp only [hop] at h
      exact emitted_addInstruction hop h
  | enter | blank | equate | setting | macroStart | macroEnd =>
      refine emitted_of_silent ?_ rfl rfl rfl rfl ?_ ?_
      · simp [Section.after, hop]
      · simp [hop]
      · simp [hop]

/-! ### A walk -/

theorem ofCommands_concat (symbols : SymbolTable) (cs : List Command) (c : Command) :
    ofCommands symbols (cs ++ [c]) = step symbols (ofCommands symbols cs) c := by
  simp [ofCommands]

/-- A mistake does not change the section. -/
theorem current_step (symbols : SymbolTable) (e : Emission) (c : Command) :
    (step symbols e c).current = e.current.after c := by
  unfold step Section.after
  cases hop : c.operation with
  | enter target => rfl
  | data k =>
      simp only [addData]
      split
      · rfl
      · split <;> rfl
  | instruction mnemonic =>
      simp only [addInstruction]
      split <;> rfl
  | blank | equate | setting | macroStart | macroEnd => rfl

/-- The section after a walk is the one in force, whatever mistakes there were. -/
theorem current_ofCommands (symbols : SymbolTable) (cs : List Command) :
    (ofCommands symbols cs).current = Section.inForce cs := by
  induction cs using List.reverseRecOn with
  | nil => rfl
  | append_singleton cs c ih =>
      rw [ofCommands_concat, current_step, ih, Section.inForce_concat]

/-! ### A walk without mistakes -/

/-- The last step of a walk without mistakes. -/
theorem emitted_of_concat (h : (ofCommands symbols (cs ++ [c])).problems = #[]) :
    Emitted symbols (ofCommands symbols cs) c (ofCommands symbols (cs ++ [c])) := by
  rw [ofCommands_concat] at h ⊢
  exact emitted_of_step h

/-- Mistakes are never forgotten. -/
theorem problems_of_append (h : (ofCommands symbols (cs ++ ds)).problems = #[]) :
    (ofCommands symbols cs).problems = #[] := by
  induction ds using List.reverseRecOn with
  | nil => rwa [List.append_nil] at h
  | append_singleton ds d ih =>
      rw [← List.append_assoc] at h
      exact ih ((emitted_of_concat h).problems ▸ h)

/-- **The text of a walk without mistakes is the list of the words of its instructions.** -/
theorem text_ofCommands (h : (ofCommands symbols cs).problems = #[]) :
    (ofCommands symbols cs).text.toList.map Except.ok = cs.filterMap (Command.word? symbols) := by
  induction cs using List.reverseRecOn with
  | nil => rfl
  | append_singleton cs c ih =>
      rw [(emitted_of_concat h).text, ih (problems_of_append h), List.filterMap_append]
      cases hw : c.word? symbols with
      | none => simp [hw]
      | some w => simp [hw]

/-- The text has one word for each instruction. -/
theorem size_text_ofCommands (h : (ofCommands symbols cs).problems = #[]) :
    (ofCommands symbols cs).text.size = cs.countP Command.isInstruction := by
  have htext := congrArg List.length (text_ofCommands h)
  rw [List.length_map, Array.length_toList, List.length_filterMap_eq_countP] at htext
  simpa only [Command.isSome_word?] using htext

/-- Every word of the text has the line of its instruction. -/
theorem lines_ofCommands (h : (ofCommands symbols cs).problems = #[]) :
    (ofCommands symbols cs).lines.toList = (cs.filter Command.isInstruction).map Command.line := by
  induction cs using List.reverseRecOn with
  | nil => rfl
  | append_singleton cs c ih =>
      rw [(emitted_of_concat h).lines, ih (problems_of_append h), List.filter_append]
      cases hc : c.isInstruction with
      | false => simp [hc]
      | true => simp [hc]

end Emission

end WordMachine
