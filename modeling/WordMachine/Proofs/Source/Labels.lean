/-
**Where the labels of a source text go.**

The commands of a source program, those in the bodies of its macros included, are the plain lines of
the text that say something.  The lines have different numbers, so that no other command has the
number of a line with a label.  The start of a macro has no label, but its end can have one: it is
lost.

Main definitions:

* `Source.allCommands` — the commands of a program and of its macros.

Main results:

* `Source.allCommands_perm` — which lines the commands are;
* `Source.filter_allCommands_of_label` — **the command of a line with a label**, unless it ends a
  macro;
* `Source.label_lost_labelledMacro` — a label that no command has.
-/

import WordMachine.Proofs.Source.Reading
import Mathlib.Data.List.Perm.Basic

set_option relaxedAutoImplicit false
set_option autoImplicit false

namespace WordMachine

variable {s l : Text} {cs : List Command} {c : Command} {ps : List Passage} {i : Nat}

/-! ### The command of a line -/

/-- The command of a line is among the commands of the text. -/
theorem Text.Reads.mem (h : s.Reads cs) (hline : s.lines[i]? = some l)
    (hparse : Command.parse (i + 1) l = .ok c) : c ∈ cs := by
  have hmem := mem_zipIdx_lines hline
  unfold Reads at h
  generalize s.lines.zipIdx 1 = lines at h hmem
  induction h with
  | nil => cases hmem
  | cons hc _ ih =>
      rcases List.mem_cons.1 hmem with rfl | hmem
      · rw [Except.ok.inj (hc.symm.trans hparse)]
        exact List.mem_cons_self
      · exact List.mem_cons_of_mem _ (ih hmem)

/-- Commands with different numbers: the number of one of them singles it out. -/
theorem Command.filter_line_perm (h : (cs.map Command.line).Nodup) (hc : c ∈ cs) :
    (cs.filter (·.line == c.line)).Perm [c] := by
  rw [List.perm_ext_iff_of_nodup (h.of_map.filter _) (List.nodup_singleton _)]
  intro d
  rw [List.mem_filter, List.mem_singleton, beq_iff_eq]
  constructor
  · rintro ⟨hd, hline⟩
    exact List.inj_on_of_nodup_map h hd hc hline
  · rintro rfl
    exact ⟨hc, rfl⟩

/-- The line says something, and is not one that starts or ends a macro. -/
def Command.stays (c : Command) : Bool :=
  c.operation.isPlain && c.speaks

theorem Command.filter_stays_of_plain (h : ∀ c ∈ cs, c.operation.isPlain) :
    cs.filter stays = kept cs := by
  refine List.filter_congr ?_
  intro c hc
  rw [stays, h c hc, Bool.true_and]

/-! ### The commands of passages -/

namespace Passage

theorem filter_stays_line (hc : c.operation.isPlain) :
    (line c hc).commands.filter Command.stays = Command.kept [c] := by
  refine Command.filter_stays_of_plain ?_
  simpa [commands] using hc

theorem filter_stays_block (b : MacroBlock) :
    (block b).commands.filter Command.stays = Command.kept b.body := by
  rw [← Command.filter_stays_of_plain b.plain]
  simp [commands, OpenBlock.commands, Command.stays, b.starts, b.stops]

/-- The start of a macro has no label. -/
theorem label_of_start {x : Passage} {name : Text} {parameters : List Text} (hc : c ∈ x.commands)
    (hstart : c.operation = .macroStart name parameters) : c.label = none := by
  cases x with
  | line d hd =>
      obtain rfl := List.mem_singleton.1 hc
      simp [hstart] at hd
  | block b =>
      simp only [commands, OpenBlock.commands, List.cons_append, List.mem_cons, List.mem_append,
        List.not_mem_nil, or_false] at hc
      rcases hc with rfl | hc | rfl
      · exact b.unlabelled
      · have hplain := b.plain c hc
        simp [hstart] at hplain
      · simp [b.stops] at hstart

/-- A line with a label stays, unless it ends a macro. -/
theorem stays_of_label {x : Passage} {label : Text} (hc : c ∈ x.commands)
    (hlabel : c.label = some label) : c.stays ↔ c.operation ≠ .macroEnd := by
  by_cases hplain : c.operation.isPlain
  · have hend : c.operation ≠ .macroEnd := by
      intro hend
      simp [hend] at hplain
    simp [Command.stays, Command.speaks, hplain, hlabel, hend]
  · obtain ⟨name, parameters, hstart⟩ | hend := Operation.not_isPlain hplain
    · rw [label_of_start hc hstart] at hlabel
      cases hlabel
    · simp [Command.stays, hend]

end Passage

namespace Source

/-- The commands of a source program: those outside macros, and those in the bodies of macros. -/
def allCommands (p : Source) : List Command :=
  p.commands ++ p.macros.flatMap Macro.body

/-- **The commands of a program are the lines that say something**, apart from those that start or
end a macro. -/
theorem allCommands_perm (ps : List Passage) :
    (ofPassages ps).allCommands.Perm ((ps.flatMap Passage.commands).filter Command.stays) := by
  induction ps with
  | nil => exact List.Perm.nil
  | cons x ps ih =>
      rw [List.flatMap_cons, List.filter_append]
      cases x with
      | line c hc =>
          have hcommands : (ofPassages (.line c hc :: ps)).allCommands =
              Command.kept [c] ++ (ofPassages ps).allCommands := List.append_assoc ..
          rw [Passage.filter_stays_line, hcommands]
          exact ih.append_left _
      | block b =>
          have hcommands : (ofPassages (.block b :: ps)).allCommands =
              (ofPassages ps).commands ++
                (Command.kept b.body ++ (ofPassages ps).macros.flatMap Macro.body) := rfl
          rw [Passage.filter_stays_block, hcommands]
          exact (List.perm_append_comm_assoc ..).trans (ih.append_left _)

/-- **The command of a line with a label** is the only one with its number, unless it ends a macro:
then there is no such command. -/
theorem filter_allCommands_of_label {p : Source} {label : Text} (h : Source.parse s = .ok p)
    (hline : s.lines[i]? = some l) (hparse : Command.parse (i + 1) l = .ok c)
    (hlabel : c.label = some label) :
    p.allCommands.filter (·.line == i + 1) = if c.operation = .macroEnd then [] else [c] := by
  obtain ⟨ps, hreads, -, rfl⟩ := parse_eq_ok_iff.1 h
  have hc : c ∈ ps.flatMap Passage.commands := hreads.mem hline hparse
  have hnumbers : ((ps.flatMap Passage.commands).map Command.line).Nodup := by
    rw [map_line_of_reads hreads]
    exact List.nodup_range'
  have hone := Command.filter_line_perm hnumbers hc
  rw [Command.line_of_parse hparse] at hone
  have hperm := (allCommands_perm ps).filter (·.line == i + 1)
  rw [List.filter_comm] at hperm
  have hstays := hperm.trans (hone.filter _)
  obtain ⟨x, -, hx⟩ := List.mem_flatMap.1 hc
  have hlimit := Passage.stays_of_label hx hlabel
  split_ifs with hend
  · rw [List.filter_cons_of_neg (by simp [hlimit, hend])] at hstays
    exact hstays.eq_nil
  · rw [List.filter_cons_of_pos (hlimit.2 hend)] at hstays
    exact List.perm_singleton.1 hstays

/-- A source with a label in the body of a macro, and one in front of its end. -/
def labelledMacro : Text :=
  ".macro m\nhere: INC AX\nfoo: .endmacro\nm\n".toList

theorem parse_labelledMacro : Source.parse labelledMacro = .ok
    ⟨[⟨4, none, .instruction ['M'], none, none⟩],
      [⟨['m'], [], [⟨2, some "here".toList, .instruction "INC".toList, some (.register .ax), none⟩],
        1⟩]⟩ := by
  decide +kernel

/-- The label in the body stays. -/
theorem label_kept_labelledMacro :
    ∃ p c, Source.parse labelledMacro = .ok p ∧
      labelledMacro.lines[1]? = some "here: INC AX".toList ∧
      Command.parse 2 "here: INC AX".toList = .ok c ∧ c.label = some "here".toList ∧
      p.allCommands.filter (·.line == 2) = [c] := by
  have hline : labelledMacro.lines[1]? = some "here: INC AX".toList := by decide +kernel
  have hparse : Command.parse 2 "here: INC AX".toList =
      .ok ⟨2, some "here".toList, .instruction "INC".toList, some (.register .ax), none⟩ := by
    decide +kernel
  exact ⟨_, _, parse_labelledMacro, hline, hparse, rfl,
    filter_allCommands_of_label parse_labelledMacro hline hparse rfl⟩

/-- **The label in front of the end is lost**: the source is read, and no command has the label. -/
theorem label_lost_labelledMacro :
    ∃ p c, Source.parse labelledMacro = .ok p ∧
      labelledMacro.lines[2]? = some "foo: .endmacro".toList ∧
      Command.parse 3 "foo: .endmacro".toList = .ok c ∧ c.label = some "foo".toList ∧
      ∀ d ∈ p.allCommands, d.line ≠ 3 ∧ d.label ≠ some "foo".toList := by
  have hline : labelledMacro.lines[2]? = some "foo: .endmacro".toList := by decide +kernel
  have hparse : Command.parse 3 "foo: .endmacro".toList =
      .ok ⟨3, some "foo".toList, .macroEnd, none, none⟩ := by
    decide +kernel
  refine ⟨_, _, parse_labelledMacro, hline, hparse, rfl, ?_⟩
  decide +kernel

end Source

end WordMachine
