/-
**Reading a source text.**

A source text is read successfully when every line is a command and the commands form passages
whose macros have different names; what comes out is the program that the passages describe.  One
direction follows the reader over the lines, each of which keeps it on the track of passages as long
as nothing is wrong.  The other one follows it over the passages.  A line that is no command stays
among the findings, whatever comes after it.

Main definitions:

* `Text.Reads` — the commands of the lines of a text.

Main results:

* `Source.parse_eq_ok_iff` — when a source text is read, and as what;
* `Source.mem_findings` — a line that is no command is reported;
* `Source.parse_lines` — **all of this together**.
-/

import WordMachine.Proofs.Source.Names
import WordMachine.Proofs.Source.Passages
import WordMachine.Proofs.Text.Lines
import WordMachine.Assembly.Program
import Mathlib.Data.List.Forall2

set_option relaxedAutoImplicit false
set_option autoImplicit false

namespace WordMachine

/-! ### The commands of the lines -/

namespace Text

/-- **The commands of the lines of a text**, which are numbered from one. -/
def Reads (s : Text) (cs : List Command) : Prop :=
  List.Forall₂ (fun line c => Command.parse line.2 line.1 = .ok c) (s.lines.zipIdx 1) cs

end Text

/-! ### Following the reader -/

namespace Reader

variable {r : Reader} {c : Command} {line : Text × Nat}

theorem step_of_ok (h : Command.parse line.2 line.1 = .ok c) (r : Reader) :
    r.step line = r.command c := by
  rw [step, h]

theorem step_of_error {cause : LineError} (h : Command.parse line.2 line.1 = .error cause)
    (r : Reader) : r.step line = r.report line.2 (.line cause) := by
  rw [step, h]

theorem foldl_step_eq {lines : List (Text × Nat)} {cs : List Command}
    (h : List.Forall₂ (fun line c => Command.parse line.2 line.1 = .ok c) lines cs) (r : Reader) :
    lines.foldl step r = cs.foldl command r := by
  induction h generalizing r with
  | nil => rfl
  | cons hc _ ih => rw [List.foldl_cons, List.foldl_cons, step_of_ok hc, ih]

/-- **As long as nothing is wrong, every line is a command and the reader stays on the track of
passages.** -/
theorem tracks_foldl (lines : List (Text × Nat)) (h : (lines.foldl step {}).problems = #[]) :
    ∃ cs, List.Forall₂ (fun line c => Command.parse line.2 line.1 = .ok c) lines cs ∧
      Tracks cs (lines.foldl step {}) := by
  induction lines using List.reverseRecOn with
  | nil => exact ⟨[], .nil, tracks_nil⟩
  | append_singleton lines line ih =>
      rw [List.foldl_append, List.foldl_cons, List.foldl_nil] at h ⊢
      have hbefore := problems_prefix_step (lines.foldl step {}) line
      rw [h, List.prefix_nil] at hbefore
      obtain ⟨cs, hcs, htracks⟩ := ih (by simpa using hbefore)
      cases hparse : Command.parse line.2 line.1 with
      | error cause =>
          rw [step_of_error hparse] at h
          simp [report] at h
      | ok c =>
          rw [step_of_ok hparse] at h ⊢
          exact ⟨cs ++ [c], List.rel_append hcs (.cons hparse .nil), tracks_command htracks h⟩

/-- What the reader has read when the last line of a text has been read. -/
def ofText (s : Text) : Reader :=
  (s.lines.zipIdx 1).foldl step {}

/-- **A line that is no command is reported, whatever stands around it.** -/
theorem mem_problems_foldl {lines : List (Text × Nat)} {cause : LineError} (hline : line ∈ lines)
    (hcause : Command.parse line.2 line.1 = .error cause) (r : Reader) :
    ⟨line.2, .line cause⟩ ∈ (lines.foldl step r).problems.toList := by
  obtain ⟨before, after, rfl⟩ := List.append_of_mem hline
  rw [List.foldl_append, List.foldl_cons, step_of_error hcause]
  have hreported := problems_prefix_foldl
    ((before.foldl step r).report line.2 (.line cause)) after
  refine hreported.subset ?_
  simp [report]

theorem findings_eq_nil_iff : r.findings = [] ↔ r.problems = #[] ∧ r.open? = none := by
  unfold findings
  cases r.open? <;> simp

/-- A reader between two passages is done with them. -/
theorem Tracks.of_open? {cs : List Command} (h : Tracks cs r) (hopen : r.open? = none) :
    ∃ ps : List Passage, cs = ps.flatMap Passage.commands ∧
      ((Source.ofPassages ps).macros.map Macro.key).Nodup ∧ r = ofPassages ps := by
  cases h with
  | @outside ps h => exact ⟨ps, rfl, h, rfl⟩
  | inside => exact nomatch hopen

end Reader

/-! ### Source programs -/

namespace Source

variable {s : Text} {p : Source}

theorem parse_eq (s : Text) : Source.parse s =
    match (Reader.ofText s).findings with
    | [] => .ok ⟨(Reader.ofText s).commands.toList, (Reader.ofText s).macros.toList⟩
    | problems => .error problems := rfl

theorem parse_of_findings (h : (Reader.ofText s).findings = []) :
    Source.parse s = .ok ⟨(Reader.ofText s).commands.toList, (Reader.ofText s).macros.toList⟩ := by
  rw [parse_eq, h]

theorem parse_of_findings_ne (h : (Reader.ofText s).findings ≠ []) :
    Source.parse s = .error (Reader.ofText s).findings := by
  rw [parse_eq]
  split
  · contradiction
  · rfl

/-- **When a source text is read, and as what.** -/
theorem parse_eq_ok_iff : Source.parse s = .ok p ↔
    ∃ ps : List Passage, s.Reads (ps.flatMap Passage.commands) ∧
      ((ofPassages ps).macros.map Macro.key).Nodup ∧ p = ofPassages ps := by
  constructor
  · intro h
    by_cases hfindings : (Reader.ofText s).findings = []
    · obtain ⟨hproblems, hopen⟩ := Reader.findings_eq_nil_iff.1 hfindings
      obtain ⟨cs, hreads, htracks⟩ := Reader.tracks_foldl _ hproblems
      obtain ⟨ps, rfl, hnames, hreader⟩ := htracks.of_open? hopen
      rw [parse_of_findings hfindings, Reader.ofText, hreader] at h
      cases h
      exact ⟨ps, hreads, hnames, rfl⟩
    · rw [parse_of_findings_ne hfindings] at h
      cases h
  · rintro ⟨ps, hreads, hnames, rfl⟩
    have hreader : Reader.ofText s = Reader.ofPassages ps := by
      rw [Reader.ofText, Reader.foldl_step_eq hreads, Reader.foldl_command_passages hnames]
    rw [parse_of_findings (by rw [hreader]; rfl), hreader]
    rfl

/-- The commands of a text have the numbers of its lines. -/
theorem map_line_of_reads {cs : List Command} (h : s.Reads cs) :
    cs.map Command.line = List.range' 1 s.lines.length := by
  have hnumbers : List.Forall₂ (fun line c => line.2 = c.line) (s.lines.zipIdx 1) cs :=
    h.imp fun line c hc => (Command.line_of_parse hc).symm
  have hmap : (s.lines.zipIdx 1).map Prod.snd = cs.map Command.line := by
    rwa [← List.forall₂_eq_eq_eq, List.forall₂_map_left_iff, List.forall₂_map_right_iff]
  rw [← hmap, List.zipIdx_map_snd]

/-- **A line that is no command is among the findings.** -/
theorem mem_findings {i : Nat} {line : Text} {cause : LineError} (hline : s.lines[i]? = some line)
    (hcause : Command.parse (i + 1) line = .error cause) :
    ⟨i + 1, .line cause⟩ ∈ (Reader.ofText s).findings :=
  List.mem_append_left _ (Reader.mem_problems_foldl (Text.mem_zipIdx_lines hline) hcause {})

/-- **Reading a source text.**  It is split at its newlines.  It is read exactly when every line is
a command and the commands form passages whose macros have different names, as the program that
these passages describe; all commands have the numbers of their lines.  If it is not read, every
line that is no command is reported with its number. -/
theorem parse_lines (s : Text) :
    (∀ ls, s.SplitsInto ls ↔ ls = s.lines) ∧
    (∀ p, Source.parse s = .ok p ↔
      ∃ ps : List Passage, s.Reads (ps.flatMap Passage.commands) ∧
        ((ofPassages ps).macros.map Macro.key).Nodup ∧ p = ofPassages ps) ∧
    (∀ cs, s.Reads cs → cs.map Command.line = List.range' 1 s.lines.length) ∧
    ∀ problems, Source.parse s = .error problems →
      ∀ i line cause, s.lines[i]? = some line → Command.parse (i + 1) line = .error cause →
        ⟨i + 1, cause.message⟩ ∈ (AssemblyError.source problems).diagnostics := by
  refine ⟨fun ls => Text.splitsInto_iff, fun p => parse_eq_ok_iff, ?_, ?_⟩
  · intro cs h
    exact map_line_of_reads h
  · intro problems h i line cause hline hcause
    have hmem := mem_findings hline hcause
    rw [parse_of_findings_ne (List.ne_nil_of_mem hmem)] at h
    cases h
    exact List.mem_map.2 ⟨_, hmem, rfl⟩

end Source

end WordMachine
