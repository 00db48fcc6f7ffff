/-
**The lines of a text.**

Every newline ends a line.  What stands behind the last newline is a line too, unless it is empty.
So a text has its lines in one way, and lines that were written with a newline behind each are the
lines of what was written.

Main definitions:

* `Text.SplitsInto` — a text and its lines;
* `Text.ofLines` — lines with a newline behind each.

Main results:

* `Text.lines_append_newline` — the first line, and those behind it;
* `Text.splitsInto_iff` — **the lines of a text**;
* `Text.lines_ofLines` — lines that were written are read back.
-/

import WordMachine.Proofs.Text.Cutting

set_option relaxedAutoImplicit false
set_option autoImplicit false

namespace WordMachine.Text

variable {s t l : Text} {ls : List Text}

/-- **A text and its lines.**  Every line ends with a newline, except that the last one can also end
with the text; then it is not empty. -/
inductive SplitsInto : Text → List Text → Prop
  /-- No line. -/
  | nil : SplitsInto [] []
  /-- A line that ends with the text. -/
  | last {l : Text} (h : '\n' ∉ l) (hne : l ≠ []) : SplitsInto l [l]
  /-- A line that ends with a newline, and those after it. -/
  | line {l s : Text} {ls : List Text} (h : '\n' ∉ l) (hs : SplitsInto s ls) :
      SplitsInto (l ++ '\n' :: s) (l :: ls)

theorem lines_of_not_mem (h : '\n' ∉ l) (hne : l ≠ []) : l.lines = [l] := by
  cases l with
  | nil => exact absurd rfl hne
  | cons c l =>
      rw [lines, takeWhile_bne_eq_self h, List.dropWhile_eq_nil_iff.2 (bne_of_not_mem h)]
      simp [lines]

theorem lines_append_newline (h : '\n' ∉ l) : (l ++ '\n' :: s).lines = l :: s.lines := by
  cases hsplit : l ++ '\n' :: s with
  | nil => simp at hsplit
  | cons c cs =>
      rw [lines, ← hsplit, takeWhile_bne_append h, dropWhile_bne_append h]
      rfl

theorem splitsInto_lines (s : Text) : s.SplitsInto s.lines := by
  by_cases hnewline : '\n' ∈ s
  · obtain ⟨l, t, rfl, hl⟩ := List.eq_append_cons_of_mem hnewline
    rw [lines_append_newline hl]
    exact .line hl (splitsInto_lines t)
  · cases hs : s with
    | nil => exact (lines.eq_1 ▸ .nil : SplitsInto [] (lines []))
    | cons c cs =>
        have hne : s ≠ [] := by simp [hs]
        rw [← hs, lines_of_not_mem hnewline hne]
        exact .last hnewline hne
termination_by s.length

/-- **The lines of a text are the only ones that it splits into.** -/
theorem splitsInto_iff : s.SplitsInto ls ↔ ls = s.lines := by
  constructor
  · intro h
    induction h with
    | nil => simp [lines]
    | last h hne => exact (lines_of_not_mem h hne).symm
    | line h _ ih => rw [lines_append_newline h, ih]
  · rintro rfl
    exact splitsInto_lines s

theorem mem_zipIdx_lines {i : Nat} (h : s.lines[i]? = some l) : (l, i + 1) ∈ s.lines.zipIdx 1 := by
  rw [List.mem_zipIdx_iff_le_and_getElem?_sub]
  exact ⟨by omega, by simpa using h⟩

/-- Lines with a newline behind each of them. -/
def ofLines (ls : List Text) : Text := ls.flatMap (· ++ ['\n'])

theorem ofLines_cons (l : Text) (ls : List Text) : ofLines (l :: ls) = l ++ '\n' :: ofLines ls := by
  rw [ofLines, List.flatMap_cons, List.append_assoc, List.singleton_append, ofLines]

theorem ofLines_append (ls ls' : List Text) : ofLines (ls ++ ls') = ofLines ls ++ ofLines ls' :=
  List.flatMap_append

/-- **Lines that were written are read back**, if there is no newline in them. -/
theorem lines_ofLines (h : ∀ l ∈ ls, '\n' ∉ l) : (ofLines ls).lines = ls := by
  induction ls with
  | nil => simp [ofLines, lines]
  | cons l ls ih =>
      obtain ⟨hl, hls⟩ := List.forall_mem_cons.1 h
      rw [ofLines_cons, lines_append_newline hl, ih hls]

end WordMachine.Text
