/-
**Reading the line of an instruction.**

A line with a mnemonic and operands, and with nothing that ends it early or sets a label off, is
read as the instruction with these operands.  The reader's steps are taken in turn: no comment is
cut off, no label is split from the front, the first word is the mnemonic, and what follows it is
cut into the texts of the operands.

Main definitions:

* `Command.IsTail` — what can follow the mnemonic.

Main results:

* `Command.parse_append` — a line is its mnemonic and the rest;
* `Command.operands_one`, `Command.operands_two` — the rest is cut into the operands;
* `Command.parse_printPair` — **a line with printed operands**.
-/

import WordMachine.Proofs.Operand.Printing
import WordMachine.Proofs.Source.Comments
import Mathlib.Data.List.Basic
import Mathlib.Data.List.TakeWhile

set_option relaxedAutoImplicit false
set_option autoImplicit false

namespace WordMachine

theorem Text.stripComment_eq_self {s : Text} (h : ';' ∉ s) : s.stripComment = s :=
  uncommented_of_not_mem h

namespace Command

variable {line : Nat} {s mnemonic tail : Text}

/-- A line without a colon has no label. -/
theorem takeLabel_of_not_mem (h : ':' ∉ s) : takeLabel s = .ok (none, s) := by
  have hword : (s.takeWhile fun c => c != ' ' && c != '\t').contains ':' = false := by
    rw [List.contains_eq_mem, decide_eq_false_iff_not]
    exact fun hmem => h (List.takeWhile_subset _ hmem)
  rw [takeLabel, hword]
  rfl

/-- What can follow the mnemonic of an instruction in a line: white space and operands. -/
structure IsTail (tail : Text) : Prop where
  head : ∀ c ∈ tail.head?, Text.isBlank c
  last : ∀ c ∈ tail.getLast?, Text.isBlank c = false
  plain : ∀ c ∈ tail, c ≠ ':' ∧ c ≠ ';' ∧ c ≠ '\n'

theorem parseOperation_append (hmnemonic : ∀ c ∈ mnemonic, Text.isBlank c = false)
    (hname : mnemonic.head? ≠ some '.') (htail : IsTail tail) (c : Command) :
    c.parseOperation (mnemonic ++ tail) = do
      let (a, b) ← operands mnemonic.upper (instructionFields tail.trim)
      return { c with operation := .instruction mnemonic.upper, a, b } := by
  have hword : (mnemonic ++ tail).takeWhile (!Text.isBlank ·) = mnemonic := by
    rw [List.takeWhile_append_of_pos (by simpa using hmnemonic)]
    cases tail with
    | nil => simp
    | cons c tail => simp [htail.head c rfl]
  have hrest : tail.takeWhile (· != '\n') = tail :=
    Text.takeWhile_bne_eq_self fun hnewline => (htail.plain '\n' hnewline).2.2 rfl
  rw [parseOperation]
  simp only [hword, List.drop_left, hrest]
  rw [if_neg (by simpa using hname)]

/-- **A line is its mnemonic and the rest.** -/
theorem parse_append (hmnemonic : mnemonic.IsPiece) (hname : mnemonic.head? ≠ some '.')
    (htail : IsTail tail) :
    parse line (mnemonic ++ tail) = do
      let (a, b) ← operands mnemonic.upper (instructionFields tail.trim)
      return { line, operation := .instruction mnemonic.upper, a, b } := by
  have hplain : ∀ c ∈ mnemonic ++ tail, c ≠ ':' ∧ c ≠ ';' := by
    intro c hc
    rcases List.mem_append.1 hc with hc | hc
    · exact ⟨(hmnemonic.notCut c hc).2.1, (hmnemonic.notCut c hc).2.2⟩
    · exact ⟨(htail.plain c hc).1, (htail.plain c hc).2.1⟩
  have hne : mnemonic ++ tail ≠ [] := by simp [hmnemonic.ne_nil]
  have htrim : (mnemonic ++ tail).trim = mnemonic ++ tail := by
    refine Text.trim_eq_self ?_ ?_
    · intro c hc
      rw [List.head?_append_of_ne_nil _ hmnemonic.ne_nil] at hc
      exact hmnemonic.notBlank c (List.mem_of_mem_head? hc)
    · intro c hc
      rw [List.getLast?_append] at hc
      cases hlast : tail.getLast? with
      | some d =>
          rw [hlast] at hc
          cases hc
          exact htail.last c hlast
      | none =>
          rw [hlast] at hc
          exact hmnemonic.notBlank c (List.mem_of_mem_getLast? hc)
  rw [parse, Text.stripComment_eq_self fun h => (hplain _ h).2 rfl, htrim]
  rw [if_neg (by simpa using hne), takeLabel_of_not_mem fun h => (hplain _ h).1 rfl]
  show (if (mnemonic ++ tail).isEmpty then _ else _) = _
  rw [if_neg (by simpa using hne)]
  exact parseOperation_append hmnemonic.notBlank hname htail { line }

/-! ### Operands -/

theorem isTail_nil : IsTail [] := ⟨by simp, by simp, by simp⟩

theorem isTail_one (h : s.IsPiece) : IsTail (' ' :: s) where
  head := by
    intro c hc
    cases hc
    rfl
  last := by
    intro c hc
    rw [List.getLast?_cons_of_ne_nil h.ne_nil] at hc
    exact h.notBlank c (List.mem_of_mem_getLast? hc)
  plain := by
    intro c hc
    rcases List.mem_cons.1 hc with rfl | hc
    · decide
    · refine ⟨(h.notCut c hc).2.1, (h.notCut c hc).2.2, ?_⟩
      rintro rfl
      exact nomatch h.notBlank _ hc

theorem IsTail.append {t : Text} (hs : IsTail s) (ht : IsTail t) (hsne : s ≠ []) (htne : t ≠ []) :
    IsTail (s ++ ',' :: t) where
  head := by
    intro c hc
    rw [List.head?_append_of_ne_nil _ hsne] at hc
    exact hs.head c hc
  last := by
    intro c hc
    rw [List.getLast?_append_of_ne_nil _ (List.cons_ne_nil _ _),
      List.getLast?_cons_of_ne_nil htne] at hc
    exact ht.last c hc
  plain := by
    intro c hc
    rcases List.mem_append.1 hc with hc | hc
    · exact hs.plain c hc
    · rcases List.mem_cons.1 hc with rfl | hc
      · decide
      · exact ht.plain c hc

theorem isTail_two {t : Text} (hs : s.IsPiece) (ht : t.IsPiece) :
    IsTail (' ' :: (s ++ ',' :: ' ' :: t)) :=
  (isTail_one hs).append (isTail_one ht) nofun nofun

/-- The space after the mnemonic does not belong to the operands. -/
theorem IsTail.trim_eq (h : IsTail (' ' :: s)) (hhead : ∀ c ∈ s.head?, Text.isBlank c = false) :
    Text.trim (' ' :: s) = s := by
  have htrim : Text.trim (' ' :: s) = s.trim := rfl
  rw [htrim]
  refine Text.trim_eq_self hhead ?_
  intro c hc
  refine h.last c ?_
  rwa [List.getLast?_cons_of_ne_nil (by rintro rfl; exact nomatch hc)]

theorem operands_one {o : Operand} (h : o.Legible) (name : Text) :
    operands name (instructionFields (Text.trim (' ' :: o.print))) =
      .ok (some o.reading, none) := by
  have htrim : Text.trim (' ' :: o.print) = o.print := h.isPiece.trim_eq
  rw [htrim, instructionFields, h.isPiece.splitFields_eq]
  dsimp only
  rw [h.isPiece.splitWords_eq, operands, parseOperand, Operand.parse_print h]
  rfl

theorem operands_two {o p : Operand} (ho : o.Legible) (hp : p.Legible) (name : Text) :
    operands name (instructionFields (Text.trim (' ' :: (o.print ++ ',' :: ' ' :: p.print)))) =
      .ok (some o.reading, some p.reading) := by
  have htrim : Text.trim (' ' :: (o.print ++ ',' :: ' ' :: p.print)) =
      o.print ++ ',' :: ' ' :: p.print := by
    refine (isTail_two ho.isPiece hp.isPiece).trim_eq ?_
    intro c hc
    rw [List.head?_append_of_ne_nil _ ho.isPiece.ne_nil] at hc
    exact ho.isPiece.notBlank c (List.mem_of_mem_head? hc)
  rw [htrim, instructionFields, ho.isPiece.splitFields_append hp.isPiece]
  dsimp only
  rw [operands, parseOperand, parseOperand, Operand.parse_print ho, Operand.parse_print hp]
  rfl

/-- **A line with printed operands.** -/
theorem parse_printPair {a b : Option Operand} (hmnemonic : mnemonic.IsPiece)
    (hname : mnemonic.head? ≠ some '.') (ha : ∀ o ∈ a, o.Legible) (hb : ∀ o ∈ b, o.Legible)
    (hab : a = none → b = none) :
    parse line (mnemonic ++ Operand.printPair a b) =
      .ok ⟨line, none, .instruction mnemonic.upper, a.map Operand.reading,
        b.map Operand.reading⟩ := by
  match a, b with
  | none, some _ => exact nomatch hab rfl
  | none, none =>
      have htail : Operand.printPair none none = [] := rfl
      rw [htail, parse_append hmnemonic hname isTail_nil]
      rfl
  | some o, none =>
      have ho := ha o rfl
      have htail : Operand.printPair (some o) none = ' ' :: o.print := List.append_nil _
      rw [htail, parse_append hmnemonic hname (isTail_one ho.isPiece), operands_one ho]
      rfl
  | some o, some p =>
      have ho := ha o rfl
      have hp := hb p rfl
      have htail : Operand.printPair (some o) (some p) =
          ' ' :: (o.print ++ ',' :: ' ' :: p.print) := rfl
      rw [htail, parse_append hmnemonic hname (isTail_two ho.isPiece hp.isPiece),
        operands_two ho hp]
      rfl

end Command

end WordMachine
