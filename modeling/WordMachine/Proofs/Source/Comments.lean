/-
**Where no comment starts.**

A comment starts at a semicolon outside a string.  Whether a string is open is told by the quotes so
far, so that a text in which no comment starts can be told from its parts: no comment starts in the
front, and none in the rest, with a string open there or not.  Brackets play no role, and a text that
leaves nothing open does not change whether a string is open.

Main definitions:

* `Text.quotedAfter` — a string is open after a text;
* `Text.Uncommented` — no comment starts in a text.

Main results:

* `Text.uncommented_append` — **a text and its parts**;
* `Text.quotedAfter_of_closed` — a text that leaves nothing open;
* `Text.uncommented_cutComment` — what is left of a line;
* `Text.Uncommented.of_splits`, `Text.uncommented_join` — the pieces of a text.
-/

import WordMachine.Source.Line
import WordMachine.Proofs.Text.Splitting

set_option relaxedAutoImplicit false
set_option autoImplicit false

namespace WordMachine.Text

open Nesting

variable {quoted : Bool} {s t x : Text} {c : Char} {xs : List Text} {isSeparator : Char → Bool}

/-! ### Strings -/

/-- A string is open after one more character. -/
def quotedAt (quoted : Bool) (c : Char) : Bool := if c == '"' then !quoted else quoted

/-- A string is open after the text. -/
def quotedAfter (quoted : Bool) (s : Text) : Bool := s.foldl quotedAt quoted

theorem quotedAfter_append :
    quotedAfter quoted (s ++ t) = quotedAfter (quotedAfter quoted s) t :=
  List.foldl_append ..

theorem quotedAfter_of_not_mem (h : '"' ∉ s) : quotedAfter quoted s = quoted := by
  induction s with
  | nil => rfl
  | cons c s ih =>
      obtain ⟨hc, hs⟩ := not_or.1 (List.mem_cons.not.1 h)
      have hat : quotedAt quoted c = quoted := if_neg (by simpa using Ne.symm hc)
      exact (congrArg (quotedAfter · s) hat).trans (ih hs)

/-- Of what is open, the quotes tell about the string. -/
theorem quoted_foldl_after (n : Nesting) (s : Text) :
    (s.foldl after n).quoted = quotedAfter n.quoted s := by
  induction s generalizing n with
  | nil => rfl
  | cons c s ih =>
      have hat : (n.after c).quoted = quotedAt n.quoted c := by
        rw [after, quotedAt]
        split_ifs <;> simp_all
      rw [List.foldl_cons, ih, hat]
      rfl

theorem quotedAfter_not (quoted : Bool) (s : Text) :
    quotedAfter (!quoted) s = !quotedAfter quoted s := by
  induction s generalizing quoted with
  | nil => rfl
  | cons c s ih =>
      have hat : quotedAt (!quoted) c = !quotedAt quoted c := by
        rw [quotedAt, quotedAt]
        split_ifs <;> rfl
      exact (congrArg (quotedAfter · s) hat).trans (ih _)

/-- A text that leaves nothing open holds an even number of quotes. -/
theorem quotedAfter_of_closed (h : Closed s) (quoted : Bool) : quotedAfter quoted s = quoted := by
  have hfalse : quotedAfter false s = false := by
    have hquoted := quoted_foldl_after .start s
    rw [h] at hquoted
    exact hquoted.symm
  cases quoted with
  | false => exact hfalse
  | true =>
      have htrue := quotedAfter_not false s
      rwa [hfalse] at htrue

/-! ### Comments -/

/-- No comment starts in the text. -/
def Uncommented (quoted : Bool) (s : Text) : Prop := cutComment quoted s = s

theorem cutComment_cons :
    cutComment quoted (c :: s) =
      if c == ';' && !quotedAt quoted c then [] else c :: cutComment (quotedAt quoted c) s :=
  rfl

theorem uncommented_cons :
    Uncommented quoted (c :: s) ↔
      (c = ';' → quotedAt quoted c = true) ∧ Uncommented (quotedAt quoted c) s := by
  rw [Uncommented, cutComment_cons, Uncommented]
  split_ifs with hcut
  · rw [Bool.and_eq_true_iff, beq_iff_eq, Bool.not_eq_true'] at hcut
    refine iff_of_false nofun ?_
    rintro ⟨hopen, -⟩
    exact Bool.noConfusion (hcut.2.symm.trans (hopen hcut.1))
  · rw [Bool.and_eq_true_iff, beq_iff_eq, Bool.not_eq_true', not_and, Bool.not_eq_false] at hcut
    rw [List.cons.injEq, and_iff_right rfl, and_iff_right hcut]

/-- **No comment starts in a text** if none starts in its parts. -/
theorem uncommented_append :
    Uncommented quoted (s ++ t) ↔ Uncommented quoted s ∧ Uncommented (quotedAfter quoted s) t := by
  induction s generalizing quoted with
  | nil => exact (and_iff_right rfl).symm
  | cons c s ih =>
      rw [List.cons_append, uncommented_cons, uncommented_cons, ih, and_assoc]
      rfl

theorem uncommented_of_not_mem (h : ';' ∉ s) : Uncommented quoted s := by
  induction s generalizing quoted with
  | nil => rfl
  | cons c s ih =>
      obtain ⟨hc, hs⟩ := not_or.1 (List.mem_cons.not.1 h)
      exact uncommented_cons.2 ⟨fun heq => absurd heq (Ne.symm hc), ih hs⟩

/-- Without a quote, a semicolon starts a comment, unless a string is open already. -/
theorem uncommented_iff_of_not_mem (h : '"' ∉ s) :
    Uncommented quoted s ↔ quoted = true ∨ ';' ∉ s := by
  induction s with
  | nil => exact iff_of_true rfl (.inr List.not_mem_nil)
  | cons c s ih =>
      obtain ⟨hc, hs⟩ := not_or.1 (List.mem_cons.not.1 h)
      have hat : quotedAt quoted c = quoted := if_neg (by simpa using Ne.symm hc)
      rw [uncommented_cons, hat, ih hs, List.mem_cons, not_or, eq_comm (a := ';')]
      cases quoted with
      | false => simp
      | true => simp

/-- No comment starts in what is left of a line without its comment. -/
theorem uncommented_cutComment (quoted : Bool) (s : Text) :
    Uncommented quoted (cutComment quoted s) := by
  induction s generalizing quoted with
  | nil => rfl
  | cons c s ih =>
      rw [cutComment_cons]
      split_ifs with hcut
      · rfl
      · rw [Bool.and_eq_true_iff, beq_iff_eq, Bool.not_eq_true', not_and, Bool.not_eq_false] at hcut
        exact uncommented_cons.2 ⟨hcut, ih _⟩

theorem mem_of_mem_cutComment (h : c ∈ cutComment quoted s) : c ∈ s := by
  induction s generalizing quoted with
  | nil => exact h
  | cons d s ih =>
      rw [cutComment_cons] at h
      split_ifs at h
      · cases h
      · rcases List.mem_cons.1 h with rfl | hmem
        · exact List.mem_cons_self
        · exact List.mem_cons_of_mem _ (ih hmem)

theorem Uncommented.trim (h : Uncommented quoted s) : Uncommented quoted s.trim := by
  obtain ⟨w, w', hs, hw, -⟩ := exists_trim s
  have hquote : '"' ∉ w := fun hmem => ne_of_isBlank (hw _ hmem) rfl rfl
  rw [hs, uncommented_append, uncommented_append, quotedAfter_of_not_mem hquote] at h
  exact h.1.2

/-! ### Pieces -/

/-- No comment starts in a piece. -/
theorem Uncommented.of_splits (hplain : IsSeparation isSeparator) (h : Splits isSeparator s xs)
    (hs : Uncommented quoted s) : ∀ x ∈ xs, Uncommented quoted x := by
  induction h with
  | last => exact List.forall_mem_singleton.2 hs
  | @cut x t c xs hx hclosed hc _ ih =>
      obtain ⟨hfront, hrest⟩ := uncommented_append.1 hs
      have hat : quotedAt quoted c = quoted := if_neg (by simpa using (hplain.plain c hc).quote)
      rw [quotedAfter_of_closed hclosed, uncommented_cons, hat] at hrest
      exact List.forall_mem_cons.2 ⟨hfront, ih hrest.2⟩

/-- No comment starts in pieces that are put together. -/
theorem uncommented_join {separator : Text} (hquote : '"' ∉ separator)
    (hsemicolon : ';' ∉ separator)
    (hrow : xs.Pairwise fun x _ => Closed x) (h : ∀ x ∈ xs, Uncommented quoted x) :
    Uncommented quoted (join separator xs) := by
  cases xs with
  | nil => rfl
  | cons x xs =>
      induction xs generalizing x with
      | nil =>
          rw [join_singleton]
          exact h x List.mem_cons_self
      | cons y xs ih =>
          obtain ⟨hx, hrest⟩ := List.forall_mem_cons.1 h
          obtain ⟨hclosed, hrow'⟩ := List.pairwise_cons.1 hrow
          rw [join_cons_cons, uncommented_append, uncommented_append,
            quotedAfter_of_closed (hclosed y List.mem_cons_self), quotedAfter_of_not_mem hquote]
          exact ⟨hx, uncommented_of_not_mem hsemicolon, ih y hrow' hrest⟩

end WordMachine.Text
