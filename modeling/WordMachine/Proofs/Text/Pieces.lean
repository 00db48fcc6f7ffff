/-
**Text that is not cut.**

The reader of a line cuts a text at commas, colons and white space, and at a semicolon.  A text with
none of these, in which every quote and every bracket is closed, is a **piece**: whatever stands
before it or behind it, it is not cut.  Words of letters, digits and underscores are pieces, and so
are such words in square brackets.

Main definitions:

* `Text.IsWord`, `Text.IsPiece` — words and pieces.

Main results:

* `Text.IsWord.isPiece`, `Text.IsWord.isPiece_bracketed` — words are pieces, bare or in brackets;
* `Text.IsPiece.splitWords_eq`, `Text.IsPiece.splitFields_eq` — one piece is one field;
* `Text.IsPiece.splitFields_append` — **two pieces with a comma between them are two**.
-/

import WordMachine.Proofs.Text.Splitting

set_option relaxedAutoImplicit false
set_option autoImplicit false

namespace WordMachine.Text

variable {s t : Text} {c : Char}

/-! ### Words -/

/-- The codes of digits, letters and the underscore. -/
def isWordCode (n : Nat) : Bool :=
  (48 ≤ n && n ≤ 57) || (65 ≤ n && n ≤ 90) || (97 ≤ n && n ≤ 122) || n == 95

/-- The character is a letter, a digit or an underscore. -/
def isWordChar (c : Char) : Bool := isWordCode c.toNat

/-- Some letters, digits and underscores. -/
structure IsWord (s : Text) : Prop where
  ne_nil : s ≠ []
  all : ∀ c ∈ s, isWordChar c

/-- Whether a text is a word can be computed. -/
theorem IsWord.of_all (hne : s ≠ []) (h : s.all isWordChar) : s.IsWord :=
  ⟨hne, List.all_eq_true.1 h⟩

theorem isBlank_of_isWordChar (h : isWordChar c) : isBlank c = false := by
  simp only [isWordChar, isWordCode, Bool.or_eq_true, Bool.and_eq_true, decide_eq_true_eq,
    beq_iff_eq] at h
  simp only [isBlank, isBlankCode, Bool.or_eq_false_iff, Bool.and_eq_false_iff,
    beq_eq_false_iff_ne, decide_eq_false_iff_not]
  omega

theorem ne_of_isWordChar (h : isWordChar c) {d : Char} (hd : isWordChar d = false) : c ≠ d := by
  rintro rfl
  rw [h] at hd
  exact nomatch hd

/-! ### Pieces -/

/-- **A text that is not cut.** -/
structure IsPiece (s : Text) : Prop where
  ne_nil : s ≠ []
  notBlank : ∀ c ∈ s, isBlank c = false
  notCut : ∀ c ∈ s, c ≠ ',' ∧ c ≠ ':' ∧ c ≠ ';'
  closed : Closed s

theorem isPlain_of_isWordChar (h : isWordChar c) : Nesting.IsPlain c :=
  ⟨ne_of_isWordChar h rfl, ne_of_isWordChar h rfl, ne_of_isWordChar h rfl⟩

theorem IsWord.isPiece (h : s.IsWord) : s.IsPiece where
  ne_nil := h.ne_nil
  notBlank c hc := isBlank_of_isWordChar (h.all c hc)
  notCut c hc := ⟨ne_of_isWordChar (h.all c hc) rfl, ne_of_isWordChar (h.all c hc) rfl,
    ne_of_isWordChar (h.all c hc) rfl⟩
  closed := Nesting.foldl_after_of_isPlain (fun c hc => isPlain_of_isWordChar (h.all c hc)) _

theorem IsWord.isPiece_bracketed (h : s.IsWord) : IsPiece ('[' :: s ++ [']']) where
  ne_nil := nofun
  notBlank := by
    intro c hc
    rw [List.mem_append, List.mem_cons, List.mem_singleton] at hc
    rcases hc with (rfl | hc) | rfl
    · rfl
    · exact isBlank_of_isWordChar (h.all c hc)
    · rfl
  notCut := by
    intro c hc
    rw [List.mem_append, List.mem_cons, List.mem_singleton] at hc
    rcases hc with (rfl | hc) | rfl
    · decide
    · exact h.isPiece.notCut c hc
    · decide
  closed := by
    rw [Closed, List.cons_append, List.foldl_cons, List.foldl_append,
      Nesting.foldl_after_of_isPlain fun c hc => isPlain_of_isWordChar (h.all c hc)]
    rfl

theorem IsPiece.isTrimmed (h : s.IsPiece) : s.IsTrimmed := isTrimmed_of_notBlank h.notBlank

theorem IsPiece.trim_eq (h : s.IsPiece) : s.trim = s := h.isTrimmed.trim_eq

/-! ### Cutting -/

namespace IsPiece

theorem uncut_comma (h : s.IsPiece) : Uncut (· == ',') .start s :=
  uncut_of_forall (fun c hc => beq_eq_false_iff_ne.2 (h.notCut c hc).1) _

theorem splitWords_eq (h : s.IsPiece) : s.splitWords = [s] := by
  have hrow : IsRow isBlank [s] :=
    ⟨List.forall_mem_singleton.2 (uncut_of_forall h.notBlank _), List.pairwise_singleton _ _⟩
  have hwords := splitWords_join hrow (List.forall_mem_singleton.2 h.ne_nil)
  rwa [join_singleton] at hwords

theorem splitFields_eq (h : s.IsPiece) : splitFields ',' s = [s] :=
  splitFields_of_uncut h.uncut_comma h.isTrimmed h.ne_nil

theorem splitFields_append (hs : s.IsPiece) (ht : t.IsPiece) :
    splitFields ',' (s ++ ',' :: ' ' :: t) = [s, t] := by
  have hrow : IsRow (· == ',') [s, t] :=
    ⟨List.forall_mem_cons.2 ⟨hs.uncut_comma, List.forall_mem_singleton.2 ht.uncut_comma⟩,
      List.pairwise_pair.2 hs.closed⟩
  have hfields := splitFields_join hrow
    (List.forall_mem_cons.2 ⟨hs.isTrimmed, List.forall_mem_singleton.2 ht.isTrimmed⟩)
    (List.forall_mem_cons.2 ⟨hs.ne_nil, List.forall_mem_singleton.2 ht.ne_nil⟩)
  rwa [join_pair] at hfields

end IsPiece

end WordMachine.Text
