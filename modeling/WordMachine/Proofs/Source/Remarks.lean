/-
**Remarks in a source text.**

What a line says is its text without the comment and without the white space around it.  A line says
the same when a comment is put behind it, as long as no string is open there, and when it ends with
a carriage return.  A line of white space, with or without a comment, says nothing.

A text is annotated by retouching its lines in this way and by putting lines that say nothing
between them.  The lines of the text get new numbers then.

Main definitions:

* `Text.gist` — what a line says;
* `Text.LineEnd`, `Text.Retouched` — a line, and the same line with a comment or another end;
* `Text.SaysNothing` — white space, with or without a comment;
* `Text.Annotates` — lines annotated, with the new numbers of the old ones;
* `Text.newNumber` — the new number of a line.

Main results:

* `Text.gist_of_retouched`, `Text.gist_of_saysNothing` — what annotated lines say;
* `Text.Annotates.getElem?` — **the new numbers are those of the same lines**.
-/

import WordMachine.Source.Line
import WordMachine.Proofs.Text.Cutting

set_option relaxedAutoImplicit false
set_option autoImplicit false

namespace WordMachine.Text

variable {s w l l' : Text}

/-! ### What a line says -/

/-- **What a line says**: its text without the comment and without the white space around it. -/
def gist (l : Text) : Text := l.stripComment.trim

/-- The two ways to end a line. -/
inductive LineEnd
  | newline
  | carriageReturn

/-- What a line has in front of its newline. -/
def LineEnd.text : LineEnd → Text
  | newline => []
  | carriageReturn => ['\r']

/-- A line **retouched**: it may end in the other way, and where it holds an even number of double
quotes, a comment may follow. -/
inductive Retouched : Text → Text → Prop
  | ended (body : Text) (e e' : LineEnd) : Retouched (body ++ e.text) (body ++ e'.text)
  | remarked {body : Text} (heven : body.count '"' % 2 = 0) (remark : Text) (e e' : LineEnd) :
      Retouched (body ++ e.text) (body ++ ';' :: remark ++ e'.text)

/-- A line that **says nothing**: white space, and perhaps a comment. -/
inductive SaysNothing : Text → Prop
  | blank {w : Text} (h : ∀ c ∈ w, isBlank c) : SaysNothing w
  | remark {w : Text} (h : ∀ c ∈ w, isBlank c) (remark : Text) : SaysNothing (w ++ ';' :: remark)

/-! ### Comments -/

/-- White space is cut off with a comment before it, and stays otherwise. -/
theorem cutComment_append_blank (h : ∀ c ∈ w, isBlank c) (quoted : Bool) (s : Text) :
    cutComment quoted (s ++ w) = cutComment quoted s ++ w ∨
      cutComment quoted (s ++ w) = cutComment quoted s := by
  induction s generalizing quoted with
  | nil =>
      refine .inl ?_
      simp only [List.nil_append, cutComment]
      induction w generalizing quoted with
      | nil => rfl
      | cons c w ih =>
          obtain ⟨hc, hw⟩ := List.forall_mem_cons.1 h
          have hquote : (c == '"') = false := beq_false_of_ne (ne_of_isBlank hc (by decide))
          have hsemicolon : (c == ';') = false := beq_false_of_ne (ne_of_isBlank hc (by decide))
          simp only [cutComment, hquote, hsemicolon, Bool.false_and, Bool.false_eq_true, if_false]
          rw [ih hw]
  | cons c s ih =>
      simp only [List.cons_append, cutComment]
      generalize (if c == '"' then !quoted else quoted) = inside
      split
      · exact .inr rfl
      · rcases ih inside with hs | hs
        · exact .inl (by rw [hs, List.cons_append])
        · exact .inr (by rw [hs])

/-- A comment is cut off where no string is open, which the number of quotes before it tells. -/
theorem cutComment_append_remark {quoted : Bool} (h : quoted = decide (s.count '"' % 2 = 1))
    (remark : Text) : cutComment quoted (s ++ ';' :: remark) = cutComment quoted s := by
  induction s generalizing quoted with
  | nil =>
      obtain rfl : quoted = false := h
      rfl
  | cons c s ih =>
      simp only [List.cons_append, cutComment]
      have hinside : (if c == '"' then !quoted else quoted) = decide (s.count '"' % 2 = 1) := by
        by_cases hc : c = '"'
        · subst hc
          rw [List.count_cons_self] at h
          rcases Nat.mod_two_eq_zero_or_one (s.count '"') with hs | hs
          · simp [h, hs, Nat.add_mod]
          · simp [h, hs, Nat.add_mod]
        · rw [List.count_cons_of_ne hc] at h
          simpa [hc] using h
      rw [ih hinside]

/-! ### What annotated lines say -/

theorem gist_append_blank (h : ∀ c ∈ w, isBlank c) (s : Text) : gist (s ++ w) = gist s := by
  rw [gist, stripComment]
  rcases cutComment_append_blank h false s with hs | hs
  · rw [hs, trim_append h, gist, stripComment]
  · rw [hs, gist, stripComment]

theorem gist_append_remark (h : s.count '"' % 2 = 0) (remark : Text) :
    gist (s ++ ';' :: remark) = gist s := by
  rw [gist, stripComment, cutComment_append_remark (by simp [h]), gist, stripComment]

theorem LineEnd.isBlank_of_mem (e : LineEnd) : ∀ c ∈ e.text, isBlank c := by
  cases e with
  | newline => exact nofun
  | carriageReturn => simp [text, isBlank, isBlankCode]

/-- **A line that is retouched says the same.** -/
theorem gist_of_retouched (h : Retouched l l') : gist l' = gist l := by
  cases h with
  | ended body e e' =>
      rw [gist_append_blank e'.isBlank_of_mem, gist_append_blank e.isBlank_of_mem]
  | remarked heven remark e e' =>
      rw [gist_append_blank e'.isBlank_of_mem, gist_append_blank e.isBlank_of_mem,
        gist_append_remark heven]

theorem gist_of_isBlank (h : ∀ c ∈ w, isBlank c) : gist w = [] := by
  have hnil : gist ([] : Text) = [] := rfl
  rw [← hnil, ← gist_append_blank h [], List.nil_append]

theorem gist_of_saysNothing (h : SaysNothing l) : gist l = [] := by
  cases h with
  | blank h => exact gist_of_isBlank h
  | @remark w h remark =>
      have hquote : '"' ∉ w := fun hmem => ne_of_isBlank (h _ hmem) (by decide) rfl
      rw [gist_append_remark (by rw [List.count_eq_zero_of_not_mem hquote]), gist_of_isBlank h]

/-! ### Annotated texts -/

/-- `Annotates n old new numbers`: the lines `new`, which are numbered from `n` on, are the lines
`old` **annotated**.  The old lines now have the given numbers. -/
inductive Annotates : Nat → List Text → List Text → List Nat → Prop
  | nil (n : Nat) : Annotates n [] [] []
  /-- A line that says nothing is put in. -/
  | insert {n : Nat} {l : Text} {old new : List Text} {numbers : List Nat} (hl : SaysNothing l)
      (h : Annotates (n + 1) old new numbers) : Annotates n old (l :: new) numbers
  /-- A line stays, retouched. -/
  | keep {n : Nat} {l l' : Text} {old new : List Text} {numbers : List Nat} (hl : Retouched l l')
      (h : Annotates (n + 1) old new numbers) :
      Annotates n (l :: old) (l' :: new) (n :: numbers)

/-- The new number of a line, the old ones counting from one.  No line has the number zero, which
stays. -/
def newNumber (numbers : List Nat) (n : Nat) : Nat := (0 :: numbers).getD n 0

theorem newNumber_succ {numbers : List Nat} {i n : Nat} (h : numbers[i]? = some n) :
    newNumber numbers (i + 1) = n := by
  simp [newNumber, h]

/-- **The new numbers are those of the same lines.** -/
theorem Annotates.getElem? {n i : Nat} {old new : List Text} {numbers : List Nat}
    (h : Annotates n old new numbers) (hl : old[i]? = some l) :
    ∃ j l', numbers[i]? = some (n + j) ∧ new[j]? = some l' ∧ Retouched l l' := by
  induction h generalizing i with
  | nil => exact nomatch hl
  | insert _ _ ih =>
      obtain ⟨j, l', hj, hl', hsame⟩ := ih hl
      exact ⟨j + 1, l', by rw [hj]; congr 1; omega, hl', hsame⟩
  | @keep n l₀ l₁ old new numbers hl₀ _ ih =>
      cases i with
      | zero =>
          obtain rfl := Option.some.inj hl
          exact ⟨0, l₁, rfl, rfl, hl₀⟩
      | succ i =>
          obtain ⟨j, l', hj, hl', hsame⟩ := ih hl
          exact ⟨j + 1, l', by rw [List.getElem?_cons_succ, hj]; congr 1; omega, hl', hsame⟩

end WordMachine.Text
