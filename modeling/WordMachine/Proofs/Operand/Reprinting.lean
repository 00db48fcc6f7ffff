/-
**Operands that are printed in place of their texts.**

What is printed for an operand is not always the text that it was read from: registers and flags
change their letter case, numbers are written in hexadecimal, and the white space and the brackets
around a label are lost.  The printed text still takes the place of the other one in a line.  A
string is printed as it was written; every other operand is printed compactly, without white space,
commas and quotes, and with its brackets in pairs, so that no line is cut there.  Only a label can
hold a semicolon, and then its text has held it too.

Main definitions:

* `Operand.Restates` — a text can take the place of another one;
* `Text.IsCompact` — a text at which no line is cut;
* `Operand.IsSelfReading` — a label reads as itself.

Main results:

* `Operand.kind_of_parse` — the operands that are read;
* `Operand.restates_print` — **what is printed takes the place of what was read**;
* `Operand.parse_print_of_parse` — **what is printed is read as the same operand**.
-/

import WordMachine.Proofs.Operand.Names
import WordMachine.Proofs.Operand.Printing
import WordMachine.Proofs.Source.Comments

set_option relaxedAutoImplicit false
set_option autoImplicit false

namespace WordMachine

open Text Nesting

variable {x y t : Text} {o : Operand} {c : Char}

/-! ### Compact texts -/

/-- A text **at which no line is cut**, apart from a semicolon in it. -/
structure Text.IsCompact (y : Text) : Prop where
  notBlank : ∀ c ∈ y, isBlank c = false
  notComma : ',' ∉ y
  closed : Closed y

theorem Text.IsPiece.isCompact (h : y.IsPiece) : y.IsCompact where
  notBlank := h.notBlank
  notComma hmem := (h.notCut _ hmem).1 rfl
  closed := h.closed

namespace Text.IsCompact

theorem uncut_comma (h : y.IsCompact) : Uncut (· == ',') .start y := by
  refine uncut_of_forall ?_ _
  intro c hc
  rw [beq_eq_false_iff_ne]
  rintro rfl
  exact h.notComma hc

theorem newline_not_mem (h : y.IsCompact) : '\n' ∉ y :=
  fun hmem => Bool.noConfusion ((h.notBlank _ hmem).symm.trans rfl)

end Text.IsCompact

/-- A text that can take the place of another one in a line. -/
structure Operand.Restates (x y : Text) : Prop where
  comma : Uncut (· == ',') .start x → Uncut (· == ',') .start y
  blank : Uncut isBlank .start x → Uncut isBlank .start y
  closed : Closed x → Closed y
  uncommented : ∀ quoted, Uncommented quoted x → Uncommented quoted y
  newline : '\n' ∉ x → '\n' ∉ y

namespace Operand

theorem restates_trim (x : Text) : Restates x x.trim where
  comma h := h.trim
  blank h := h.trim
  closed h := closed_trim.2 h
  uncommented _ h := h.trim
  newline h hmem := h (mem_of_mem_trim hmem)

theorem Restates.of_isCompact (h : y.IsCompact)
    (hcomment : ∀ quoted, Uncommented quoted x → Uncommented quoted y) : Restates x y where
  comma _ := h.uncut_comma
  blank _ := uncut_of_forall h.notBlank _
  closed _ := h.closed
  uncommented := hcomment
  newline _ := h.newline_not_mem

/-! ### The operands that are read -/

/-- A flag that is read is not the one whose name is a directive. -/
theorem ne_string_of_ofOperandName? {f : Flag} {s : Text} (h : Flag.ofOperandName? s = some f) :
    f ≠ .string := by
  have hmem := List.mem_of_find?_eq_some h
  simpa using (List.mem_filter.1 hmem).2

theorem ofFlag_ne_string {f : Flag} (h : f ≠ .string) : ofFlag f ≠ ofFlag .string := by
  cases f with
  | string => exact absurd rfl h
  | _ => decide

/-- **The operands that are read**: strings, labels, and those that a word can hold. -/
theorem kind_of_parse (h : parse x = .ok o) :
    (∃ content : Text, x.trim = '"' :: content ++ ['"'] ∧ o = quoted content) ∨
      (∃ t, o = label t) ∨ (o.Legible ∧ o.reading = o) := by
  have hfits := fits_of_parse h
  generalize x.trim = token at hfits ⊢
  simp only [reading_eq_self_iff]
  cases hfits with
  | quoted content => exact .inl ⟨content, rfl, rfl⟩
  | register hr => exact .inr (.inr ⟨.register _, nofun⟩)
  | flag hf => exact .inr (.inr ⟨.flag _, ofFlag_ne_string (ne_string_of_ofOperandName? hf)⟩)
  | indirect hr => exact .inr (.inr ⟨.indirect _, nofun⟩)
  | address hn => exact .inr (.inr ⟨.address _, nofun⟩)
  | bracketed hbare => exact .inr (.inl ⟨_, rfl⟩)
  | number hn => exact .inr (.inr ⟨.immediate _, nofun⟩)
  | bare hopen hbare => exact .inr (.inl ⟨_, rfl⟩)

theorem text_ne_nil_of_parse (h : parse x = .ok o) : x ≠ [] := by
  rintro rfl
  cases h

/-- White space around an operand plays no role. -/
theorem parse_of_trim_eq (h : x.trim = y.trim) : parse x = parse y := by
  rw [parse, parse, h]

/-! ### Labels -/

/-- If the operand is a label, it reads as itself. -/
def IsSelfReading (o : Operand) : Prop := ∀ t, o = label t → parse t = .ok (label t)

theorem isPlain_of_isBare {excluded : Text} (h : isBare excluded t)
    (hexcluded : ∀ c ∈ ['[', ']', '"'], c ∈ excluded) : ∀ c ∈ t, IsPlain c := by
  have hne : ∀ d ∈ ['[', ']', '"'], ∀ c ∈ t, c ≠ d := by
    rintro d hd c hc rfl
    exact not_mem_of_isBare h (hexcluded c hd) hc
  intro c hc
  exact ⟨hne '"' (by decide) c hc, hne '[' (by decide) c hc, hne ']' (by decide) c hc⟩

/-- A label is written without brackets and commas, or in brackets that hold no others. -/
theorem shape_of_parse (h : parse x = .ok (label t)) :
    ((∀ c ∈ x.trim, IsPlain c) ∧ ',' ∉ x.trim) ∨
      ∃ inner : Text, x.trim = '[' :: inner ++ [']'] ∧ ∀ c ∈ inner, IsPlain c := by
  rcases parse_eq_label h with ⟨inner, hin, rfl, hbare⟩ | ⟨-, rfl, hbare⟩
  · refine .inr ⟨inner, hin, ?_⟩
    intro c hc
    cases hblank : isBlank c with
    | true => exact isPlain_of_isBlank hblank
    | false => exact isPlain_of_isBare hbare (by simp) c ((mem_trim_iff hblank).2 hc)
  · exact .inl ⟨isPlain_of_isBare hbare (by simp), not_mem_of_isBare hbare (by decide)⟩

/-- A label leaves nothing open. -/
theorem closed_of_parse (h : parse x = .ok (label t)) : Closed x := by
  rw [← closed_trim]
  rcases shape_of_parse h with ⟨hplain, -⟩ | ⟨inner, hin, hplain⟩
  · exact foldl_after_of_isPlain hplain _
  · rw [hin, Closed, List.cons_append, List.foldl_cons, List.foldl_append,
      foldl_after_of_isPlain hplain]
    rfl

/-- A label is not cut at commas. -/
theorem uncut_of_parse (h : parse x = .ok (label t)) : Uncut (· == ',') .start x := by
  refine uncut_of_trim ?_ ?_
  · exact fun c hc => beq_eq_false_iff_ne.2 (ne_of_isBlank hc rfl)
  rcases shape_of_parse h with ⟨-, hcomma⟩ | ⟨inner, hin, hplain⟩
  · refine uncut_of_forall ?_ _
    intro c hc
    rw [beq_eq_false_iff_ne]
    rintro rfl
    exact hcomma hc
  · rw [hin, List.cons_append, Uncut, uncut_append]
    exact ⟨rfl, uncut_of_isPlain hplain rfl,
      uncut_of_forall (List.forall_mem_singleton.2 rfl) _⟩

/-- A label that reads as itself is compact. -/
theorem isCompact_of_parse_self (h : parse t = .ok (label t)) : t.IsCompact := by
  have hunwrapped := core_eq_self_iff.1 (core_of_parse h).symm
  rcases parse_eq_label h with ⟨inner, hin, -, -⟩ | ⟨-, -, hbare⟩
  · exact absurd (hunwrapped.1.symm.trans hin) (hunwrapped.2 inner)
  · refine ⟨notBlank_of_hasBlank ?_, not_mem_of_isBare hbare (by decide), closed_of_parse h⟩
    simpa using (Bool.and_eq_true_iff.1 hbare).1

/-- The name of a label stands in the text that it is read from. -/
theorem mem_of_mem_label (h : parse x = .ok (label t)) (hc : c ∈ t) : c ∈ x := by
  refine mem_of_mem_trim ?_
  rcases parse_eq_label h with ⟨inner, hin, rfl, -⟩ | ⟨-, rfl, -⟩
  · rw [hin]
    exact List.mem_append_left _ (List.mem_cons_of_mem _ (mem_of_mem_trim hc))
  · exact hc

theorem uncommented_label (h : parse x = .ok (label t)) {quoted : Bool}
    (hx : Uncommented quoted x) : Uncommented quoted t := by
  have hquote := quote_not_mem_of_parse h
  rw [uncommented_iff_of_not_mem hquote] at hx
  rw [uncommented_iff_of_not_mem (mt (mem_of_mem_label h) hquote)]
  exact hx.imp_right (mt (mem_of_mem_label h))

/-! ### What is printed -/

theorem isTrimmed_quoted (content : Text) : (quoted content).print.IsTrimmed where
  head := by
    intro c hc
    cases hc
    rfl
  last := by
    intro c hc
    rw [print, List.getLast?_append] at hc
    cases hc
    rfl

/-- **What is printed takes the place of what was read.** -/
theorem restates_print (h : parse x = .ok o) (hself : o.IsSelfReading) : Restates x o.print := by
  rcases kind_of_parse h with ⟨content, htrim, rfl⟩ | ⟨t, rfl⟩ | ⟨hlegible, -⟩
  · have hprint : (quoted content).print = x.trim := htrim.symm
    rw [hprint]
    exact restates_trim x
  · exact .of_isCompact (isCompact_of_parse_self (hself t rfl)) fun _ => uncommented_label h
  · have hpiece := hlegible.isPiece
    exact .of_isCompact hpiece.isCompact fun _ _ =>
      uncommented_of_not_mem fun hmem => (hpiece.notCut _ hmem).2.2 rfl

theorem isTrimmed_print (h : parse x = .ok o) (hself : o.IsSelfReading) : o.print.IsTrimmed := by
  rcases kind_of_parse h with ⟨content, -, rfl⟩ | ⟨t, rfl⟩ | ⟨hlegible, -⟩
  · exact isTrimmed_quoted content
  · exact isTrimmed_of_notBlank (isCompact_of_parse_self (hself t rfl)).notBlank
  · exact isTrimmed_of_notBlank hlegible.isPiece.notBlank

/-- **What is printed is read as the same operand.** -/
theorem parse_print_of_parse (h : parse x = .ok o) (hself : o.IsSelfReading) :
    parse o.print = .ok o := by
  rcases kind_of_parse h with ⟨content, htrim, rfl⟩ | ⟨t, rfl⟩ | ⟨hlegible, hreading⟩
  · have hprint : (quoted content).print = x.trim := htrim.symm
    rw [← h]
    refine parse_of_trim_eq ?_
    rw [(isTrimmed_quoted content).trim_eq, hprint]
  · exact hself t rfl
  · rw [parse_print hlegible, hreading]

end Operand

end WordMachine
