/-
**The operands of a line, printed and read again.**

What follows the word of an operation is cut into fields or into words, each of which is read as an
operand.  The printed operands, with commas between them, are cut into themselves and so are read as
the same operands.  They can be told apart because the texts in their places could be: an operand
takes the place of its text, and no operand but the last leaves anything open.  The words of an
instruction become fields, which is why the words are also looked at for commas.

Main definitions:

* `Text.Parts` — pieces of a text, which can be told apart and in which no comment starts;
* `Text.Rephrases` — what can follow the word of an operation in place of another text;
* `Command.operandList`, `Command.listing` — the operands of a command, and how they are printed;
* `Command.Relists` — operands are printed in place of what they are read from;
* `Command.IsHeader` — the name and the parameters of a macro.

Main results:

* `Command.operands_eq_ok_iff` — what operands are read from;
* `Command.parts_instructionFields` — the texts of the operands of an instruction;
* `Command.operands_listing`, `Command.operands_instructionFields_listing` — **printed operands are
  read again**, those of a directive and those of an instruction;
* `Command.isHeader_macroWords`, `Command.IsHeader.macroWords_join` — the names in the header of a
  macro are read again.
-/

import WordMachine.Proofs.Operand.Reprinting
import WordMachine.Proofs.Source.Names
import Mathlib.Data.List.Forall2

set_option relaxedAutoImplicit false
set_option autoImplicit false

namespace WordMachine

open Nesting

namespace Text

variable {s t r x y : Text} {c : Char} {xs ys : List Text} {isSeparator : Char → Bool}

/-! ### The parts of a text -/

/-- **Parts** of a text, which can be told apart by commas.  No comment starts in them and they hold
no newline, unless that is so of the text. -/
structure Parts (s : Text) (xs : List Text) : Prop where
  row : IsRow (· == ',') xs
  uncommented : ∀ quoted, Uncommented quoted s → ∀ x ∈ xs, Uncommented quoted x
  newline : '\n' ∉ s → ∀ x ∈ xs, '\n' ∉ x

/-- A text **in place of** the one that follows the word of an operation. -/
structure Rephrases (s r : Text) : Prop where
  trimmed : r.IsTrimmed
  uncommented : ∀ quoted, Uncommented quoted s → Uncommented quoted r
  newline : '\n' ∉ s → '\n' ∉ r

/-- Pieces hold only characters of the text. -/
theorem Splits.mem (h : Splits isSeparator s xs) (hx : x ∈ xs) (hc : c ∈ x) : c ∈ s := by
  induction h with
  | last =>
      rw [List.mem_singleton] at hx
      rwa [hx] at hc
  | cut _ _ _ _ ih =>
      rcases List.mem_cons.1 hx with rfl | hx
      · exact List.mem_append_left _ hc
      · exact List.mem_append_right _ (List.mem_cons_of_mem _ (ih hx))

theorem Parts.map_trim (h : Parts s xs) : Parts s (xs.map trim) where
  row := h.row.map_trim
  uncommented := by
    intro quoted hs x hx
    obtain ⟨y, hy, rfl⟩ := List.mem_map.1 hx
    exact (h.uncommented quoted hs y hy).trim
  newline := by
    intro hs x hx hmem
    obtain ⟨y, hy, rfl⟩ := List.mem_map.1 hx
    exact h.newline hs y hy (mem_of_mem_trim hmem)

theorem Parts.filter (h : Parts s xs) (p : Text → Bool) : Parts s (xs.filter p) where
  row := h.row.filter p
  uncommented quoted hs x hx := h.uncommented quoted hs x (List.mem_filter.1 hx).1
  newline hs x hx := h.newline hs x (List.mem_filter.1 hx).1

theorem Splits.parts (h : Splits isSeparator s xs) (hplain : IsSeparation isSeparator)
    (hrow : IsRow (· == ',') xs) : Parts s xs where
  row := hrow
  uncommented _ hs := hs.of_splits hplain h
  newline hs _ hx hmem := hs (h.mem hx hmem)

theorem parts_nil (s : Text) : Parts s [] := ⟨⟨nofun, .nil⟩, nofun, nofun⟩

theorem parts_splitFields (s : Text) : Parts s (splitFields ',' s) := by
  have hsplits := isSeparation_comma.splits_splitOutside s
  rcases splitFields_cases ',' s with h | h
  · rw [h]
    exact parts_nil s
  · rw [h]
    exact (hsplits.parts isSeparation_comma hsplits.isRow).map_trim

theorem parts_splitWords (h : Uncut (· == ',') .start s) : Parts s (splitWords s) := by
  have hsplits := isSeparation_isBlank.splits_splitOutside s
  have hrow : IsRow (· == ',') (splitOutside isBlank .start s) :=
    ⟨isSeparation_isBlank.uncut_of_splits hsplits h, hsplits.isRow.closed⟩
  exact (hsplits.parts isSeparation_isBlank hrow).filter _

/-- A text with a single field holds no comma to cut at. -/
theorem uncut_of_splitFields (h : splitFields ',' s = [x]) : Uncut (· == ',') .start s := by
  have hsplits := isSeparation_comma.splits_splitOutside s
  rcases splitFields_cases ',' s with hnil | hfields
  · rw [hnil] at h
    cases h
  · obtain ⟨y, hy, -⟩ := List.map_eq_singleton_iff.1 (hfields.symm.trans h)
    rw [hy] at hsplits
    cases hsplits with
    | last h => exact h
    | cut _ _ _ h => cases h

/-! ### Other parts in their places -/

theorem exists_of_mem_right {R : Text → Text → Prop} (h : List.Forall₂ R xs ys) (hy : y ∈ ys) :
    ∃ x ∈ xs, R x y := by
  induction h with
  | nil => cases hy
  | cons hxy _ ih =>
      rcases List.mem_cons.1 hy with rfl | hy
      · exact ⟨_, List.mem_cons_self, hxy⟩
      · obtain ⟨x, hx, hR⟩ := ih hy
        exact ⟨x, List.mem_cons_of_mem _ hx, hR⟩

/-- Texts can be told apart if those in whose places they are could be. -/
theorem IsRow.restate (h : IsRow (· == ',') xs) (hys : List.Forall₂ Operand.Restates xs ys) :
    IsRow (· == ',') ys := by
  obtain ⟨huncut, hclosed⟩ := h
  induction hys with
  | nil => exact ⟨nofun, .nil⟩
  | cons hxy hys ih =>
      obtain ⟨hx, huncut⟩ := List.forall_mem_cons.1 huncut
      obtain ⟨hxclosed, hclosed⟩ := List.pairwise_cons.1 hclosed
      have hrest := ih huncut hclosed
      refine ⟨List.forall_mem_cons.2 ⟨hxy.comma hx, hrest.uncut⟩,
        List.pairwise_cons.2 ⟨?_, hrest.closed⟩⟩
      intro z hz
      obtain ⟨x', hx', -⟩ := exists_of_mem_right hys hz
      exact hxy.closed (hxclosed x' hx')

/-- **Parts can be replaced one by one.** -/
theorem Parts.restate (h : Parts s xs) (hys : List.Forall₂ Operand.Restates xs ys) :
    Parts s ys where
  row := h.row.restate hys
  uncommented := by
    intro quoted hs y hy
    obtain ⟨x, hx, hxy⟩ := exists_of_mem_right hys hy
    exact hxy.uncommented quoted (h.uncommented quoted hs x hx)
  newline := by
    intro hs y hy
    obtain ⟨x, hx, hxy⟩ := exists_of_mem_right hys hy
    exact hxy.newline (h.newline hs x hx)

/-- A compact text without a semicolon can stand before the parts. -/
theorem Parts.cons (h : Parts s xs) (hx : x.IsCompact) (hsemicolon : ';' ∉ x) :
    Parts s (x :: xs) where
  row := ⟨List.forall_mem_cons.2 ⟨hx.uncut_comma, h.row.uncut⟩,
    List.pairwise_cons.2 ⟨fun _ _ => hx.closed, h.row.closed⟩⟩
  uncommented quoted hs :=
    List.forall_mem_cons.2 ⟨uncommented_of_not_mem hsemicolon, h.uncommented quoted hs⟩
  newline hs := List.forall_mem_cons.2 ⟨hx.newline_not_mem, h.newline hs⟩

/-! ### Parts with separators between them -/

theorem Parts.rephrases_join (h : Parts s xs) (htrim : ∀ x ∈ xs, x.IsTrimmed)
    (hne : ∀ x ∈ xs, x ≠ []) {separator : Text} (hquote : '"' ∉ separator)
    (hsemicolon : ';' ∉ separator) (hnewline : '\n' ∉ separator) :
    Rephrases s (join separator xs) where
  trimmed := isTrimmed_join htrim hne
  uncommented quoted hs :=
    uncommented_join hquote hsemicolon h.row.closed (h.uncommented quoted hs)
  newline := by
    intro hs hmem
    rcases mem_of_mem_join hmem with hmem | ⟨x, hx, hmem⟩
    · exact hnewline hmem
    · exact h.newline hs x hx hmem

end Text

open Text

namespace Command

variable {s x : Text} {name : Text} {xs names : List Text} {a b : Option Operand}
  {os : List Operand} {role : NameRole}

/-! ### Operands -/

/-- The operands of a command in their order. -/
def operandList (a b : Option Operand) : List Operand := a.toList ++ b.toList

/-- The operands of a command as text, with commas between them. -/
def listing (a b : Option Operand) : Text :=
  join [',', ' '] ((operandList a b).map Operand.print)

/-- A text after a space, if there is one. -/
def spaced (r : Text) : Text := if r.isEmpty then [] else ' ' :: r

theorem spaced_of_ne_nil {r : Text} (h : r ≠ []) : spaced r = ' ' :: r := if_neg (by simpa using h)

/-- **What operands are read from**: one text each, and no second one without a first. -/
theorem operands_eq_ok_iff :
    operands name xs = .ok (a, b) ↔
      (a = none → b = none) ∧
        List.Forall₂ (fun x o => Operand.parse x = .ok o) xs (operandList a b) := by
  have hone : ∀ {x o}, parseOperand x = .ok o ↔ Operand.parse x = .ok o := Except.mapError_eq_ok
  constructor
  · intro h
    match xs with
    | [] =>
        cases h
        exact ⟨fun _ => rfl, .nil⟩
    | [x] =>
        obtain ⟨o, ho, h⟩ := Except.bind_eq_ok.1 h
        cases h
        exact ⟨nofun, .cons (hone.1 ho) .nil⟩
    | [x, y] =>
        obtain ⟨o, ho, h⟩ := Except.bind_eq_ok.1 h
        obtain ⟨p, hp, h⟩ := Except.bind_eq_ok.1 h
        cases h
        exact ⟨nofun, .cons (hone.1 ho) (.cons (hone.1 hp) .nil)⟩
    | _ :: _ :: _ :: _ => cases h
  · rintro ⟨hab, h⟩
    match a, b with
    | none, some _ => exact nomatch hab rfl
    | none, none =>
        cases h
        rfl
    | some o, none =>
        cases h with
        | cons ho h =>
            cases h
            exact Except.bind_eq_ok.2 ⟨o, hone.2 ho, rfl⟩
    | some o, some p =>
        cases h with
        | cons ho h =>
            cases h with
            | cons hp h =>
                cases h
                exact Except.bind_eq_ok.2 ⟨o, hone.2 ho, Except.bind_eq_ok.2 ⟨p, hone.2 hp, rfl⟩⟩

/-- The texts of some operands, and what is printed for these. -/
structure IsPrinted (xs : List Text) (os : List Operand) : Prop where
  restates : List.Forall₂ Operand.Restates xs (os.map Operand.print)
  parse : List.Forall₂ (fun y o => Operand.parse y = .ok o) (os.map Operand.print) os
  trimmed : ∀ y ∈ os.map Operand.print, y.IsTrimmed
  ne_nil : ∀ y ∈ os.map Operand.print, y ≠ []

theorem isPrinted_of_parse (h : List.Forall₂ (fun x o => Operand.parse x = .ok o) xs os)
    (hself : ∀ o ∈ os, o.IsSelfReading) : IsPrinted xs os := by
  induction h with
  | nil => exact ⟨.nil, .nil, nofun, nofun⟩
  | cons ho _ ih =>
      obtain ⟨hoself, hself⟩ := List.forall_mem_cons.1 hself
      have hrest := ih hself
      have hparse := Operand.parse_print_of_parse ho hoself
      exact ⟨.cons (Operand.restates_print ho hoself) hrest.restates, .cons hparse hrest.parse,
        List.forall_mem_cons.2 ⟨Operand.isTrimmed_print ho hoself, hrest.trimmed⟩,
        List.forall_mem_cons.2 ⟨Operand.text_ne_nil_of_parse hparse, hrest.ne_nil⟩⟩

/-- Operands are printed as a listing, which takes the place of the text that they are read from. -/
structure Relists (s : Text) (a b : Option Operand) : Prop where
  rephrases : Rephrases s (listing a b)
  print : Operand.printPair a b = spaced (listing a b)

theorem IsPrinted.relists (h : IsPrinted xs (operandList a b)) (hxs : Parts s xs)
    (hab : a = none → b = none) : Relists s a b where
  rephrases :=
    (hxs.restate h.restates).rephrases_join h.trimmed h.ne_nil (by decide) (by decide) (by decide)
  print := by
    match a, b with
    | none, none => rfl
    | none, some _ => exact nomatch hab rfl
    | some o, b =>
        have hne : listing (some o) b ≠ [] :=
          List.append_ne_nil_of_left_ne_nil (h.ne_nil o.print List.mem_cons_self) _
        rw [spaced_of_ne_nil hne]
        cases b with
        | none | some _ => simp [Operand.printPair, listing, operandList, join]

/-- Printed operands are cut into themselves. -/
theorem IsPrinted.splitFields_listing (h : IsPrinted xs (operandList a b)) (hxs : Parts s xs) :
    splitFields ',' (listing a b) = (operandList a b).map Operand.print :=
  splitFields_join (hxs.restate h.restates).row h.trimmed h.ne_nil

/-- **Printed operands are read again** as the fields of a text. -/
theorem operands_listing (hab : a = none → b = none) (hxs : Parts s xs)
    (h : List.Forall₂ (fun x o => Operand.parse x = .ok o) xs (operandList a b))
    (hself : ∀ o ∈ operandList a b, o.IsSelfReading) (name : Text) :
    Relists s a b ∧ operands name (splitFields ',' (listing a b)) = .ok (a, b) := by
  have hprinted := isPrinted_of_parse h hself
  refine ⟨hprinted.relists hxs hab, ?_⟩
  rw [hprinted.splitFields_listing hxs]
  exact operands_eq_ok_iff.2 ⟨hab, hprinted.parse⟩

/-! ### The operands of an instruction -/

/-- The operands of an instruction are parts of the text, and a single one is a word. -/
theorem parts_instructionFields (s : Text) :
    Parts s (instructionFields s) ∧
      ∀ x, instructionFields s = [x] → Uncut isBlank .start x := by
  unfold instructionFields
  split
  · rename_i field hfield
    refine ⟨parts_splitWords (uncut_of_splitFields hfield), ?_⟩
    intro x hx
    exact (isRow_splitWords s).uncut x (by rw [hx]; exact List.mem_cons_self)
  · rename_i hfields
    exact ⟨parts_splitFields s, fun x hx => absurd hx (hfields x)⟩

/-- Fields are the operands of an instruction, where a single one must be a word. -/
theorem instructionFields_of_splitFields (h : splitFields ',' s = xs)
    (hword : ∀ x, xs = [x] → splitWords s = [x]) : instructionFields s = xs := by
  unfold instructionFields
  rw [h]
  split
  · rename_i x
    exact hword x rfl
  · rfl

/-- **The printed operands of an instruction are read again.** -/
theorem operands_instructionFields_listing (h : operands name (instructionFields s) = .ok (a, b))
    (hself : ∀ o ∈ operandList a b, o.IsSelfReading) :
    Relists s a b ∧ operands name (instructionFields (listing a b)) = .ok (a, b) := by
  obtain ⟨hab, hparse⟩ := operands_eq_ok_iff.1 h
  have hprinted := isPrinted_of_parse hparse hself
  obtain ⟨hparts, hword⟩ := parts_instructionFields s
  refine ⟨hprinted.relists hparts hab, ?_⟩
  rw [instructionFields_of_splitFields (hprinted.splitFields_listing hparts) ?_]
  · exact operands_eq_ok_iff.2 ⟨hab, hprinted.parse⟩
  · intro y hy
    have hne := hprinted.ne_nil y (by rw [hy]; exact List.mem_cons_self)
    have hrestates := hprinted.restates
    rw [hy] at hrestates
    obtain ⟨x, _, hx, hnil, hxs⟩ := List.forall₂_cons_right_iff.1 hrestates
    rw [List.forall₂_nil_right_iff.1 hnil] at hxs
    have hrow : IsRow isBlank [y] :=
      ⟨List.forall_mem_singleton.2 (hx.blank (hword x hxs)), List.pairwise_singleton _ _⟩
    have hjoin : listing a b = join [' '] [y] := by
      rw [listing, hy]
      rfl
    rw [hjoin]
    exact splitWords_join hrow (List.forall_mem_singleton.2 hne)

/-! ### The names of a macro -/

/-- The words that name a macro and its parameters. -/
def macroWords (s : Text) : List Text := (splitFields ',' s).flatMap splitWords

/-- Names that are words of a text are put together, and taken apart again. -/
structure IsHeader (s : Text) (names : List Text) : Prop where
  parts : Parts s names
  row : IsRow isBlank names
  trimmed : ∀ x ∈ names, x.IsTrimmed
  ne_nil : ∀ x ∈ names, x ≠ []

theorem isHeader_macroWords (hnames : ∀ x ∈ macroWords s, IsName x) :
    IsHeader s (macroWords s) := by
  have hword : ∀ x ∈ macroWords s, Uncut isBlank .start x ∧ x ≠ [] ∧
      (∀ quoted, Uncommented quoted s → Uncommented quoted x) ∧ ('\n' ∉ s → '\n' ∉ x) := by
    intro x hx
    obtain ⟨field, hfield, hx⟩ := List.mem_flatMap.1 hx
    have hfields := parts_splitFields s
    have hsplits := isSeparation_isBlank.splits_splitOutside field
    have hpiece := (List.mem_filter.1 hx).1
    refine ⟨(isRow_splitWords field).uncut x hx, by simpa using (List.mem_filter.1 hx).2, ?_, ?_⟩
    · intro quoted hs
      exact (hfields.uncommented quoted hs field hfield).of_splits isSeparation_isBlank hsplits x
        hpiece
    · exact fun hs hmem => hfields.newline hs field hfield (hsplits.mem hpiece hmem)
  have hclosed : ∀ x ∈ macroWords s, Closed x :=
    fun x hx => Operand.closed_of_parse (hnames x hx).reading
  have hpairwise : (macroWords s).Pairwise fun x _ => Closed x :=
    List.pairwise_of_forall_mem_list fun x hx _ _ => hclosed x hx
  exact {
    parts := ⟨⟨fun x hx => Operand.uncut_of_parse (hnames x hx).reading, hpairwise⟩,
      fun quoted hs x hx => (hword x hx).2.2.1 quoted hs, fun hs x hx => (hword x hx).2.2.2 hs⟩
    row := ⟨fun x hx => (hword x hx).1, hpairwise⟩
    trimmed := fun x hx => (hword x hx).1.isTrimmed (hclosed x hx)
    ne_nil := fun x hx => (hword x hx).2.1 }

/-- **The name and the parameters of a macro are read again.** -/
theorem IsHeader.macroWords_join (h : IsHeader s names) :
    macroWords (join [' '] names) = names := by
  cases names with
  | nil => rfl
  | cons x names =>
      have hne : join [' '] (x :: names) ≠ [] :=
        List.append_ne_nil_of_left_ne_nil (h.ne_nil x List.mem_cons_self) _
      rw [macroWords, splitFields_of_uncut (uncut_join (isPlain_of_isBlank rfl) rfl h.parts.row)
        (isTrimmed_join h.trimmed h.ne_nil) hne, List.flatMap_cons, List.flatMap_nil,
        List.append_nil, splitWords_join h.row h.ne_nil]

theorem IsHeader.rephrases (h : IsHeader s names) : Rephrases s (join [' '] names) :=
  h.parts.rephrases_join h.trimmed h.ne_nil (by decide) (by decide) (by decide)

end Command

end WordMachine
