/-
**Cutting a text, and putting it together again.**

A text is cut at the separators that stand where nothing is open.  A separator is neither a quote nor
a bracket, so that what is open does not change at a cut: every piece starts with nothing open, all
pieces but the last leave nothing open, and no piece holds a place to cut.  The converse is true as
well: pieces of this kind come back when they are put together with separators between them and the
result is cut.

Main definitions:

* `Nesting.IsPlain` — a character that neither opens nor closes anything;
* `Text.Uncut`, `Text.Closed` — a text holds no place to cut, and leaves nothing open;
* `Text.Splits`, `Text.IsRow` — a text with its pieces, and pieces that can be told apart;
* `Text.join` — pieces with a separator between them.

Main results:

* `Text.splitOutside_eq_iff` — **what a text is cut into**;
* `Text.Splits.isRow`, `Text.isRow_splitWords` — the pieces of a text can be told apart;
* `Text.splitFields_join`, `Text.splitWords_join` — **what is put together is taken apart again**.
-/

import WordMachine.Proofs.Text.Cutting
import Mathlib.Data.List.Basic
import Mathlib.Data.List.TakeWhile

set_option relaxedAutoImplicit false
set_option autoImplicit false

namespace WordMachine

/-! ### Plain characters -/

namespace Nesting

variable {c : Char} {s : Text}

/-- A character that neither opens nor closes anything. -/
structure IsPlain (c : Char) : Prop where
  quote : c ≠ '"'
  opening : c ≠ '['
  closing : c ≠ ']'

theorem IsPlain.after_eq (h : IsPlain c) (n : Nesting) : n.after c = n := by
  obtain ⟨quoted, brackets⟩ := n
  simp [after, h.quote, h.opening, h.closing]

theorem foldl_after_of_isPlain (h : ∀ c ∈ s, IsPlain c) (n : Nesting) : s.foldl after n = n := by
  induction s with
  | nil => rfl
  | cons c s ih =>
      obtain ⟨hc, hs⟩ := List.forall_mem_cons.1 h
      rw [List.foldl_cons, hc.after_eq, ih hs]

theorem isPlain_of_isBlank (h : Text.isBlank c) : IsPlain c :=
  ⟨Text.ne_of_isBlank h rfl, Text.ne_of_isBlank h rfl, Text.ne_of_isBlank h rfl⟩

theorem isPlain_comma : IsPlain ',' := ⟨by decide, by decide, by decide⟩

theorem isClosed_iff {n : Nesting} : n.isClosed ↔ n = start := by
  obtain ⟨quoted, brackets⟩ := n
  simp [isClosed, start]

end Nesting

namespace Text

open Nesting

variable {isSeparator isSeparator' : Char → Bool} {n : Nesting} {s t x y : Text} {c : Char}
  {xs ys : List Text}

/-! ### Texts that are not cut -/

/-- No separator of the text stands where nothing is open. -/
def Uncut (isSeparator : Char → Bool) : Nesting → Text → Prop
  | _, [] => True
  | n, c :: s => (isSeparator c && (n.after c).isClosed) = false ∧ Uncut isSeparator (n.after c) s

/-- After the text, nothing is open. -/
def Closed (s : Text) : Prop := s.foldl after .start = .start

theorem uncut_append :
    Uncut isSeparator n (s ++ t) ↔
      Uncut isSeparator n s ∧ Uncut isSeparator (s.foldl after n) t := by
  induction s generalizing n with
  | nil => exact (and_iff_right trivial).symm
  | cons c s ih =>
      rw [List.cons_append, List.foldl_cons, Uncut, Uncut, ih, and_assoc]

theorem uncut_of_forall (h : ∀ c ∈ s, isSeparator c = false) (n : Nesting) :
    Uncut isSeparator n s := by
  induction s generalizing n with
  | nil => exact trivial
  | cons c s ih =>
      obtain ⟨hc, hs⟩ := List.forall_mem_cons.1 h
      exact ⟨by rw [hc]; rfl, ih hs _⟩

/-- Plain characters are no place to cut where something is open. -/
theorem uncut_of_isPlain (h : ∀ c ∈ s, IsPlain c) (hn : n.isClosed = false) :
    Uncut isSeparator n s := by
  induction s with
  | nil => exact trivial
  | cons c s ih =>
      obtain ⟨hc, hs⟩ := List.forall_mem_cons.1 h
      rw [Uncut, hc.after_eq, hn, Bool.and_false]
      exact ⟨rfl, ih hs⟩

theorem splitOutside_of_uncut (h : Uncut isSeparator n s) : splitOutside isSeparator n s = [s] := by
  induction s generalizing n with
  | nil => rfl
  | cons c s ih =>
      rw [splitOutside, ih h.2]
      dsimp only
      rw [h.1]
      rfl

/-- A text is cut behind a front that is not. -/
theorem splitOutside_append_of_uncut (h : Uncut isSeparator n s) (hc : isSeparator c)
    (hn : ((s.foldl after n).after c).isClosed) (t : Text) :
    splitOutside isSeparator n (s ++ c :: t) =
      s :: splitOutside isSeparator ((s.foldl after n).after c) t := by
  induction s generalizing n with
  | nil =>
      rw [List.foldl_nil] at hn
      rw [List.nil_append, splitOutside, hc, List.foldl_nil, hn]
      rfl
  | cons d s ih =>
      rw [List.cons_append, splitOutside, ih h.2 hn]
      dsimp only
      rw [h.1]
      rfl

/-- A text is not cut, or has a front that is not and the place of the first cut behind it. -/
theorem uncut_or_exists (isSeparator : Char → Bool) (n : Nesting) (s : Text) :
    Uncut isSeparator n s ∨ ∃ x c t, s = x ++ c :: t ∧ Uncut isSeparator n x ∧ isSeparator c ∧
      ((x.foldl after n).after c).isClosed := by
  induction s generalizing n with
  | nil => exact .inl trivial
  | cons c s ih =>
      cases hcut : isSeparator c && (n.after c).isClosed with
      | true =>
          obtain ⟨hc, hclosed⟩ := Bool.and_eq_true_iff.1 hcut
          exact .inr ⟨[], c, s, rfl, trivial, hc, hclosed⟩
      | false =>
          rcases ih (n.after c) with hs | ⟨x, d, t, rfl, hx, hd, hclosed⟩
          · exact .inl ⟨hcut, hs⟩
          · exact .inr ⟨c :: x, d, t, rfl, ⟨hcut, hx⟩, hd, hclosed⟩

/-! ### Pieces -/

/-- **A text and its pieces.** -/
inductive Splits (isSeparator : Char → Bool) : Text → List Text → Prop
  | last {s : Text} (h : Uncut isSeparator .start s) : Splits isSeparator s [s]
  | cut {x t : Text} {c : Char} {xs : List Text} (hx : Uncut isSeparator .start x)
      (hclosed : Closed x) (hc : isSeparator c) (h : Splits isSeparator t xs) :
      Splits isSeparator (x ++ c :: t) (x :: xs)

/-- **Pieces that can be told apart**: no piece is cut, and only the last one may leave anything
open. -/
structure IsRow (isSeparator : Char → Bool) (xs : List Text) : Prop where
  uncut : ∀ x ∈ xs, Uncut isSeparator .start x
  closed : xs.Pairwise fun x _ => Closed x

/-- The separators that are used are plain characters. -/
structure IsSeparation (isSeparator : Char → Bool) : Prop where
  plain : ∀ c, isSeparator c → IsPlain c

theorem isSeparation_isBlank : IsSeparation isBlank := ⟨fun _ hc => isPlain_of_isBlank hc⟩

theorem isSeparation_comma : IsSeparation (· == ',') := by
  refine ⟨?_⟩
  intro c hc
  rw [beq_iff_eq] at hc
  rw [hc]
  exact isPlain_comma

namespace IsSeparation

variable (hplain : IsSeparation isSeparator)
include hplain

/-- The first cut is behind a piece that leaves nothing open. -/
theorem after_eq_start (hc : isSeparator c) (h : ((x.foldl after .start).after c).isClosed) :
    Closed x ∧ (x.foldl after .start).after c = .start := by
  rw [isClosed_iff] at h
  rw [(hplain.plain c hc).after_eq] at h ⊢
  exact ⟨h, h⟩

theorem splits_splitOutside (s : Text) :
    Splits isSeparator s (splitOutside isSeparator .start s) := by
  induction hlen : s.length using Nat.strongRecOn generalizing s with
  | ind k ih =>
      subst hlen
      rcases uncut_or_exists isSeparator .start s with hs | ⟨x, c, t, rfl, hx, hc, hclosed⟩
      · rw [splitOutside_of_uncut hs]
        exact .last hs
      · obtain ⟨hx', hstart⟩ := hplain.after_eq_start hc hclosed
        rw [splitOutside_append_of_uncut hx hc hclosed, hstart]
        refine .cut hx hx' hc (ih t.length ?_ t rfl)
        rw [List.length_append, List.length_cons]
        omega

/-- **What a text is cut into.** -/
theorem splitOutside_eq_iff : splitOutside isSeparator .start s = xs ↔ Splits isSeparator s xs := by
  constructor
  · rintro rfl
    exact hplain.splits_splitOutside s
  · intro h
    induction h with
    | last h => exact splitOutside_of_uncut h
    | @cut x t c xs hx hclosed hc _ ih =>
        have hstart : (x.foldl after .start).after c = .start := by
          rw [hclosed, (hplain.plain c hc).after_eq]
        rw [splitOutside_append_of_uncut hx hc (by rw [hstart]; rfl), hstart, ih]

/-- What is not cut at other separators is not cut there between these. -/
theorem uncut_of_splits (h : Splits isSeparator s xs) (hs : Uncut isSeparator' .start s) :
    ∀ x ∈ xs, Uncut isSeparator' .start x := by
  induction h with
  | last => exact List.forall_mem_singleton.2 hs
  | @cut x t c xs hx hclosed hc _ ih =>
      obtain ⟨hfront, hrest⟩ := uncut_append.1 hs
      rw [hclosed] at hrest
      have ht := hrest.2
      rw [(hplain.plain c hc).after_eq] at ht
      exact List.forall_mem_cons.2 ⟨hfront, ih ht⟩

end IsSeparation

theorem Splits.isRow (h : Splits isSeparator s xs) : IsRow isSeparator xs := by
  induction h with
  | last h => exact ⟨List.forall_mem_singleton.2 h, List.pairwise_singleton _ _⟩
  | cut hx hclosed _ _ ih =>
      exact ⟨List.forall_mem_cons.2 ⟨hx, ih.uncut⟩,
        List.pairwise_cons.2 ⟨fun _ _ => hclosed, ih.closed⟩⟩

/-! ### White space around a text -/

theorem trim_append_takeWhile (s : Text) :
    s.trim ++ (s.trimStart.reverse.takeWhile isBlank).reverse = s.trimStart := by
  rw [trim, trimEnd, ← List.reverse_append, List.takeWhile_append_dropWhile, List.reverse_reverse]

/-- A text is itself without the white space around it, and that white space. -/
theorem exists_trim (s : Text) :
    ∃ w w', s = w ++ s.trim ++ w' ∧ (∀ c ∈ w, isBlank c) ∧ ∀ c ∈ w', isBlank c := by
  refine ⟨s.takeWhile isBlank, (s.trimStart.reverse.takeWhile isBlank).reverse, ?_, ?_, ?_⟩
  · rw [List.append_assoc, trim_append_takeWhile, trimStart, List.takeWhile_append_dropWhile]
  · exact fun c hc => List.mem_takeWhile_imp hc
  · exact fun c hc => List.mem_takeWhile_imp (List.mem_reverse.1 hc)

/-- A text **without white space at its ends**. -/
structure IsTrimmed (s : Text) : Prop where
  head : ∀ c ∈ s.head?, isBlank c = false
  last : ∀ c ∈ s.getLast?, isBlank c = false

theorem IsTrimmed.trim_eq (h : s.IsTrimmed) : s.trim = s := trim_eq_self h.head h.last

theorem isTrimmed_nil : IsTrimmed [] := ⟨nofun, nofun⟩

theorem isTrimmed_of_notBlank (h : ∀ c ∈ s, isBlank c = false) : s.IsTrimmed :=
  ⟨fun c hc => h c (List.mem_of_mem_head? hc), fun c hc => h c (List.mem_of_mem_getLast? hc)⟩

theorem isBlank_head?_dropWhile (s : Text) :
    ∀ c ∈ (s.dropWhile isBlank).head?, isBlank c = false := by
  intro c hc
  have hnot := List.head?_dropWhile_not isBlank s
  rw [Option.mem_def.1 hc] at hnot
  exact hnot

theorem isTrimmed_trim (s : Text) : s.trim.IsTrimmed where
  head := by
    intro c hc
    refine isBlank_head?_dropWhile s c ?_
    rw [← trimStart, ← trim_append_takeWhile, List.head?_append, Option.mem_def.1 hc]
    rfl
  last := by
    intro c hc
    rw [trim, trimEnd, List.getLast?_reverse] at hc
    exact isBlank_head?_dropWhile _ c hc

theorem mem_of_mem_trim (h : c ∈ s.trim) : c ∈ s := by
  obtain ⟨w, w', hs, -, -⟩ := exists_trim s
  rw [hs]
  exact List.mem_append_left _ (List.mem_append_right _ h)

theorem closed_trim : Closed s.trim ↔ Closed s := by
  obtain ⟨w, w', hs, hw, hw'⟩ := exists_trim s
  conv_rhs => rw [hs]
  rw [Closed, Closed, List.foldl_append, List.foldl_append,
    foldl_after_of_isPlain fun c hc => isPlain_of_isBlank (hw c hc),
    foldl_after_of_isPlain fun c hc => isPlain_of_isBlank (hw' c hc)]

theorem Uncut.trim (h : Uncut isSeparator .start s) : Uncut isSeparator .start s.trim := by
  obtain ⟨w, w', hs, hw, -⟩ := exists_trim s
  rw [hs, uncut_append, uncut_append,
    foldl_after_of_isPlain fun c hc => isPlain_of_isBlank (hw c hc)] at h
  exact h.1.2

/-- White space around a text adds no place to cut at other separators. -/
theorem uncut_of_trim (hblank : ∀ c, isBlank c → isSeparator c = false)
    (h : Uncut isSeparator .start s.trim) : Uncut isSeparator .start s := by
  obtain ⟨w, w', hs, hw, hw'⟩ := exists_trim s
  rw [hs, uncut_append, uncut_append,
    foldl_after_of_isPlain fun c hc => isPlain_of_isBlank (hw c hc)]
  exact ⟨⟨uncut_of_forall (fun c hc => hblank c (hw c hc)) _, h⟩,
    uncut_of_forall (fun c hc => hblank c (hw' c hc)) _⟩

/-- At the ends of a text that leaves nothing open, white space is a place to cut. -/
theorem Uncut.isTrimmed (h : Uncut isBlank .start s) (hclosed : Closed s) : s.IsTrimmed where
  head := by
    intro c hc
    obtain ⟨t, rfl⟩ := List.head?_eq_some_iff.1 (Option.mem_def.1 hc)
    by_contra hblank
    rw [Bool.not_eq_false] at hblank
    have hcut := h.1
    rw [hblank, (isPlain_of_isBlank hblank).after_eq] at hcut
    cases hcut
  last := by
    intro c hc
    obtain ⟨t, rfl⟩ := List.getLast?_eq_some_iff.1 (Option.mem_def.1 hc)
    by_contra hblank
    rw [Bool.not_eq_false] at hblank
    have hcut := (uncut_append.1 h).2.1
    rw [Closed, List.foldl_append, List.foldl_cons, List.foldl_nil] at hclosed
    rw [hblank, hclosed] at hcut
    cases hcut

theorem IsRow.map_trim (h : IsRow isSeparator xs) : IsRow isSeparator (xs.map trim) where
  uncut := by
    intro x hx
    obtain ⟨y, hy, rfl⟩ := List.mem_map.1 hx
    exact (h.uncut y hy).trim
  closed := List.pairwise_map.2 (h.closed.imp fun hx => closed_trim.2 hx)

/-! ### Fields and words -/

/-- The fields of a text are its pieces without the white space around them. -/
theorem splitFields_cases (separator : Char) (s : Text) :
    splitFields separator s = [] ∨
      splitFields separator s = (splitOutside (· == separator) .start s).map trim := by
  rw [splitFields]
  split
  · exact .inl rfl
  · exact .inr rfl

theorem IsRow.filter (h : IsRow isSeparator xs) (p : Text → Bool) :
    IsRow isSeparator (xs.filter p) :=
  ⟨fun x hx => h.uncut x (List.mem_filter.1 hx).1, h.closed.filter p⟩

theorem isRow_splitWords (s : Text) : IsRow isBlank (splitWords s) :=
  (isSeparation_isBlank.splits_splitOutside s).isRow.filter _

/-! ### Putting together -/

/-- Pieces with a separator between them. -/
def join (separator : Text) : List Text → Text
  | [] => []
  | x :: xs => x ++ xs.flatMap (separator ++ ·)

theorem join_singleton (separator x : Text) : join separator [x] = x := List.append_nil x

theorem join_pair (separator x y : Text) : join separator [x, y] = x ++ (separator ++ y) := by
  simp [join]

/-- Pieces that can be told apart are those of the text that is put together from them.  The padding
behind a separator belongs to the next piece. -/
theorem splits_join {pad : Text} (hc : isSeparator c)
    (hpad : ∀ d ∈ pad, IsPlain d ∧ isSeparator d = false) (h : IsRow isSeparator (x :: xs)) :
    Splits isSeparator (join (c :: pad) (x :: xs)) (x :: xs.map (pad ++ ·)) := by
  induction xs generalizing x with
  | nil =>
      rw [join_singleton]
      exact .last (h.uncut x List.mem_cons_self)
  | cons y xs ih =>
      obtain ⟨hx, hrest⟩ := List.forall_mem_cons.1 h.uncut
      obtain ⟨hy, hxs⟩ := List.forall_mem_cons.1 hrest
      obtain ⟨hclosed, hclosed'⟩ := List.pairwise_cons.1 h.closed
      obtain ⟨hycl, hxscl⟩ := List.pairwise_cons.1 hclosed'
      have hfold : pad.foldl after .start = .start :=
        foldl_after_of_isPlain (fun d hd => (hpad d hd).1) _
      have hrow : IsRow isSeparator ((pad ++ y) :: xs) := by
        refine ⟨List.forall_mem_cons.2 ⟨uncut_append.2 ⟨?_, ?_⟩, hxs⟩,
          List.pairwise_cons.2 ⟨?_, hxscl⟩⟩
        · exact uncut_of_forall (fun d hd => (hpad d hd).2) _
        · rw [hfold]
          exact hy
        · intro z hz
          rw [Closed, List.foldl_append, hfold]
          exact hycl z hz
      have hjoin :
          join (c :: pad) (x :: y :: xs) = x ++ c :: join (c :: pad) ((pad ++ y) :: xs) := by
        simp [join]
      rw [hjoin]
      exact .cut hx (hclosed y List.mem_cons_self) hc (ih hrow)

/-- **Fields that are put together are taken apart again.** -/
theorem splitFields_join (h : IsRow (· == ',') xs) (htrim : ∀ x ∈ xs, x.IsTrimmed)
    (hne : ∀ x ∈ xs, x ≠ []) : splitFields ',' (join [',', ' '] xs) = xs := by
  cases xs with
  | nil => rfl
  | cons x xs =>
      obtain ⟨hx, hxs⟩ := List.forall_mem_cons.1 htrim
      have hsplits : Splits (· == ',') (join [',', ' '] (x :: xs)) (x :: xs.map ([' '] ++ ·)) :=
        splits_join rfl (List.forall_mem_singleton.2 ⟨isPlain_of_isBlank rfl, rfl⟩) h
      have htrims : (x :: xs.map ([' '] ++ ·)).map trim = x :: xs := by
        rw [List.map_cons, hx.trim_eq, List.map_map]
        congr 1
        refine List.map_congr_left ?_ |>.trans (List.map_id xs)
        exact fun y hy => (hxs y hy).trim_eq
      rw [splitFields, isSeparation_comma.splitOutside_eq_iff.2 hsplits, htrims]
      split
      · rename_i heq
        exact absurd (List.cons.inj heq).1 (hne x List.mem_cons_self)
      · rfl

/-- A text without a comma to cut at is its own field. -/
theorem splitFields_of_uncut (h : Uncut (· == ',') .start s) (htrim : s.IsTrimmed) (hne : s ≠ []) :
    splitFields ',' s = [s] := by
  have hrow : IsRow (· == ',') [s] := ⟨List.forall_mem_singleton.2 h, List.pairwise_singleton _ _⟩
  have hfields := splitFields_join hrow (List.forall_mem_singleton.2 htrim)
    (List.forall_mem_singleton.2 hne)
  rwa [join_singleton] at hfields

/-- **Words that are put together are taken apart again.** -/
theorem splitWords_join (h : IsRow isBlank xs) (hne : ∀ x ∈ xs, x ≠ []) :
    splitWords (join [' '] xs) = xs := by
  cases xs with
  | nil => rfl
  | cons x xs =>
      have hsplits : Splits isBlank (join [' '] (x :: xs)) (x :: xs.map ([] ++ ·)) :=
        splits_join rfl nofun h
      have hpad : xs.map (([] : Text) ++ ·) = xs := List.map_id xs
      rw [splitWords, isSeparation_isBlank.splitOutside_eq_iff.2 hsplits, hpad, List.filter_eq_self]
      intro y hy
      simpa using hne y hy

theorem mem_of_mem_join {separator : Text} (h : c ∈ join separator xs) :
    c ∈ separator ∨ ∃ x ∈ xs, c ∈ x := by
  cases xs with
  | nil => cases h
  | cons x xs =>
      rcases List.mem_append.1 h with h | h
      · exact .inr ⟨x, List.mem_cons_self, h⟩
      · obtain ⟨y, hy, hc⟩ := List.mem_flatMap.1 h
        rcases List.mem_append.1 hc with hc | hc
        · exact .inl hc
        · exact .inr ⟨y, List.mem_cons_of_mem _ hy, hc⟩

theorem join_cons_cons (separator x y : Text) (xs : List Text) :
    join separator (x :: y :: xs) = x ++ (separator ++ join separator (y :: xs)) := by
  simp [join]

theorem isTrimmed_join {separator : Text} (htrim : ∀ x ∈ xs, x.IsTrimmed) (hne : ∀ x ∈ xs, x ≠ []) :
    (join separator xs).IsTrimmed := by
  cases xs with
  | nil => exact isTrimmed_nil
  | cons x xs =>
      induction xs generalizing x with
      | nil =>
          rw [join_singleton]
          exact htrim x List.mem_cons_self
      | cons y xs ih =>
          obtain ⟨hx, htrim⟩ := List.forall_mem_cons.1 htrim
          obtain ⟨hxne, hne⟩ := List.forall_mem_cons.1 hne
          have hrest := ih y htrim hne
          have hrestne : join separator (y :: xs) ≠ [] :=
            List.append_ne_nil_of_left_ne_nil (hne y List.mem_cons_self) _
          rw [join_cons_cons]
          constructor
          · intro c hc
            rw [List.head?_append_of_ne_nil _ hxne] at hc
            exact hx.head c hc
          · intro c hc
            rw [← List.append_assoc, List.getLast?_append_of_ne_nil _ hrestne] at hc
            exact hrest.last c hc

/-- What is not cut at other separators is not cut there when it is put together. -/
theorem uncut_join (hplain : IsPlain c) (hc : isSeparator c = false)
    (h : IsRow isSeparator xs) : Uncut isSeparator .start (join [c] xs) := by
  cases xs with
  | nil => exact trivial
  | cons x xs =>
      induction xs generalizing x with
      | nil =>
          rw [join_singleton]
          exact h.uncut x List.mem_cons_self
      | cons y xs ih =>
          obtain ⟨hx, hrest⟩ := List.forall_mem_cons.1 h.uncut
          obtain ⟨hclosed, hclosed'⟩ := List.pairwise_cons.1 h.closed
          have hfold : x.foldl after .start = .start := hclosed y List.mem_cons_self
          rw [join_cons_cons, uncut_append, hfold, List.singleton_append, Uncut,
            hplain.after_eq, hc]
          exact ⟨hx, rfl, ih y ⟨hrest, hclosed'⟩⟩

end Text

end WordMachine
