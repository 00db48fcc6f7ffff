/-
**What is cut from a text.**

Trimming a text removes white space only, and cutting it at commas or at white space removes nothing
but the separators and the white space around them.  Every other character stays, in its place: what
is left of a text without its white space and its commas is the same before and after.

Main definitions:

* `Text.visible` — a text without its white space and its commas.

Main results:

* `Text.takeWhile_append_of_head`, `Text.dropWhile_append_of_head` — a front and what follows it;
* `Text.takeWhile_bne_append`, `Text.dropWhile_bne_append` — a front that ends at a character;
* `Text.trim_eq_self` — a text without white space at either end;
* `Text.filter_trim` — trimming keeps what is not white space;
* `Text.mem_trim_iff`, `Text.length_trim_le` — what that says about a character, and the length;
* `Text.visible_splitFields`, `Text.visible_splitWords` — **cutting keeps what is visible**.
-/

import WordMachine.Text.Split
import Mathlib.Data.List.TakeWhile

set_option relaxedAutoImplicit false
set_option autoImplicit false

namespace WordMachine.Text

variable {s t : Text} {c : Char} {p isSeparator : Char → Bool}

/-! ### The front of a text -/

section Front

variable {α : Type} {s t : List α} {p : α → Bool}

/-- A front is taken up to the first element that does not belong to it. -/
theorem takeWhile_append_of_head (hs : ∀ c ∈ s, p c) (ht : ∀ c ∈ t.head?, p c = false) :
    (s ++ t).takeWhile p = s := by
  rw [List.takeWhile_append_of_pos hs]
  cases t with
  | nil => simp
  | cons c t => rw [List.takeWhile_cons_of_neg (by simp [ht c rfl]), List.append_nil]

theorem dropWhile_append_of_head (hs : ∀ c ∈ s, p c) (ht : ∀ c ∈ t.head?, p c = false) :
    (s ++ t).dropWhile p = t := by
  rw [List.dropWhile_append_of_pos hs]
  cases t with
  | nil => rfl
  | cons c t => rw [List.dropWhile_cons_of_neg (by simp [ht c rfl])]

end Front

/-! ### Up to a character -/

theorem bne_of_not_mem (h : c ∉ s) : ∀ d ∈ s, (d != c) = true := by
  intro d hd
  rw [bne_iff_ne]
  rintro rfl
  exact h hd

theorem takeWhile_bne_eq_self (h : c ∉ s) : s.takeWhile (· != c) = s :=
  List.takeWhile_eq_self_iff.2 (bne_of_not_mem h)

theorem takeWhile_bne_append (h : c ∉ s) (t : Text) : (s ++ c :: t).takeWhile (· != c) = s :=
  takeWhile_append_of_head (bne_of_not_mem h) (by simp)

theorem dropWhile_bne_append (h : c ∉ s) (t : Text) : (s ++ c :: t).dropWhile (· != c) = c :: t :=
  dropWhile_append_of_head (bne_of_not_mem h) (by simp)

/-! ### Trimming -/

theorem ne_of_isBlank {c d : Char} (hc : isBlank c) (hd : isBlank d = false) : c ≠ d := by
  rintro rfl
  exact Bool.noConfusion (hc.symm.trans hd)

/-- Characters at the front that are left out anyway can be dropped first. -/
theorem filter_dropWhile {q : Char → Bool} (hp : ∀ c, q c → p c = false) (s : Text) :
    (s.dropWhile q).filter p = s.filter p := by
  induction s with
  | nil => rfl
  | cons c s ih =>
      by_cases hc : q c
      · rw [List.dropWhile_cons_of_pos hc, ih, List.filter_cons_of_neg (by simp [hp c hc])]
      · rw [List.dropWhile_cons_of_neg hc]

/-- **Trimming keeps what is not white space.** -/
theorem filter_trim (hp : ∀ c, isBlank c → p c = false) (s : Text) :
    s.trim.filter p = s.filter p := by
  rw [trim, trimEnd, List.filter_reverse, filter_dropWhile hp, ← List.filter_reverse,
    List.reverse_reverse, trimStart, filter_dropWhile hp]

theorem mem_trim_iff (hc : isBlank c = false) : c ∈ s.trim ↔ c ∈ s := by
  have hfilter : s.trim.filter (!isBlank ·) = s.filter (!isBlank ·) :=
    filter_trim (fun d hd => by simp [hd]) s
  have hmem : ∀ t : Text, c ∈ t.filter (!isBlank ·) ↔ c ∈ t := by simp [hc]
  rw [← hmem, hfilter, hmem]

theorem length_trim_le (s : Text) : s.trim.length ≤ s.length := by
  have hend : s.trim.length ≤ s.trimStart.length := by
    have hreverse := (List.dropWhile_suffix (l := s.trimStart.reverse) isBlank).length_le
    rw [List.length_reverse] at hreverse
    rwa [trim, trimEnd, List.length_reverse]
  exact Nat.le_trans hend (List.dropWhile_suffix _).length_le

theorem dropWhile_isBlank_eq_self (h : ∀ c ∈ s.head?, isBlank c = false) :
    s.dropWhile isBlank = s := by
  cases s with
  | nil => rfl
  | cons c s => rw [List.dropWhile_cons_of_neg (by simp [h c rfl])]

/-- A text without white space at either end. -/
theorem trim_eq_self (hhead : ∀ c ∈ s.head?, isBlank c = false)
    (hlast : ∀ c ∈ s.getLast?, isBlank c = false) : s.trim = s := by
  rw [trim, trimStart, dropWhile_isBlank_eq_self hhead, trimEnd,
    dropWhile_isBlank_eq_self (by simpa using hlast), List.reverse_reverse]

theorem trim_of_notBlank (h : ∀ c ∈ s, isBlank c = false) : s.trim = s :=
  trim_eq_self (fun c hc => h c (List.mem_of_mem_head? hc))
    fun c hc => h c (List.mem_of_mem_getLast? hc)

theorem trimEnd_append {w : Text} (h : ∀ c ∈ w, isBlank c) (s : Text) :
    trimEnd (s ++ w) = trimEnd s := by
  have hreverse : ∀ c ∈ w.reverse, isBlank c := fun c hc => h c (List.mem_reverse.1 hc)
  rw [trimEnd, List.reverse_append, List.dropWhile_append_of_pos hreverse, trimEnd]

/-- White space at the end is cut off, whatever stands before it. -/
theorem trim_append {w : Text} (h : ∀ c ∈ w, isBlank c) (s : Text) : trim (s ++ w) = trim s := by
  rw [trim, trimStart, List.dropWhile_append]
  split
  · rename_i hs
    have hnil : s.dropWhile isBlank = [] := List.isEmpty_iff.1 hs
    rw [List.dropWhile_eq_nil_iff.2 h, trim, trimStart, hnil]
  · exact trimEnd_append h _

theorem trim_append_left {w : Text} (h : ∀ c ∈ w, isBlank c) (s : Text) :
    trim (w ++ s) = trim s := by
  rw [trim, trimStart, List.dropWhile_append_of_pos h, trim, trimStart]

/-- A text without white space has none at its ends. -/
theorem notBlank_of_hasBlank (h : s.hasBlank = false) : ∀ c ∈ s, isBlank c = false := by
  simpa [hasBlank] using h

/-! ### Cutting -/

/-- **A text without its white space and its commas.** -/
def visible (s : Text) : Text := s.filter fun c => !isBlank c && c != ','

theorem visible_append (s t : Text) : visible (s ++ t) = visible s ++ visible t :=
  List.filter_append ..

theorem visible_flatten (pieces : List Text) : visible pieces.flatten = pieces.flatMap visible := by
  rw [visible, List.filter_flatten]
  rfl

theorem visible_trim (s : Text) : visible s.trim = visible s :=
  filter_trim (fun c hc => by simp [hc]) s

/-- The pieces hold every character that is no separator. -/
theorem visible_splitOutside (hsep : ∀ c, isSeparator c → visible [c] = []) (n : Nesting)
    (s : Text) : (splitOutside isSeparator n s).flatMap visible = visible s := by
  induction s generalizing n with
  | nil => rfl
  | cons c s ih =>
      have hcons : visible (c :: s) = visible [c] ++ visible s := visible_append [c] s
      rw [splitOutside, hcons, ← ih (n.after c)]
      split
      · rename_i hcut
        rw [hsep c (Bool.and_eq_true_iff.1 hcut).1]
        rfl
      · split
        · rename_i hpieces
          rw [hpieces]
          rfl
        · rename_i piece pieces hpieces
          rw [hpieces, List.flatMap_cons, List.flatMap_cons, ← List.append_assoc]
          exact congrArg (· ++ _) (visible_append [c] piece)

/-- **Cutting a text into fields keeps what is visible.** -/
theorem visible_splitFields (s : Text) : (splitFields ',' s).flatMap visible = visible s := by
  have hpieces : ((splitOutside (· == ',') .start s).map trim).flatMap visible = visible s := by
    rw [List.flatMap_map]
    simp only [visible_trim]
    refine visible_splitOutside ?_ _ s
    intro c hc
    simp [visible, beq_iff_eq.1 hc]
  rw [splitFields]
  split
  · rename_i hempty
    rw [← hpieces, hempty]
    rfl
  · exact hpieces

/-- **Cutting a text into words keeps what is visible.** -/
theorem visible_splitWords (s : Text) : s.splitWords.flatMap visible = visible s := by
  rw [splitWords, ← visible_flatten, List.flatten_filter_not_isEmpty, visible_flatten]
  refine visible_splitOutside ?_ _ s
  intro c hc
  simp [visible, hc]

/-- The words of all fields hold what is visible. -/
theorem visible_words (s : Text) :
    ((splitFields ',' s).flatMap splitWords).flatMap visible = visible s := by
  rw [List.flatMap_assoc]
  simp only [visible_splitWords, visible_splitFields]

end WordMachine.Text
