/-
**Letter case.**

Only letters have a letter case, and a letter changes its case into another letter.  So a character
that stands before all letters is in a text in upper case exactly if it is in the text itself: white
space, quotes, points, colons and semicolons stay where they are.

Main results:

* `Text.toNat_toUpper`, `Text.toNat_toLower` — the codes of letters;
* `Text.toUpper_eq_iff`, `Text.mem_upper_iff` — characters before all letters;
* `Text.upper_upper` — upper case stays as it is;
* `Text.trim_upper` — white space and letter case do not meet.
-/

import WordMachine.Text.Basic

set_option relaxedAutoImplicit false
set_option autoImplicit false

namespace WordMachine.Text

variable {c d : Char} {s : Text}

theorem toNat_toUpper (c : Char) :
    c.toUpper.toNat = if 97 ≤ c.toNat ∧ c.toNat ≤ 122 then c.toNat - 32 else c.toNat := by
  have hcond : ('a'.val ≤ c.val ∧ c.val ≤ 'z'.val) ↔ 97 ≤ c.toNat ∧ c.toNat ≤ 122 := Iff.rfl
  have hshift : ('A'.val - 'a'.val).toNat = 2 ^ 32 - 32 := by decide
  unfold Char.toUpper
  split
  · rename_i h
    have hcode : (c.val + ('A'.val - 'a'.val)).toNat = c.toNat - 32 := by
      have hle := (hcond.1 h)
      rw [UInt32.toNat_add, hshift]
      rw [Char.toNat] at hle ⊢
      omega
    rw [if_pos (hcond.1 h)]
    exact hcode
  · rename_i h
    rw [if_neg (mt hcond.2 h)]

theorem toNat_toLower (c : Char) :
    c.toLower.toNat = if 65 ≤ c.toNat ∧ c.toNat ≤ 90 then c.toNat + 32 else c.toNat := by
  have hcond : ('A'.val ≤ c.val ∧ c.val ≤ 'Z'.val) ↔ 65 ≤ c.toNat ∧ c.toNat ≤ 90 := Iff.rfl
  have hshift : ('a'.val - 'A'.val).toNat = 32 := by decide
  unfold Char.toLower
  split
  · rename_i h
    have hcode : (c.val + ('a'.val - 'A'.val)).toNat = c.toNat + 32 := by
      have hle := (hcond.1 h)
      rw [UInt32.toNat_add, hshift]
      rw [Char.toNat] at hle ⊢
      omega
    rw [if_pos (hcond.1 h)]
    exact hcode
  · rename_i h
    rw [if_neg (mt hcond.2 h)]

/-- A character that stands before all letters has no letter case. -/
theorem toUpper_of_lt (hc : c.toNat < 65) : c.toUpper = c := by
  rw [← Char.toNat_inj, toNat_toUpper, if_neg (by omega)]

theorem toLower_of_lt (hc : c.toNat < 65) : c.toLower = c := by
  rw [← Char.toNat_inj, toNat_toLower, if_neg (by omega)]

/-- A letter changes its case into another letter. -/
theorem toUpper_eq_iff (hd : d.toNat < 65) : c.toUpper = d ↔ c = d := by
  rw [← Char.toNat_inj, ← Char.toNat_inj, toNat_toUpper]
  split
  · omega
  · rfl

/-- A character with the given lower case is that letter, in either case. -/
theorem eq_or_eq_of_toLower (h : c.toLower = d) : c = d ∨ c = d.toUpper := by
  subst h
  by_cases hc : 65 ≤ c.toNat ∧ c.toNat ≤ 90
  · refine .inr (Char.toNat_inj.1 ?_)
    rw [toNat_toUpper, toNat_toLower, if_pos hc, if_pos (by omega), Nat.add_sub_cancel]
  · refine .inl (Char.toNat_inj.1 ?_)
    rw [toNat_toLower, if_neg hc]

/-- **Upper case stays as it is.** -/
@[simp] theorem upper_upper (s : Text) : s.upper.upper = s.upper := by
  rw [upper, upper, List.map_map]
  refine List.map_congr_left fun c _ => ?_
  rw [Function.comp_apply, ← Char.toNat_inj, toNat_toUpper c.toUpper, toNat_toUpper]
  split
  · rw [if_neg (by omega)]
  · rfl

theorem mem_upper_iff (hd : d.toNat < 65) : d ∈ s.upper ↔ d ∈ s := by
  simp [upper, toUpper_eq_iff hd]

theorem isBlank_toUpper (h : isBlank c = false) : isBlank c.toUpper = false := by
  simp only [isBlank, isBlankCode, Bool.or_eq_false_iff, Bool.and_eq_false_iff, beq_eq_false_iff_ne,
    decide_eq_false_iff_not, toNat_toUpper] at h ⊢
  split
  · omega
  · exact h

/-- A character is white space in upper case exactly if it is itself. -/
theorem isBlank_toUpper_eq (c : Char) : isBlank c.toUpper = isBlank c := by
  cases h : isBlank c with
  | false => exact isBlank_toUpper h
  | true =>
      have hcode : c.toNat < 65 := by
        simp only [isBlank, isBlankCode, Bool.or_eq_true, Bool.and_eq_true, beq_iff_eq,
          decide_eq_true_eq] at h
        omega
      rw [toUpper_of_lt hcode, h]

/-- A text may be put in upper case before or after it is trimmed. -/
theorem trim_upper (s : Text) : s.upper.trim = s.trim.upper := by
  have hblank : isBlank ∘ Char.toUpper = isBlank := funext isBlank_toUpper_eq
  simp only [trim, trimEnd, trimStart, upper, List.dropWhile_map, ← List.map_reverse, hblank]

end WordMachine.Text
