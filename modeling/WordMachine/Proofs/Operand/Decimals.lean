/-
**Operands that are decimal numerals.**

A decimal numeral is read as an operand by way of its nearest binary64 number, and in square brackets
by an accumulator.  The two agree on every numeral of 32 bits, since binary64 numbers include all
integers of 53 bits; and a larger numeral is never rounded below the largest word, since that is a
binary64 number itself.  So a numeral of any length, with any number of leading zeros, is its own
value or, if that is out of range, the largest word.

Main results:

* `Operand.parse_signed` — a numeral with a sign is read by way of any correct rounding;
* `Operand.parse_decimal` — **a decimal numeral is exact or saturated**.
-/

import WordMachine.Proofs.Literal.Saturation
import WordMachine.Proofs.Operand.Immediates

set_option relaxedAutoImplicit false
set_option autoImplicit false

namespace WordMachine

open Numeral Literal

variable {sign d : Text} {negative : Bool} {v : Nat} {r : Option Magnitude}

/-- A decimal numeral is a real literal without fraction and exponent. -/
theorem Literal.IsNumeral.isReal (h : IsNumeral 10 d v) (hsign : IsSign sign negative) :
    IsReal (sign ++ d) ⟨negative, v, d.length, 1, 10, 0⟩ := by
  have hreal := IsReal.decimal hsign (.whole h) .absent
  rwa [List.append_nil] at hreal

/-- **The word of a decimal numeral**: its value, as far as that is in range. -/
theorem Literal.IsNumeral.saturate_eq (h : IsNumeral 10 d v) (hsign : IsSign sign negative) :
    (⟨negative, v, d.length, 1, 10, 0⟩ : Literal.Real).saturate =
      if negative then 0 else (min v largestWord).toUInt32 := by
  obtain ⟨r, hr⟩ := exists_rounds v
  have hmagnitude : Literal.Real.magnitude ⟨negative, v, d.length, 1, 10, 0⟩ = v := by
    simp [Literal.Real.magnitude]
  rw [Literal.Real.saturate_eq (h.isReal hsign).isWellFormed (hmagnitude.symm ▸ hr),
    hr.truncate_natCast]

namespace Operand

/-- A decimal numeral carries no mark. -/
theorem isMarked_signed (h : IsNumeral 10 d v) (hsign : IsSign sign negative) :
    isMarked (sign ++ d) = false := by
  cases hsign with
  | absent =>
      obtain ⟨radix, digits, hmarks⟩ := exists_marks d
      cases hmarks with
      | none hx hb => rw [List.nil_append, isMarked, hx, hb]; rfl
      | marked hmark => exact absurd h hmark.not_isNumeral
  | plus | minus =>
      obtain ⟨c, digits, rfl⟩ := List.exists_cons_of_ne_nil h.ne_nil
      rfl

/-- **A numeral with a sign** is a number. -/
theorem parse_signed (h : IsNumeral 10 d v) (hsign : IsSign sign negative) :
    parse (sign ++ d) =
      .ok (.immediate (if negative then 0 else (min v largestWord).toUInt32)) := by
  have hreal := h.isReal hsign
  have htrim : Text.trim (sign ++ d) = sign ++ d := by
    refine Text.trim_of_notBlank (List.forall_mem_append.2 ⟨?_, ?_⟩)
    · cases hsign with
      | absent => exact nofun
      | plus | minus => exact List.forall_mem_singleton.2 rfl
    · exact fun c hc => Text.isBlank_of_isWordChar (isWordChar_of_isDigit (h.all c hc))
  rw [parse_eq_immediate_iff_number, htrim, number_eq_value_iff,
    numericPart_eq_self hreal.nul_not_mem, ← h.saturate_eq hsign]
  exact .real (isMarked_signed h hsign) hreal

/-- **A decimal numeral is exact or saturated.**  As an operand, it is the smaller of its value and
the largest word, with or without a plus sign, and zero with a minus sign.  That is the word which
any correct rounding of its value to binary64 is cut to, and the value itself wherever the numeral is
an integer literal. -/
theorem parse_decimal (h : IsNumeral 10 d v) :
    parse d = .ok (.immediate (min v largestWord).toUInt32) ∧
      parse ('+' :: d) = .ok (.immediate (min v largestWord).toUInt32) ∧
      parse ('-' :: d) = .ok (.immediate 0) ∧
      (∀ n, integer d = .value n → parse d = .ok (.immediate n)) ∧
      ∀ r, Rounds v r → parse d = .ok (.immediate (truncate r).toUInt32) := by
  have hplain : parse d = .ok (.immediate (min v largestWord).toUInt32) := parse_signed h .absent
  refine ⟨hplain, parse_signed h .plus, parse_signed h .minus, ?_, ?_⟩
  · intro n hn
    have hv : n.toNat = v := (integer_eq_value_iff.1 hn).unique (.decimal h)
    have hle : v ≤ largestWord := by
      rw [← hv]
      exact Nat.le_of_lt_succ n.toNat_lt
    rw [hplain, min_eq_left hle, ← hv, Nat.toUInt32_eq, UInt32.ofNat_toNat]
  · intro r hr
    rw [hplain, hr.truncate_natCast]

/-- Ten digits beyond the range, and leading zeros. -/
theorem parse_decimal_large :
    IsNumeral 10 "004294967296".toList 4294967296 ∧
      parse "004294967296".toList = .ok (.immediate 0xFFFFFFFF) ∧
      parse "-004294967296".toList = .ok (.immediate 0) := by
  have h : IsNumeral 10 "004294967296".toList 4294967296 :=
    ⟨by decide, List.all_eq_true.1 (by decide), by decide⟩
  obtain ⟨hplain, -, hminus, -, -⟩ := parse_decimal h
  exact ⟨h, hplain, hminus⟩

end Operand

end WordMachine
