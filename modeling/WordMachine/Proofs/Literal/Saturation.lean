/-
**The word of a real literal is that of its correctly rounded value.**

The reader of literals does not round: it computes the integer part of the rounded value from the
literal itself, by integer arithmetic alone.  What is at least one half and below the range of a word
is rounded at the scale of its leading digit; what is smaller is cut to zero on either path, and what
is larger to the largest word.  So a real literal stands for the word that its value is cut to once
it has been rounded to binary64, whichever correct rounding that is.

Main definitions:

* `Literal.Real.magnitude` — the exact value of a literal, without its sign;
* `Literal.Real.IsWellFormed` — the mantissa is as short as it claims to be.

Main results:

* `Literal.isRounded_roundHalfEven` — rounding to an integer;
* `Literal.IsNearest.floor_val` — the integer part of the nearest binary64 number;
* `Literal.Real.saturate_eq` — **the word of a literal is that of its rounded value**;
* `Literal.saturate_of_real?` — the same for the literals that are read, which are well-formed.
-/

import Mathlib.Algebra.Order.Floor.Semifield
import WordMachine.Proofs.Literal.Binary64
import WordMachine.Proofs.Literal.Reals

set_option relaxedAutoImplicit false
set_option autoImplicit false

namespace WordMachine.Literal

variable {num den p q : Nat} {y : Magnitude} {r : Option Magnitude}

/-! ### Rounding to an integer -/

/-- **A half goes to the even neighbour.** -/
theorem isRounded_roundHalfEven (num : Nat) (hden : 0 < den) :
    IsRounded (num / den) (roundHalfEven num den) := by
  have hdenQ : (0 : ℚ) < den := Nat.cast_pos.2 hden
  have hsplit : (num / den : ℚ) = (num / den : Nat) + (num % den : Nat) / den := by
    field_simp
    exact_mod_cast (Nat.div_add_mod num den).symm
  have hr : num % den < den := Nat.mod_lt _ hden
  unfold roundHalfEven
  dsimp only
  generalize num / den = q at *
  generalize num % den = r at *
  have hrQ : (r : ℚ) / den < 1 := (div_lt_one hdenQ).2 (Nat.cast_lt.2 hr)
  have hrQ' : (0 : ℚ) ≤ r / den := by positivity
  have hhalf : (r : ℚ) / den = 1 / 2 ↔ 2 * r = den := by
    rw [div_eq_div_iff hdenQ.ne' two_ne_zero, one_mul, mul_comm]
    exact_mod_cast Iff.rfl
  rw [hsplit]
  split
  · rename_i hup
    have hge : 1 / 2 ≤ (r : ℚ) / den := by
      rw [div_le_div_iff₀ two_pos hdenQ, one_mul]
      exact_mod_cast (by omega : den ≤ r * 2)
    have habs : |(q : ℚ) + r / den - (q + 1 : Nat)| = 1 - r / den := by
      rw [abs_of_nonpos (by push_cast; linarith)]
      push_cast
      ring
    refine ⟨by rw [habs]; linarith, ?_⟩
    intro htie
    have := hhalf.1 (by linarith)
    rw [Nat.even_iff]
    omega
  · rename_i hdown
    have hle : (r : ℚ) / den ≤ 1 / 2 := by
      rw [div_le_div_iff₀ hdenQ two_pos, one_mul]
      exact_mod_cast (by omega : r * 2 ≤ den)
    have habs : |(q : ℚ) + r / den - q| = r / den := by
      rw [add_sub_cancel_left, abs_of_nonneg hrQ']
    refine ⟨by rw [habs]; exact hle, ?_⟩
    intro htie
    have := hhalf.1 (by linarith)
    rw [Nat.even_iff]
    omega

theorem roundHalfEven_le (num den : Nat) : roundHalfEven num den ≤ num / den + 1 := by
  unfold roundHalfEven
  dsimp only
  split
  · exact le_rfl
  · exact Nat.le_succ _

/-! ### The integer part of the nearest number -/

theorem floor_val_of_mul_eq (h : y.val * 2 ^ p = q) : ⌊y.val⌋₊ = q / 2 ^ p := by
  have hval : y.val = (q : ℚ) / (2 ^ p : Nat) := by
    rw [← h]
    push_cast
    field_simp
  rw [hval, Nat.floor_div_eq_div]

/-- At the scale of its leading digit, a number is rounded to an integer. -/
theorem IsNearest.floor_val_of_scale (h : IsNearest (num / den) y) (hden : 0 < den)
    (hp : p ≤ 1074) (hlow : 2 ^ 52 * den ≤ num * 2 ^ p) (hhigh : num * 2 ^ p ≤ 2 ^ 53 * den) :
    ⌊y.val⌋₊ = roundHalfEven (num * 2 ^ p) den / 2 ^ p := by
  have hdenQ : (0 : ℚ) < den := Nat.cast_pos.2 hden
  have hscale : (num / den : ℚ) * 2 ^ p = (num * 2 ^ p : Nat) / den := by
    push_cast
    ring
  refine floor_val_of_mul_eq (h.val_mul_eq hp ?_ ?_ ?_)
  · rw [hscale, le_div_iff₀ hdenQ]
    exact_mod_cast hlow
  · rw [hscale, div_le_iff₀ hdenQ]
    exact_mod_cast hhigh
  · rw [hscale]
    exact isRounded_roundHalfEven _ hden

/-- What is at most one half is not rounded up to one. -/
theorem IsNearest.floor_val_of_le_half {x : ℚ} (h : IsNearest x y) (hx : x ≤ 1 / 2) :
    ⌊y.val⌋₊ = 0 := by
  obtain ⟨z, hz, -⟩ := Magnitude.exists_val_mul_eq (n := 1) (p := 1) (by norm_num) (by norm_num)
  have hz' : z.val = 1 / 2 := by
    rw [eq_div_iff two_ne_zero]
    simpa using hz
  have hle := h.val_le_val_of_ge (hz' ▸ hx)
  rw [Nat.floor_eq_zero, ← not_le]
  intro hone
  linarith

/-- **The integer part of the nearest binary64 number**, as the reader finds it. -/
theorem IsNearest.floor_val (h : IsNearest (num / den) y) (hden : 0 < den)
    (hlt : num < 2 ^ 53 * den) : ⌊y.val⌋₊ = nearestFloor num den := by
  have hdiv : num < (num / den + 1) * den := by
    rw [mul_comm]
    exact Nat.lt_mul_div_succ num hden
  have hdiv' : num / den * den ≤ num := Nat.div_mul_le_self num den
  have hword : num / den < 2 ^ 53 := (Nat.div_lt_iff_lt_mul hden).2 hlt
  unfold nearestFloor
  dsimp only
  generalize num / den = w at *
  split
  · rename_i hzero
    subst hzero
    rcases le_or_gt den (2 * num) with hle | hsmall
    · exact h.floor_val_of_scale hden (by norm_num) (by omega) (by omega)
    · have hhalf : (num / den : ℚ) ≤ 1 / 2 := by
        rw [div_le_div_iff₀ (Nat.cast_pos.2 hden) two_pos, one_mul]
        exact_mod_cast (by omega : num * 2 ≤ den)
      have hdiv : num * 2 ^ 53 / den < 2 ^ 52 :=
        (Nat.div_lt_iff_lt_mul hden).2 (by omega)
      have hround := roundHalfEven_le (num * 2 ^ 53) den
      rw [h.floor_val_of_le_half hhalf, Nat.div_eq_of_lt (by omega)]
  · rename_i hpos
    have hlog : w.log2 < 53 := (Nat.log2_lt hpos).2 hword
    have hlower : 2 ^ w.log2 ≤ w := Nat.log2_self_le hpos
    have hupper : w + 1 ≤ 2 ^ (w.log2 + 1) := Nat.lt_log2_self
    refine h.floor_val_of_scale hden (by omega) ?_ ?_
    · calc 2 ^ 52 * den = 2 ^ w.log2 * den * 2 ^ (52 - w.log2) := by
            rw [mul_right_comm, ← pow_add]
            congr 2
            omega
        _ ≤ w * den * 2 ^ (52 - w.log2) := by gcongr
        _ ≤ num * 2 ^ (52 - w.log2) := by gcongr
    · calc num * 2 ^ (52 - w.log2) ≤ (w + 1) * den * 2 ^ (52 - w.log2) := by gcongr
        _ ≤ 2 ^ (w.log2 + 1) * den * 2 ^ (52 - w.log2) := by gcongr
        _ = 2 ^ 53 * den := by
            rw [mul_right_comm, ← pow_add]
            congr 2
            omega

/-! ### The word of a literal -/

namespace Rounds

/-- The word of a fraction. -/
theorem truncate_div (h : Rounds (num / den) r) (hden : 0 < den) :
    truncate r =
      if largestWord * den ≤ num then largestWord else min (nearestFloor num den) largestWord := by
  have hdenQ : (0 : ℚ) < den := Nat.cast_pos.2 hden
  split
  · rename_i hle
    refine h.truncate_of_le ?_
    rw [le_div_iff₀ hdenQ]
    exact_mod_cast hle
  · rename_i hlt
    obtain ⟨y, rfl, hy⟩ := h.exists_isNearest_of_lt (by
      rw [div_lt_iff₀ hdenQ]
      exact_mod_cast not_le.1 hlt)
    have hword : largestWord * den ≤ 2 ^ 53 * den := Nat.mul_le_mul_right den (by decide)
    rw [truncate_some, hy.floor_val hden (by omega)]

/-- The word of what is at most one half is zero. -/
theorem truncate_of_le_half {x : ℚ} (h : Rounds x r) (hx : x ≤ 1 / 2) : truncate r = 0 := by
  obtain ⟨y, rfl, hy⟩ := h.exists_isNearest_of_lt (hx.trans_lt (by norm_num [largestWord]))
  rw [truncate_some, hy.floor_val_of_le_half hx, Nat.zero_min]

end Rounds

namespace Real

variable {x : Real}

/-- The exact value of a literal, without its sign. -/
def magnitude (x : Real) : ℚ :=
  x.mantissa * x.base ^ x.exponent

/-- The mantissa is as short as it claims to be. -/
structure IsWellFormed (x : Real) : Prop where
  two_le : 2 ≤ x.base
  mantissa_lt : x.mantissa < x.base ^ (x.weight * x.digits)

theorem magnitude_of_nonneg (h : 0 ≤ x.exponent) :
    x.magnitude = (x.mantissa * x.base ^ x.exponent.toNat : Nat) := by
  rw [magnitude]
  nth_rewrite 1 [← Int.toNat_of_nonneg h]
  rw [zpow_natCast]
  push_cast
  rfl

theorem magnitude_of_neg (h : x.exponent < 0) :
    x.magnitude = x.mantissa / (x.base ^ x.exponent.natAbs : Nat) := by
  have hexponent : x.exponent = -(x.exponent.natAbs : Int) := by omega
  rw [magnitude]
  nth_rewrite 1 [hexponent]
  rw [zpow_neg, zpow_natCast, div_eq_mul_inv]
  push_cast
  rfl

/-- An exponent of at least 32 exceeds the range of a word. -/
theorem largestWord_le (hx : x.IsWellFormed) (hmantissa : x.mantissa ≠ 0) (h : 32 ≤ x.exponent) :
    largestWord ≤ x.mantissa * x.base ^ x.exponent.toNat := by
  have hexponent : 32 ≤ x.exponent.toNat := by omega
  calc largestWord ≤ 1 * 2 ^ 32 := by decide
    _ ≤ x.mantissa * 2 ^ x.exponent.toNat := by
        gcongr
        · omega
        · norm_num
    _ ≤ x.mantissa * x.base ^ x.exponent.toNat := by
        gcongr
        exact hx.two_le

/-- An exponent that exceeds all digits leaves less than one half. -/
theorem magnitude_le_half (hx : x.IsWellFormed) (hneg : x.exponent < 0)
    (h : x.weight * x.digits < x.exponent.natAbs) : x.magnitude ≤ 1 / 2 := by
  have hbase : 0 < x.base := Nat.zero_lt_two.trans_le hx.two_le
  have hle : 2 * x.mantissa ≤ x.base ^ x.exponent.natAbs := by
    calc 2 * x.mantissa ≤ x.base * x.base ^ (x.weight * x.digits) :=
          Nat.mul_le_mul hx.two_le hx.mantissa_lt.le
      _ = x.base ^ (x.weight * x.digits + 1) := (Nat.pow_succ' ..).symm
      _ ≤ x.base ^ x.exponent.natAbs := Nat.pow_le_pow_right hbase h
  rw [magnitude_of_neg hneg, div_le_div_iff₀ (Nat.cast_pos.2 (pow_pos hbase _)) two_pos, one_mul]
  exact_mod_cast (mul_comm _ _).trans_le hle

/-- **The word of a literal is that of its rounded value**, and zero if the literal is negative. -/
theorem saturate_eq (hx : x.IsWellFormed) (h : Rounds x.magnitude r) :
    x.saturate = if x.negative then 0 else (truncate r).toUInt32 := by
  unfold saturate
  cases hnegative : x.negative with
  | true => rfl
  | false =>
      simp only [Bool.false_eq_true, false_or, if_false]
      split
      · rename_i hzero
        rw [magnitude, hzero, Nat.cast_zero, zero_mul, ← Nat.cast_zero] at h
        rw [h.truncate_natCast]
        rfl
      rename_i hmantissa
      split
      · rename_i hlarge
        rw [magnitude_of_nonneg (by omega)] at h
        rw [h.truncate_natCast, min_eq_right (largestWord_le hx hmantissa hlarge)]
      split
      · rename_i hnonneg
        rw [magnitude_of_nonneg hnonneg] at h
        rw [h.truncate_natCast]
      rename_i hneg
      split
      · rename_i hsmall
        rw [h.truncate_of_le_half (magnitude_le_half hx (not_le.1 hneg) hsmall)]
        rfl
      · rw [magnitude_of_neg (not_le.1 hneg)] at h
        rw [h.truncate_div (pow_pos (Nat.zero_lt_two.trans_le hx.two_le) _)]
        split <;> rfl

end Real

/-! ### The literals that are read -/

theorem IsMantissa.value_lt {radix m n k : Nat} {mantissa : Text}
    (h : IsMantissa radix mantissa m n k) : m < radix ^ n := by
  cases h with
  | whole h | fraction h => exact h.value_lt

/-- **The literals that are read are well-formed.** -/
theorem IsReal.isWellFormed {s : Text} {x : Real} (h : IsReal s x) : x.IsWellFormed := by
  cases h with
  | @decimal _ _ _ _ m n _ _ _ hm => exact ⟨by norm_num, (Nat.one_mul n).symm ▸ hm.value_lt⟩
  | @hexadecimal _ _ _ _ _ m n _ _ _ _ hm =>
      refine ⟨le_rfl, ?_⟩
      dsimp only
      rw [pow_mul]
      exact hm.value_lt

/-- **Every literal that is read stands for the word of its rounded value.** -/
theorem saturate_of_real? {s : Text} {x : Real} (h : real? s = some x)
    (hr : Rounds x.magnitude r) :
    x.saturate = if x.negative then 0 else (truncate r).toUInt32 :=
  Real.saturate_eq (real?_eq_some_iff.1 h).isWellFormed hr

end WordMachine.Literal
