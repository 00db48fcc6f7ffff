/-
**Correct rounding to binary64.**

A binary64 number that is finite and not negative is a significand of 53 bits times a power of two.
A number is rounded to the nearest of these, and where two are equally near, to the one with an even
significand; from half a unit beyond the largest of them on, it is rounded to infinity.

The multiples of `2 ^ -p` up to `2 ^ (53 - p)` are binary64 numbers, and from `2 ^ (52 - p)` on there
are no others in between.  There, rounding to binary64 is rounding to an integer at the scale `2 ^ p`.

Main definitions:

* `Literal.Magnitude` — binary64 numbers that are finite and not negative;
* `Literal.IsNearest`, `Literal.Rounds` — correct rounding, to a finite number and in general;
* `Literal.IsRounded` — rounding to an integer;
* `Literal.truncate` — the word that a rounded number is cut to.

Main results:

* `Literal.exists_rounds` — every number can be rounded;
* `Literal.IsNearest.val_mul_eq` — **rounding to binary64 is rounding to an integer at a scale**;
* `Literal.Rounds.truncate_natCast` — the word of a natural number does not depend on rounding.
-/

import Mathlib.Algebra.Order.Field.Power
import Mathlib.Data.Fintype.Lattice
import Mathlib.Data.Fintype.Prod
import Mathlib.Data.Prod.Lex
import Mathlib.Data.Rat.Floor
import Mathlib.Tactic.FieldSimp
import Mathlib.Tactic.Linarith
import Mathlib.Tactic.NormNum
import Mathlib.Tactic.Positivity
import Mathlib.Tactic.Ring
import WordMachine.Literal.Real

set_option relaxedAutoImplicit false
set_option autoImplicit false

namespace WordMachine.Literal

/-! ### Numbers -/

/-- A binary64 number that is finite and not negative: `significand * 2 ^ exponent`. -/
@[ext]
structure Magnitude where
  /-- The digits, as an integer of 53 bits. -/
  significand : Nat
  /-- The power of two that the last digit counts. -/
  exponent : Int
  significand_lt : significand < 2 ^ 53
  le_exponent : -1074 ≤ exponent
  exponent_le : exponent ≤ 971
  /-- All digits are used, unless the exponent is the least one. -/
  normal : 2 ^ 52 ≤ significand ∨ exponent = -1074

namespace Magnitude

/-- The value of a number. -/
def val (y : Magnitude) : ℚ :=
  y.significand * 2 ^ y.exponent

/-- There are finitely many numbers. -/
instance : Finite Magnitude := by
  refine Finite.of_injective
    (fun y : Magnitude => ((⟨y.significand, y.significand_lt⟩ : Fin (2 ^ 53)),
      (⟨(y.exponent + 1074).toNat, by have := y.exponent_le; omega⟩ : Fin 2046))) ?_
  intro y z h
  obtain ⟨hsignificand, hexponent⟩ := Prod.mk.inj h
  have hexponent' := congrArg Fin.val hexponent
  have hy := y.le_exponent
  have hz := z.le_exponent
  exact Magnitude.ext (congrArg Fin.val hsignificand) (by dsimp only at hexponent'; omega)

/-- A number whose last digit counts at least `2 ^ -p` is a multiple of that. -/
theorem val_mul_of_exponent_eq {y : Magnitude} {k p : Nat} (h : y.exponent = k - p) :
    y.val * 2 ^ p = (y.significand * 2 ^ k : Nat) := by
  have hp : (2 : ℚ) ^ p ≠ 0 := by positivity
  rw [val, h, zpow_sub₀ two_ne_zero, zpow_natCast, zpow_natCast]
  push_cast
  field_simp

/-- A significand shifted by `j` places. -/
theorem val_mul_of_significand_eq {y : Magnitude} {n j p : Nat} (h : y.exponent = -(p + j : Nat))
    (hn : y.significand = n * 2 ^ j) : y.val * 2 ^ p = n := by
  rw [val, h, hn, zpow_neg, zpow_natCast, pow_add]
  push_cast
  field_simp

/-- **Multiples of a power of two** are binary64 numbers, even ones with an even significand. -/
theorem exists_val_mul_eq {n p : Nat} (hn : n ≤ 2 ^ 53) (hp : p ≤ 1074) :
    ∃ y : Magnitude, y.val * 2 ^ p = n ∧ (Even n → Even y.significand) := by
  -- The significand is shifted as far as its digits and the exponent allow.
  have hshift : ∀ {j : Nat}, n * 2 ^ j < 2 ^ 53 → j ≤ 1074 - p →
      (2 ^ 52 ≤ n * 2 ^ j ∨ j = 1074 - p) →
      ∃ y : Magnitude, y.val * 2 ^ p = n ∧ (Even n → Even y.significand) := by
    intro j hlt hj hnormal
    exact ⟨⟨n * 2 ^ j, -(p + j : Nat), hlt, by omega, by omega, hnormal.imp id (by omega)⟩,
      val_mul_of_significand_eq rfl rfl, fun heven => heven.mul_right _⟩
  rcases hn.eq_or_lt with rfl | hlt
  · exact ⟨⟨2 ^ 52, 1 - p, by norm_num, by omega, by omega, .inl le_rfl⟩,
      val_mul_of_exponent_eq (k := 1) rfl, fun _ => Nat.even_pow.2 ⟨even_two, by norm_num⟩⟩
  rcases Nat.eq_zero_or_pos n with rfl | hpos
  · exact hshift (j := 1074 - p) (by simp) le_rfl (.inr rfl)
  have hlog : n.log2 < 53 := (Nat.log2_lt hpos.ne').2 hlt
  have hlower : 2 ^ n.log2 ≤ n := Nat.log2_self_le hpos.ne'
  have hupper : n < 2 ^ (n.log2 + 1) := Nat.lt_log2_self
  rcases le_total (52 - n.log2) (1074 - p) with hle | hle
  · refine hshift (j := 52 - n.log2) ?_ hle (.inl ?_)
    · calc n * 2 ^ (52 - n.log2) < 2 ^ (n.log2 + 1) * 2 ^ (52 - n.log2) := by gcongr
        _ = 2 ^ 53 := by rw [← pow_add]; congr 1; omega
    · calc 2 ^ 52 = 2 ^ n.log2 * 2 ^ (52 - n.log2) := by rw [← pow_add]; congr 1; omega
        _ ≤ n * 2 ^ (52 - n.log2) := by gcongr
  · refine hshift (j := 1074 - p) ?_ le_rfl (.inr rfl)
    calc n * 2 ^ (1074 - p) ≤ n * 2 ^ (52 - n.log2) := by gcongr; norm_num
      _ < 2 ^ (n.log2 + 1) * 2 ^ (52 - n.log2) := by gcongr
      _ = 2 ^ 53 := by rw [← pow_add]; congr 1; omega

end Magnitude

/-! ### Rounding -/

/-- The number `y` is nearest to `x`, and an even one if there is a choice. -/
structure IsNearest (x : ℚ) (y : Magnitude) : Prop where
  le : ∀ z : Magnitude, |x - y.val| ≤ |x - z.val|
  even : ∀ z : Magnitude, |x - z.val| = |x - y.val| → Even z.significand → Even y.significand

/-- The integer `q` is nearest to `a`, and even if two are. -/
structure IsRounded (a : ℚ) (q : Nat) : Prop where
  le : |a - q| ≤ 1 / 2
  even : |a - q| = 1 / 2 → Even q

/-- From here on, half a unit beyond the largest number, a number is rounded to infinity. -/
def overflowBound : ℚ :=
  2 ^ 1024 - 2 ^ 970

/-- **Correct rounding** of a number that is not negative; `none` stands for infinity. -/
inductive Rounds (x : ℚ) : Option Magnitude → Prop
  | finite {y : Magnitude} (hx : x < overflowBound) (h : IsNearest x y) : Rounds x (some y)
  | infinite (hx : overflowBound ≤ x) : Rounds x none

/-- The word that a rounded number is cut to: its integer part, or the largest word. -/
def truncate : Option Magnitude → Nat
  | none => largestWord
  | some y => if largestWord ≤ y.val then largestWord else ⌊y.val⌋₊

variable {x : ℚ} {y z : Magnitude} {r : Option Magnitude} {n p : Nat}

theorem exists_isNearest (x : ℚ) : ∃ y, IsNearest x y := by
  have : Nonempty Magnitude := ⟨⟨0, -1074, by norm_num, by norm_num, by norm_num, .inr rfl⟩⟩
  -- The least distance comes first, and then the parity of the significand.
  obtain ⟨y, hy⟩ := Finite.exists_min fun y : Magnitude =>
    toLex (|x - y.val|, y.significand % 2)
  refine ⟨y, ?_, ?_⟩
  · intro z
    rcases Prod.Lex.toLex_le_toLex.1 (hy z) with hlt | ⟨heq, -⟩
    · exact hlt.le
    · exact heq.le
  · intro z hz heven
    rcases Prod.Lex.toLex_le_toLex.1 (hy z) with hlt | ⟨-, hle⟩
    · exact absurd hz hlt.ne'
    · dsimp only at hle
      rw [Nat.even_iff] at heven ⊢
      omega

/-- **Every number can be rounded.** -/
theorem exists_rounds (x : ℚ) : ∃ r, Rounds x r := by
  rcases lt_or_ge x overflowBound with hlt | hge
  · obtain ⟨y, hy⟩ := exists_isNearest x
    exact ⟨some y, .finite hlt hy⟩
  · exact ⟨none, .infinite hge⟩

namespace IsNearest

/-- Rounding does not cross a binary64 number. -/
theorem val_le_val_of_le (h : IsNearest x y) (hz : z.val ≤ x) : z.val ≤ y.val := by
  by_contra! hlt
  have hle := h.le z
  rw [abs_of_nonneg (by linarith), abs_of_nonneg (by linarith)] at hle
  linarith

theorem val_le_val_of_ge (h : IsNearest x y) (hz : x ≤ z.val) : y.val ≤ z.val := by
  by_contra! hlt
  have hle := h.le z
  rw [abs_of_nonpos (by linarith), abs_of_nonpos (by linarith)] at hle
  linarith

/-- A binary64 number is rounded to itself. -/
theorem val_eq (h : IsNearest z.val y) : y.val = z.val :=
  le_antisymm (h.val_le_val_of_ge le_rfl) (h.val_le_val_of_le le_rfl)

/-- Numbers from `2 ^ (52 - p)` on are rounded to multiples of `2 ^ -p`. -/
theorem exists_val_mul_eq (h : IsNearest x y) (hp : p ≤ 1074) (hx : 2 ^ 52 ≤ x * 2 ^ p) :
    ∃ m : Nat, y.val * 2 ^ p = m ∧ (Even y.significand → Even m) := by
  obtain ⟨z, hz, -⟩ := Magnitude.exists_val_mul_eq (n := 2 ^ 52) (by norm_num) hp
  have hpow : (0 : ℚ) < 2 ^ p := by positivity
  have hle : 2 ^ 52 ≤ y.val * 2 ^ p := by
    have hzx : z.val ≤ x := le_of_mul_le_mul_right (by rw [hz]; exact_mod_cast hx) hpow
    calc (2 : ℚ) ^ 52 = z.val * 2 ^ p := by rw [hz]; norm_num
      _ ≤ y.val * 2 ^ p := by gcongr; exact h.val_le_val_of_le hzx
  by_cases hexponent : -(p : Int) ≤ y.exponent
  · obtain ⟨k, hk⟩ := Int.le.dest hexponent
    exact ⟨_, Magnitude.val_mul_of_exponent_eq (by omega : y.exponent = k - p),
      fun heven => heven.mul_right _⟩
  · exfalso
    have hsignificand : (y.significand : ℚ) < 2 ^ 53 := by exact_mod_cast y.significand_lt
    have hunit : (2 : ℚ) ^ y.exponent ≤ 2 ^ (-(p : Int) - 1) :=
      zpow_le_zpow_right₀ one_le_two (by omega)
    refine absurd hle (not_le.2 ?_)
    calc y.val * 2 ^ p ≤ y.significand * 2 ^ (-(p : Int) - 1) * 2 ^ p := by
          unfold Magnitude.val
          gcongr
      _ < 2 ^ 53 * 2 ^ (-(p : Int) - 1) * 2 ^ p := by gcongr
      _ = 2 ^ 52 := by
          rw [zpow_sub₀ two_ne_zero, zpow_neg, zpow_natCast]
          field_simp

/-- **Rounding to binary64 is rounding to an integer at a scale.** -/
theorem val_mul_eq {q : Nat} (h : IsNearest x y) (hp : p ≤ 1074) (hx : 2 ^ 52 ≤ x * 2 ^ p)
    (hx' : x * 2 ^ p ≤ 2 ^ 53) (hq : IsRounded (x * 2 ^ p) q) : y.val * 2 ^ p = q := by
  have hhalf := hq.le
  have hqle : q ≤ 2 ^ 53 := by
    have hlt : (q : ℚ) < 2 ^ 53 + 1 := by linarith [(abs_le.1 hhalf).1]
    exact Nat.lt_succ_iff.1 (by exact_mod_cast hlt)
  obtain ⟨z, hz, hzeven⟩ := Magnitude.exists_val_mul_eq hqle hp
  obtain ⟨m, hm, hmeven⟩ := h.exists_val_mul_eq hp hx
  have hscale : ∀ w : Magnitude, |x * 2 ^ p - w.val * 2 ^ p| = |x - w.val| * 2 ^ p := by
    intro w
    rw [← sub_mul, abs_mul, abs_of_pos (by positivity : (0 : ℚ) < 2 ^ p)]
  have hmq : |x * 2 ^ p - m| ≤ |x * 2 ^ p - q| := by
    rw [← hm, ← hz, hscale, hscale]
    exact mul_le_mul_of_nonneg_right (h.le z) (by positivity)
  rw [hm, Nat.cast_inj]
  by_contra hne
  -- The two integers are a unit apart, the number lies halfway, and both of them are even.
  have hone : (1 : ℚ) ≤ |(m : ℚ) - q| := by
    exact_mod_cast Int.one_le_abs (sub_ne_zero.2 (Nat.cast_injective.ne hne))
  have htriangle : |(m : ℚ) - q| ≤ |x * 2 ^ p - m| + |x * 2 ^ p - q| := by
    rw [abs_sub_comm (x * 2 ^ p) m]
    exact abs_sub_le _ _ _
  have htie : |x * 2 ^ p - q| = 1 / 2 := by linarith
  have htie' : |x - z.val| = |x - y.val| := by
    refine mul_right_cancel₀ (by positivity : (2 : ℚ) ^ p ≠ 0) ?_
    rw [← hscale, ← hscale, hm, hz]
    linarith
  have hunit : |(m : ℚ) - q| = 1 := by linarith
  have hqeven := hq.even htie
  have hmeven' := hmeven (h.even z htie' (hzeven hqeven))
  have hodd : |(m : Int) - q| = 1 := by exact_mod_cast hunit
  rw [Nat.even_iff] at hqeven hmeven'
  rcases (abs_eq zero_le_one).1 hodd with hodd | hodd
  · omega
  · omega

end IsNearest

/-! ### Words -/

theorem largestWord_lt_overflowBound : (largestWord : ℚ) < overflowBound := by
  have hpow : ∀ k : Nat, (1 : ℚ) ≤ 2 ^ k := fun k => one_le_pow₀ one_le_two
  calc (largestWord : ℚ) < 1 * (2 ^ 54 - 1) := by norm_num [largestWord]
    _ ≤ 2 ^ 970 * (2 ^ 54 - 1) := mul_le_mul_of_nonneg_right (hpow 970) (by norm_num)
    _ = overflowBound := by rw [mul_sub, mul_one, ← pow_add, overflowBound]

theorem truncate_some (y : Magnitude) : truncate (some y) = min ⌊y.val⌋₊ largestWord := by
  unfold truncate
  dsimp only
  split
  · rename_i hle
    exact (min_eq_right (Nat.le_floor hle)).symm
  · rename_i hlt
    exact (min_eq_left (Nat.floor_le_of_le (not_le.1 hlt).le)).symm

/-- A natural number up to `2 ^ 53` is a binary64 number. -/
theorem Magnitude.exists_val_eq_natCast (hn : n ≤ 2 ^ 53) : ∃ y : Magnitude, y.val = n := by
  obtain ⟨y, hy, -⟩ := exists_val_mul_eq hn (Nat.zero_le 1074)
  exact ⟨y, by rw [← hy, pow_zero, mul_one]⟩

namespace Rounds

/-- What is as large as the largest word is cut to that. -/
theorem truncate_of_le (h : Rounds x r) (hx : largestWord ≤ x) : truncate r = largestWord := by
  cases h with
  | finite _ h =>
      obtain ⟨z, hz⟩ := Magnitude.exists_val_eq_natCast (n := largestWord) (by decide)
      exact if_pos (hz ▸ h.val_le_val_of_le (hz ▸ hx))
  | infinite => rfl

/-- What is smaller than the largest word is rounded to a finite number. -/
theorem exists_isNearest_of_lt (h : Rounds x r) (hx : x < largestWord) :
    ∃ y, r = some y ∧ IsNearest x y := by
  cases h with
  | finite _ h => exact ⟨_, rfl, h⟩
  | infinite hle =>
      exact absurd (hx.trans largestWord_lt_overflowBound) (not_lt.2 hle)

/-- **The word of a natural number does not depend on rounding.** -/
theorem truncate_natCast {v : Nat} (h : Rounds v r) : truncate r = min v largestWord := by
  rcases le_or_gt largestWord v with hle | hlt
  · rw [h.truncate_of_le (Nat.cast_le.2 hle), min_eq_right hle]
  · obtain ⟨y, rfl, hy⟩ := h.exists_isNearest_of_lt (Nat.cast_lt.2 hlt)
    obtain ⟨z, hz⟩ := Magnitude.exists_val_eq_natCast (hlt.le.trans (by decide))
    rw [← hz] at hy
    rw [truncate_some, hy.val_eq, hz, Nat.floor_natCast]

end Rounds

end WordMachine.Literal
