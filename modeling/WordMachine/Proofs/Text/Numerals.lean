/-
**Hexadecimal numerals are read back.**

The digits of a number are read from the left: the value of a numeral and one more digit is sixteen
times the value of the numeral, and the digit.  A literal is read the same way, and as long as the
whole numeral stands for a number of 32 bits, so does everything read before its end.

Main definitions:

* `Numeral.valueAfter` — the value of digits that follow other digits;
* `Numeral.lowerDigits`, `Numeral.lowerValue?` — reading digits in lower case only.

Main results:

* `Numeral.value_hex` — the value of a printed number is the number;
* `Numeral.length_hexLower`, `Numeral.lowerValue?_hexLower` — the same for lower case, and how many
  digits there are;
* `Literal.readNumber_eq_value` — a literal that is not too large has the value of its digits;
* `Literal.integer_marked` — **a number that was printed with its mark is read back**.
-/

import WordMachine.Literal.Integer
import WordMachine.Proofs.Text.Pieces

set_option relaxedAutoImplicit false
set_option autoImplicit false

namespace WordMachine

/-! ### Digits -/

namespace Numeral

/-- The digits of hexadecimal numerals in lower case. -/
def lowerDigits : Text := "0123456789abcdef".toList

theorem digitChar_mem_lowerDigits : ∀ d < 16, Nat.digitChar d ∈ lowerDigits := by
  decide

theorem digit?_digitChar : ∀ d < 16, digit? 16 (Nat.digitChar d) = some d := by
  decide

theorem digit?_toUpper {c : Char} (hc : c ∈ lowerDigits) : digit? 16 c.toUpper = digit? 16 c := by
  have hall : lowerDigits.all fun c => digit? 16 c.toUpper == digit? 16 c := by decide
  exact beq_iff_eq.1 (List.all_eq_true.1 hall c hc)

theorem isDigit_toUpper {c : Char} (hc : c ∈ lowerDigits) : isDigit 16 c.toUpper := by
  have hall : lowerDigits.all fun c => isDigit 16 c.toUpper := by decide
  exact List.all_eq_true.1 hall c hc

/-- Digits of any radix are digits or letters. -/
theorem isWordChar_of_isDigit {radix : Nat} {c : Char} (h : isDigit radix c) :
    Text.isWordChar c := by
  have hrange : ('0' ≤ c ∧ c ≤ '9') ∨ ('a' ≤ c ∧ c ≤ 'f') ∨ ('A' ≤ c ∧ c ≤ 'F') := by
    refine Decidable.byContradiction fun hnone => ?_
    simp only [not_or] at hnone
    rw [isDigit, digit?, if_neg hnone.1, if_neg hnone.2.1, if_neg hnone.2.2] at h
    cases h
  simp only [Char.le_def, UInt32.le_iff_toNat_le, Char.reduceVal, UInt32.reduceToNat] at hrange
  simp only [Text.isWordChar, Text.isWordCode, Char.toNat, Bool.or_eq_true, Bool.and_eq_true,
    decide_eq_true_eq, beq_iff_eq]
  omega

theorem value_concat (radix : Nat) (ds : Text) (c : Char) :
    value radix (ds ++ [c]) = radix * value radix ds + (digit? radix c).getD 0 := by
  simp [value]

/-- The value of some digits that follow digits of the value `v`. -/
def valueAfter (radix v : Nat) (ds : Text) : Nat :=
  ds.foldl (fun v c => radix * v + (digit? radix c).getD 0) v

theorem le_valueAfter {radix : Nat} (hradix : 0 < radix) (ds : Text) (v : Nat) :
    v ≤ valueAfter radix v ds := by
  induction ds generalizing v with
  | nil => exact Nat.le_refl v
  | cons c ds ih =>
      have hv : v ≤ radix * v := Nat.le_mul_of_pos_left v hradix
      exact Nat.le_trans (by omega) (ih (radix * v + (digit? radix c).getD 0))

theorem value_zeros (k : Nat) (ds : Text) :
    value 16 (List.replicate k '0' ++ ds) = value 16 ds := by
  induction k with
  | zero => rfl
  | succ k ih => exact ih

theorem value_toDigits (n : Nat) : value 16 (Nat.toDigits 16 n) = n := by
  induction n using Nat.strongRecOn with
  | ind n ih =>
      rw [Nat.toDigits_eq_if (by decide)]
      split
      · rename_i hlt
        simp [value, digit?_digitChar n hlt]
      · rename_i hge
        rw [value_concat, ih (n / 16) (by omega), digit?_digitChar _ (by omega)]
        simp only [Option.getD_some]
        omega

theorem mem_lowerDigits_of_mem_toDigits {n : Nat} {c : Char} (hc : c ∈ Nat.toDigits 16 n) :
    c ∈ lowerDigits := by
  induction n using Nat.strongRecOn with
  | ind n ih =>
      rw [Nat.toDigits_eq_if (by decide)] at hc
      split at hc
      · rename_i hlt
        rw [List.mem_singleton.1 hc]
        exact digitChar_mem_lowerDigits n hlt
      · rename_i hge
        rcases List.mem_append.1 hc with hc | hc
        · exact ih (n / 16) (by omega) hc
        · rw [List.mem_singleton.1 hc]
          exact digitChar_mem_lowerDigits _ (by omega)

/-- Letter case does not change the value of digits. -/
theorem value_upper {ds : Text} (h : ∀ c ∈ ds, c ∈ lowerDigits) :
    value 16 ds.upper = value 16 ds := by
  rw [value, Text.upper, List.foldl_map, value]
  refine List.foldl_ext _ _ _ fun v c hc => ?_
  rw [digit?_toUpper (h c hc)]

/-! ### Printed numbers -/

theorem value_hexLower (width n : Nat) : value 16 (hexLower width n) = n := by
  rw [hexLower, Text.padLeft, value_zeros, value_toDigits]

theorem mem_lowerDigits_of_mem_hexLower {width n : Nat} {c : Char} (hc : c ∈ hexLower width n) :
    c ∈ lowerDigits := by
  rcases List.mem_append.1 hc with hc | hc
  · rw [List.eq_of_mem_replicate hc]
    decide
  · exact mem_lowerDigits_of_mem_toDigits hc

theorem hexLower_ne_nil (width n : Nat) : hexLower width n ≠ [] := by
  simp [hexLower, Text.padLeft, Nat.toDigits_ne_nil]

/-- A number that the width is enough for fills it. -/
theorem length_hexLower {width n : Nat} (hwidth : 0 < width) (hn : n < 16 ^ width) :
    (hexLower width n).length = width := by
  have hdigits : (Nat.toDigits 16 n).length ≤ width :=
    (Nat.length_toDigits_le_iff (by decide) hwidth).2 hn
  rw [hexLower, Text.padLeft, List.length_append, List.length_replicate,
    Nat.sub_add_cancel hdigits]

/-- **The value of a printed number is the number.** -/
@[simp] theorem value_hex (width n : Nat) : value 16 (hex width n) = n := by
  rw [hex, value_upper fun c hc => mem_lowerDigits_of_mem_hexLower hc, value_hexLower]

theorem isDigit_of_mem_hex {width n : Nat} {c : Char} (hc : c ∈ hex width n) : isDigit 16 c := by
  obtain ⟨d, hd, rfl⟩ := List.mem_map.1 hc
  exact isDigit_toUpper (mem_lowerDigits_of_mem_hexLower hd)

theorem hex_ne_nil (width n : Nat) : hex width n ≠ [] := by
  simp [hex, Text.upper, hexLower_ne_nil]

/-- The number that is written in lower-case digits, and in nothing else. -/
def lowerValue? (s : Text) : Option Nat :=
  if !s.isEmpty && s.all lowerDigits.contains then some (value 16 s) else none

/-- **A number that was printed in lower case is read back.** -/
@[simp] theorem lowerValue?_hexLower (width n : Nat) : lowerValue? (hexLower width n) = some n := by
  have hdigits : (hexLower width n).all lowerDigits.contains :=
    List.all_eq_true.2 fun c hc => List.contains_iff_mem.2 (mem_lowerDigits_of_mem_hexLower hc)
  rw [lowerValue?, hdigits, value_hexLower]
  simp [hexLower_ne_nil]

end Numeral

/-! ### Literals -/

namespace Literal

open Numeral

/-- Digits that follow `v`, as long as the whole has 32 bits. -/
theorem readDigits_eq {radix : Nat} (hradix : 0 < radix) {ds : Text} {v : Nat}
    (hds : ∀ c ∈ ds, isDigit radix c) (hlt : valueAfter radix v ds < 2 ^ 32) :
    readDigits radix v ds = .value (valueAfter radix v ds).toUInt32 := by
  induction ds generalizing v with
  | nil => rfl
  | cons c ds ih =>
      obtain ⟨d, hd⟩ := Option.isSome_iff_exists.1 (hds c List.mem_cons_self)
      have hcons : valueAfter radix v (c :: ds) = valueAfter radix (radix * v + d) ds := by
        rw [valueAfter, List.foldl_cons, hd, Option.getD_some, valueAfter]
      rw [hcons] at hlt ⊢
      have hle := le_valueAfter hradix ds (radix * v + d)
      rw [readDigits, hd]
      dsimp only
      rw [if_neg (by omega)]
      exact ih (fun c' hc' => hds c' (List.mem_cons_of_mem _ hc')) hlt

/-- A literal that is not too large has the value of its digits. -/
theorem readNumber_eq_value {radix : Nat} (hradix : 0 < radix) {ds : Text} (hne : ds ≠ [])
    (hds : ∀ c ∈ ds, isDigit radix c) (hlt : value radix ds < 2 ^ 32) :
    readNumber radix ds = .value (value radix ds).toUInt32 := by
  cases ds with
  | nil => exact absurd rfl hne
  | cons c ds => exact readDigits_eq hradix hds hlt

/-- **A number that was printed with its mark is read back.** -/
theorem integer_marked (width : Nat) {n : Nat} (hn : n < 2 ^ 32) :
    integer (marked width n) = .value n.toUInt32 := by
  have hread : integer (marked width n) = readNumber 16 (hex width n) := rfl
  rw [hread, readNumber_eq_value (by decide) (hex_ne_nil width n) (fun c => isDigit_of_mem_hex)]
  · rw [value_hex]
  · rwa [value_hex]

end Literal

end WordMachine
