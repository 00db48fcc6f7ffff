/-
**Integer literals are recognised.**

A text is an integer literal if it is a numeral: decimal, hexadecimal after `0x`, or binary after
`0b`.  The reader finds the value of every literal of 32 bits, and of nothing else.  It looks at the
digits from the left and gives up at the first one that takes the value out of range, before it has
seen the characters that follow.  So what is reported as too large is every text with an integer
literal at its front that is too large, whether the text itself is a literal or not.

Main definitions:

* `Literal.IsNumeral`, `Literal.IsInteger` — numerals and integer literals, with their values;
* `Literal.IsMark`, `Literal.Marks` — the marks, and what the mark of a text says about its digits;
* `Literal.readDigits64` — reading digits with an accumulator of 64 bits.

Main results:

* `Literal.readNumber_eq_value_iff`, `Literal.readNumber_eq_tooLarge_iff` — the outcomes of reading
  digits;
* `Literal.readDigits64_eq` — the accumulator does not wrap;
* `Literal.IsInteger.unique` — a literal has one value;
* `Literal.integer_outcomes` — **the three outcomes of reading an integer literal**;
* `Literal.tooLarge_unfinished` — a text that is no literal and is reported as too large.
-/

import Mathlib.Data.List.Induction
import WordMachine.Proofs.Text.LetterCase
import WordMachine.Proofs.Text.Numerals

set_option relaxedAutoImplicit false
set_option autoImplicit false

namespace WordMachine

/-! ### Digits -/

namespace Numeral

variable {radix v : Nat} {s t : Text} {c : Char}

theorem digit?_eq_some {d : Nat} (h : digit? radix c = some d) : d < radix := by
  rw [digit?, Option.filter_eq_some_iff] at h
  exact of_decide_eq_true h.2

theorem valueAfter_cons {d : Nat} (h : digit? radix c = some d) (s : Text) :
    valueAfter radix v (c :: s) = valueAfter radix (radix * v + d) s := by
  rw [valueAfter, List.foldl_cons, h, Option.getD_some, valueAfter]

theorem isDigit_of_digit? {d : Nat} (h : digit? radix c = some d) : isDigit radix c := by
  rw [isDigit, h]
  rfl

/-- Decimal digits stand before all letters. -/
theorem toNat_lt_of_isDigit (h : isDigit 10 c) : c.toNat < 58 := by
  by_cases hdecimal : '0' ≤ c ∧ c ≤ '9'
  · have hle : c.toNat ≤ 57 := hdecimal.2
    omega
  · obtain ⟨d, hd⟩ := Option.isSome_iff_exists.1 h
    have hlt := digit?_eq_some hd
    rw [digit?, if_neg hdecimal, Option.filter_eq_some_iff] at hd
    obtain ⟨hletter, -⟩ := hd
    split at hletter
    · rename_i hlower
      have hle : 97 ≤ c.toNat := hlower.1
      cases hletter
      omega
    · split at hletter
      · rename_i hupper
        have hle : 65 ≤ c.toNat := hupper.1
        cases hletter
        omega
      · cases hletter

end Numeral

namespace Literal

open Numeral

variable {radix v w : Nat} {s t p digits : Text} {c letter : Char}

/-! ### Reading digits -/

/-- Digits with a value of 32 bits are read. -/
theorem readDigits_eq_value {n : UInt32} (h : readDigits radix v s = .value n) (hv : v < 2 ^ 32) :
    (∀ c ∈ s, isDigit radix c) ∧ n.toNat = valueAfter radix v s := by
  induction s generalizing v with
  | nil =>
      cases h
      refine ⟨by simp, ?_⟩
      rw [Nat.toUInt32, UInt32.toNat_ofNat_of_lt' hv]
      rfl
  | cons c s ih =>
      rw [readDigits] at h
      cases hd : digit? radix c with
      | none =>
          rw [hd] at h
          cases h
      | some d =>
          rw [hd] at h
          dsimp only at h
          split at h
          · cases h
          · rename_i hlt
            obtain ⟨hs, hn⟩ := ih h (by omega)
            refine ⟨List.forall_mem_cons.2 ⟨isDigit_of_digit? hd, hs⟩, ?_⟩
            rw [hn, valueAfter_cons hd]

/-- Digits that exceed 32 bits stand at the front of a text that is given up. -/
theorem readDigits_eq_tooLarge (h : readDigits radix v s = .tooLarge) :
    ∃ p, p ≠ [] ∧ p <+: s ∧ (∀ c ∈ p, isDigit radix c) ∧ 2 ^ 32 ≤ valueAfter radix v p := by
  induction s generalizing v with
  | nil => cases h
  | cons c s ih =>
      rw [readDigits] at h
      cases hd : digit? radix c with
      | none =>
          rw [hd] at h
          cases h
      | some d =>
          have hc := isDigit_of_digit? hd
          rw [hd] at h
          dsimp only at h
          split at h
          · rename_i hge
            refine ⟨[c], List.cons_ne_nil _ _, ⟨s, rfl⟩, by simpa using hc, ?_⟩
            rw [valueAfter_cons hd]
            exact hge
          · obtain ⟨p, -, ⟨t, rfl⟩, hdigits, hge⟩ := ih h
            refine ⟨c :: p, List.cons_ne_nil _ _, ⟨t, rfl⟩,
              List.forall_mem_cons.2 ⟨hc, hdigits⟩, ?_⟩
            rw [valueAfter_cons hd]
            exact hge

/-- Whatever follows digits that exceed 32 bits, the text is given up. -/
theorem readDigits_append (hp : ∀ c ∈ p, isDigit radix c)
    (hge : 2 ^ 32 ≤ valueAfter radix v p) (hv : v < 2 ^ 32) (t : Text) :
    readDigits radix v (p ++ t) = .tooLarge := by
  induction p generalizing v with
  | nil => exact absurd hv (Nat.not_lt.2 hge)
  | cons c p ih =>
      obtain ⟨hc, hp⟩ := List.forall_mem_cons.1 hp
      obtain ⟨d, hd⟩ := Option.isSome_iff_exists.1 hc
      rw [valueAfter_cons hd] at hge
      rw [List.cons_append, readDigits, hd]
      dsimp only
      split
      · rfl
      · exact ih hp hge (by omega)

/-- **A numeral** of the given radix and value: one or more digits. -/
structure IsNumeral (radix : Nat) (digits : Text) (v : Nat) : Prop where
  ne_nil : digits ≠ []
  all : ∀ c ∈ digits, isDigit radix c
  value_eq : value radix digits = v

/-- Digits have a value below the power of the radix that their number says. -/
theorem IsNumeral.value_lt (h : IsNumeral radix digits v) : v < radix ^ digits.length := by
  obtain ⟨hne, hall, rfl⟩ := h
  clear hne
  induction digits using List.reverseRecOn with
  | nil => exact Nat.zero_lt_one
  | append_singleton digits c ih =>
      obtain ⟨hdigits, hc⟩ := List.forall_mem_append.1 hall
      obtain ⟨d, hd⟩ := Option.isSome_iff_exists.1 (hc c List.mem_cons_self)
      have hlt := ih hdigits
      have hd' := digit?_eq_some hd
      rw [value_concat, hd, Option.getD_some, List.length_append, List.length_singleton,
        Nat.pow_succ']
      calc radix * value radix digits + d < radix * (value radix digits + 1) := by
            rw [Nat.mul_succ]
            omega
        _ ≤ radix * radix ^ digits.length := Nat.mul_le_mul_left radix hlt

theorem readNumber_of_ne_nil (h : s ≠ []) : readNumber radix s = readDigits radix 0 s := by
  cases s with
  | nil => exact absurd rfl h
  | cons c s => rfl

/-- A numeral of 32 bits is read as its value, and nothing else is. -/
theorem readNumber_eq_value_iff (hradix : 0 < radix) {n : UInt32} :
    readNumber radix s = .value n ↔ IsNumeral radix s n.toNat := by
  constructor
  · intro h
    have hne : s ≠ [] := by
      rintro rfl
      cases h
    rw [readNumber_of_ne_nil hne] at h
    obtain ⟨hs, hn⟩ := readDigits_eq_value h (by decide)
    exact ⟨hne, hs, hn.symm⟩
  · rintro ⟨hne, hs, hvalue⟩
    have hlt : value radix s < 2 ^ 32 := by
      rw [hvalue]
      exact n.toNat_lt
    rw [readNumber_eq_value hradix hne hs hlt, hvalue]
    simp

/-- A text is given up when a numeral at its front is too large. -/
theorem readNumber_eq_tooLarge_iff :
    readNumber radix s = .tooLarge ↔ ∃ p v, p <+: s ∧ IsNumeral radix p v ∧ 2 ^ 32 ≤ v := by
  constructor
  · intro h
    have hne : s ≠ [] := by
      rintro rfl
      cases h
    rw [readNumber_of_ne_nil hne] at h
    obtain ⟨p, hp, hprefix, hdigits, hge⟩ := readDigits_eq_tooLarge h
    exact ⟨p, _, hprefix, ⟨hp, hdigits, rfl⟩, hge⟩
  · rintro ⟨p, v, ⟨t, rfl⟩, ⟨hp, hdigits, rfl⟩, hge⟩
    rw [readNumber_of_ne_nil (by simp [hp])]
    exact readDigits_append hdigits hge (by decide) t

/-! ### The accumulator -/

/-- Reading digits with an accumulator of 64 bits, which would wrap. -/
def readDigits64 (radix : Nat) : UInt64 → Text → Integer
  | v, [] => .value v.toUInt32
  | v, c :: cs =>
    match digit? radix c with
    | none => .malformed
    | some d =>
      let v := v * radix.toUInt64 + d.toUInt64
      if 0xFFFFFFFF < v then .tooLarge else readDigits64 radix v cs

/-- **The accumulator does not wrap**: the value before each digit has 32 bits, and one digit adds
at most five. -/
theorem readDigits64_eq (hradix : radix ≤ 16) {v : UInt64} (hv : v.toNat < 2 ^ 32) (s : Text) :
    readDigits64 radix v s = readDigits radix v.toNat s := by
  induction s generalizing v with
  | nil => rfl
  | cons c s ih =>
      rw [readDigits64, readDigits]
      cases hd : digit? radix c with
      | none => rfl
      | some d =>
          have hlt := digit?_eq_some hd
          have hmul : v.toNat * radix ≤ v.toNat * 16 := Nat.mul_le_mul_left _ hradix
          have hradix64 : radix.toUInt64.toNat = radix :=
            UInt64.toNat_ofNat_of_lt' (Nat.lt_of_le_of_lt hradix (by decide))
          have hd64 : d.toUInt64.toNat = d :=
            UInt64.toNat_ofNat_of_lt' (Nat.lt_of_lt_of_le hlt (Nat.le_trans hradix (by decide)))
          have hnext : (v * radix.toUInt64 + d.toUInt64).toNat = radix * v.toNat + d := by
            rw [UInt64.toNat_add, UInt64.toNat_mul, hradix64, hd64, Nat.mul_comm radix]
            rw [Nat.mod_eq_of_lt (a := v.toNat * radix) (by omega), Nat.mod_eq_of_lt (by omega)]
          have hiff : 0xFFFFFFFF < v * radix.toUInt64 + d.toUInt64 ↔
              2 ^ 32 ≤ radix * v.toNat + d := by
            rw [UInt64.lt_iff_toNat_lt, hnext]
            exact Iff.rfl
          dsimp only
          by_cases hge : 2 ^ 32 ≤ radix * v.toNat + d
          · rw [if_pos (hiff.2 hge), if_pos hge]
          · rw [if_neg (mt hiff.1 hge), if_neg hge, ih (by omega), hnext]

/-! ### Literals -/

/-- The letters that mark a literal, and the radix that they ask for. -/
inductive IsMark : Char → Nat → Prop
  | x : IsMark 'x' 16
  | X : IsMark 'X' 16
  | b : IsMark 'b' 2
  | B : IsMark 'B' 2

/-- **An integer literal** and its value: a decimal numeral without a mark, or a numeral behind a
zero and the letter that marks its radix. -/
inductive IsInteger : Text → Nat → Prop
  | decimal {digits : Text} {v : Nat} (h : IsNumeral 10 digits v) : IsInteger digits v
  | marked {letter : Char} {radix : Nat} {digits : Text} {v : Nat} (hmark : IsMark letter radix)
      (h : IsNumeral radix digits v) : IsInteger ('0' :: letter :: digits) v

/-- `Marks s radix digits`: the text has a mark that asks for the radix, or has none, and what
follows are the digits, if they are digits at all. -/
inductive Marks : Text → Nat → Text → Prop
  | none {s : Text} (hx : afterMark? 'x' s = none) (hb : afterMark? 'b' s = none) : Marks s 10 s
  | marked {letter : Char} {radix : Nat} (hmark : IsMark letter radix) (digits : Text) :
      Marks ('0' :: letter :: digits) radix digits

/-- A marked text starts with a zero and the letter of the mark, in either case. -/
theorem eq_of_afterMark? (h : afterMark? letter s = some digits) :
    ∃ d, (d = letter ∨ d = letter.toUpper) ∧ s = '0' :: d :: digits := by
  rcases s with _ | ⟨c, _ | ⟨d, s⟩⟩
  · cases h
  · cases h
  · rw [afterMark?] at h
    split at h
    · rename_i hmark
      obtain ⟨rfl, hd⟩ : c = '0' ∧ d.toLower = letter := by simpa using hmark
      cases h
      exact ⟨d, Text.eq_or_eq_of_toLower hd, rfl⟩
    · cases h

namespace IsMark

theorem unique {radix' : Nat} (h : IsMark letter radix) (h' : IsMark letter radix') :
    radix = radix' := by
  cases h with
  | x => cases h'; rfl
  | X => cases h'; rfl
  | b => cases h'; rfl
  | B => cases h'; rfl

theorem radix_pos (h : IsMark letter radix) : 0 < radix := by
  cases h with
  | x | X | b | B => decide

theorem integer_eq (h : IsMark letter radix) (digits : Text) :
    integer ('0' :: letter :: digits) = readNumber radix digits := by
  cases h with
  | x | X | b | B => rfl

/-- The mark of a literal is no part of a decimal numeral. -/
theorem not_isNumeral (h : IsMark letter radix) : ¬ IsNumeral 10 ('0' :: letter :: digits) v := by
  intro hnumeral
  have hdigit := hnumeral.all letter (List.mem_cons_of_mem _ List.mem_cons_self)
  cases h with
  | x | X | b | B => exact absurd hdigit (by decide)

/-- A text without a mark does not start with one. -/
theorem ne_of_afterMark? (h : IsMark letter radix) (hx : afterMark? 'x' s = none)
    (hb : afterMark? 'b' s = none) : s ≠ '0' :: letter :: digits := by
  rintro rfl
  cases h with
  | x | X => cases hx
  | b | B => cases hb

end IsMark

/-- Every text has a mark or none. -/
theorem exists_marks (s : Text) : ∃ radix digits, Marks s radix digits := by
  cases hx : afterMark? 'x' s with
  | some digits =>
      obtain ⟨letter, rfl | rfl, rfl⟩ := eq_of_afterMark? hx
      · exact ⟨16, digits, .marked .x digits⟩
      · exact ⟨16, digits, .marked .X digits⟩
  | none =>
      cases hb : afterMark? 'b' s with
      | some digits =>
          obtain ⟨letter, rfl | rfl, rfl⟩ := eq_of_afterMark? hb
          · exact ⟨2, digits, .marked .b digits⟩
          · exact ⟨2, digits, .marked .B digits⟩
      | none => exact ⟨10, s, .none hx hb⟩

namespace Marks

theorem radix_pos (h : Marks s radix digits) : 0 < radix := by
  cases h with
  | none => decide
  | marked hmark => exact hmark.radix_pos

theorem integer_eq (h : Marks s radix digits) : integer s = readNumber radix digits := by
  cases h with
  | none hx hb => rw [integer, hx, hb]
  | marked hmark => exact hmark.integer_eq digits

/-- A literal has the digits that its mark asks for. -/
theorem isInteger_iff (h : Marks s radix digits) : IsInteger s v ↔ IsNumeral radix digits v := by
  cases h with
  | none hx hb =>
      constructor
      · intro hs
        cases hs with
        | decimal hdigits => exact hdigits
        | marked hmark _ => exact absurd rfl (hmark.ne_of_afterMark? hx hb)
      · exact .decimal
  | marked hmark =>
      constructor
      · intro hs
        cases hs with
        | decimal hdigits => exact absurd hdigits hmark.not_isNumeral
        | marked hmark' hdigits => rwa [hmark.unique hmark']
      · exact .marked hmark

/-- The literals that are too large at the front of a text, as its mark tells. -/
theorem large_iff (h : Marks s radix digits) :
    (∃ p v, p <+: s ∧ IsInteger p v ∧ 2 ^ 32 ≤ v) ↔
      ∃ p v, p <+: digits ∧ IsNumeral radix p v ∧ 2 ^ 32 ≤ v := by
  cases h with
  | none hx hb =>
      constructor
      · rintro ⟨p, v, hp, hv, hge⟩
        cases hv with
        | decimal hdigits => exact ⟨p, v, hp, hdigits, hge⟩
        | marked hmark _ =>
            obtain ⟨t, ht⟩ := hp
            exact absurd ht.symm (hmark.ne_of_afterMark? hx hb)
      · rintro ⟨p, v, hp, hv, hge⟩
        exact ⟨p, v, hp, .decimal hv, hge⟩
  | @marked letter _ hmark =>
      constructor
      · rintro ⟨p, v, hp, hv, hge⟩
        cases hv with
        | decimal hdigits =>
            -- A decimal numeral ends before the letter, so it is the zero.
            rcases p with _ | ⟨c, _ | ⟨d, p⟩⟩
            · exact absurd rfl hdigits.ne_nil
            · obtain rfl : c = '0' := (List.cons_prefix_cons.1 hp).1
              obtain rfl : 0 = v := hdigits.value_eq
              exact absurd hge (by decide)
            · obtain ⟨rfl, htail⟩ := List.cons_prefix_cons.1 hp
              obtain ⟨rfl, -⟩ := List.cons_prefix_cons.1 htail
              exact absurd hdigits hmark.not_isNumeral
        | @marked letter' _ q _ hmark' hdigits =>
            obtain ⟨-, htail⟩ := List.cons_prefix_cons.1 hp
            obtain ⟨rfl, hq⟩ := List.cons_prefix_cons.1 htail
            rw [hmark.unique hmark']
            exact ⟨q, v, hq, hdigits, hge⟩
      · rintro ⟨p, v, hp, hv, hge⟩
        refine ⟨'0' :: letter :: p, v, ?_, .marked hmark hv, hge⟩
        exact List.cons_prefix_cons.2 ⟨rfl, List.cons_prefix_cons.2 ⟨rfl, hp⟩⟩

end Marks

/-- A literal has one value. -/
theorem IsInteger.unique (hv : IsInteger s v) (hw : IsInteger s w) : v = w := by
  obtain ⟨radix, digits, h⟩ := exists_marks s
  have hvalue := (h.isInteger_iff.1 hv).value_eq
  rw [(h.isInteger_iff.1 hw).value_eq] at hvalue
  exact hvalue.symm

theorem integer_eq_value_iff {n : UInt32} : integer s = .value n ↔ IsInteger s n.toNat := by
  obtain ⟨radix, digits, h⟩ := exists_marks s
  rw [h.integer_eq, h.isInteger_iff, readNumber_eq_value_iff h.radix_pos]

theorem integer_eq_tooLarge_iff :
    integer s = .tooLarge ↔ ∃ p v, p <+: s ∧ IsInteger p v ∧ 2 ^ 32 ≤ v := by
  obtain ⟨radix, digits, h⟩ := exists_marks s
  rw [h.integer_eq, h.large_iff, readNumber_eq_tooLarge_iff]

theorem integer_eq_malformed_iff :
    integer s = .malformed ↔
      (∀ v, ¬ IsInteger s v) ∧ ∀ p v, p <+: s → IsInteger p v → v < 2 ^ 32 := by
  constructor
  · intro h
    have hsmall : ∀ p v, p <+: s → IsInteger p v → v < 2 ^ 32 := by
      intro p v hp hv
      refine Nat.lt_of_not_le fun hge => ?_
      cases h.symm.trans (integer_eq_tooLarge_iff.2 ⟨p, v, hp, hv, hge⟩)
    refine ⟨?_, hsmall⟩
    intro v hv
    have hn : (UInt32.ofNat v).toNat = v :=
      UInt32.toNat_ofNat_of_lt' (hsmall s v (List.prefix_refl s) hv)
    cases h.symm.trans (integer_eq_value_iff.2 (hn.symm ▸ hv))
  · rintro ⟨hnone, hsmall⟩
    cases h : integer s with
    | value n => exact absurd (integer_eq_value_iff.1 h) (hnone _)
    | tooLarge =>
        obtain ⟨p, v, hp, hv, hge⟩ := integer_eq_tooLarge_iff.1 h
        exact absurd (hsmall p v hp hv) (Nat.not_lt.2 hge)
    | malformed => rfl

/-- **The three outcomes of reading an integer literal.**  The value of a text is that of the
literal, if it is one of 32 bits.  A text is too large exactly when a literal that is too large
stands at its front, be it the whole text or not; and any other text is malformed. -/
theorem integer_outcomes (s : Text) :
    (∀ n : UInt32, integer s = .value n ↔ IsInteger s n.toNat) ∧
      (integer s = .tooLarge ↔ ∃ p v, p <+: s ∧ IsInteger p v ∧ 2 ^ 32 ≤ v) ∧
      (integer s = .malformed ↔
        (∀ v, ¬ IsInteger s v) ∧ ∀ p v, p <+: s → IsInteger p v → v < 2 ^ 32) :=
  ⟨fun _ => integer_eq_value_iff, integer_eq_tooLarge_iff, integer_eq_malformed_iff⟩

/-- **A text that is no literal** and is reported as too large. -/
theorem tooLarge_unfinished :
    integer "4294967296z".toList = .tooLarge ∧ ∀ v, ¬ IsInteger "4294967296z".toList v := by
  refine ⟨by decide +kernel, ?_⟩
  intro v h
  cases h with
  | decimal hdigits => exact absurd (hdigits.all 'z' (by decide)) (by decide)

end Literal

end WordMachine
