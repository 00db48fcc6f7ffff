/-
**Operands that are numbers.**

An operand reads as a number when it is a numeric literal: an integer literal with a mark, or a real
literal without one.  No register, flag, string or address starts like a number, so that nothing
else decides.  A real literal is read up to the first NUL, and whatever stands behind that is not
looked at; an operand without a NUL is a number only as a whole.

Main definitions:

* `Operand.IsNumeric` — numeric literals, and the words that they stand for;
* `Operand.numericPart` — the part of an operand that is read as a number.

Main results:

* `Operand.parse_eq_immediate_iff_number` — an operand is a number if it reads as one;
* `Operand.number_eq_value_iff` — what reads as a number;
* `Operand.parse_eq_immediate_iff` — **which operands are numbers**;
* `Operand.immediate_unfinished` — a number with a NUL and more behind it.
-/

import WordMachine.Operand.Parser
import WordMachine.Proofs.Literal.Reals
import WordMachine.Proofs.Operand.Names

set_option relaxedAutoImplicit false
set_option autoImplicit false

namespace WordMachine

open Numeral Literal

variable {s t : Text} {c : Char} {n : UInt32} {x : Literal.Real}

/-! ### The front of a number -/

theorem Register.ofName?_eq_none (hc : c.toNat < 58) (s : Text) : ofName? (c :: s) = none := by
  refine Option.eq_none_iff_forall_ne_some.2 fun r hr => ?_
  have hname : r.name = Text.upper (c :: s) := by simpa using List.find?_some hr
  have hhead : r.name.head? = some c := by
    rw [hname, Text.upper, List.map_cons, Text.toUpper_of_lt (by omega)]
    rfl
  have hletter : r.name.head?.all (58 ≤ ·.toNat) := by cases r <;> rfl
  rw [hhead, Option.all_some, decide_eq_true_iff] at hletter
  omega

theorem Flag.ofOperandName?_eq_none (hc : c.toNat < 58) (s : Text) :
    ofOperandName? (c :: s) = none := by
  refine Option.eq_none_iff_forall_ne_some.2 fun f hf => ?_
  have hname : f.name = Text.lower (c :: s) := by simpa using List.find?_some hf
  have hhead : f.name.head? = some c := by
    rw [hname, Text.lower, List.map_cons, Text.toLower_of_lt (by omega)]
    rfl
  have hletter : f.name.head?.all (58 ≤ ·.toNat) := by cases f <;> rfl
  rw [hhead, Option.all_some, decide_eq_true_iff] at hletter
  omega

namespace Operand

/-- What starts like a number has a digit, a sign or a point in front. -/
theorem exists_front (h : startsNumeric s) : ∃ c r, s = c :: r ∧ c.toNat < 58 ∧ c ≠ '"' := by
  have hdigit : ∀ c : Char, isDigit 10 c → c.toNat < 58 ∧ c ≠ '"' := by
    intro c hc
    refine ⟨toNat_lt_of_isDigit hc, ?_⟩
    rintro rfl
    exact absurd hc (by decide)
  cases hsplit : takeSign s with
  | mk negative body =>
  obtain ⟨sign, hsign, rfl⟩ := exists_sign hsplit
  cases hsign with
  | absent =>
      unfold startsNumeric at h
      rw [hsplit] at h
      dsimp only at h
      split at h
      · exact ⟨'.', _, rfl, by decide, by decide⟩
      · rename_i c r _
        exact ⟨c, r, rfl, hdigit c h⟩
      · cases h
  | plus => exact ⟨'+', body, rfl, by decide, by decide⟩
  | minus => exact ⟨'-', body, rfl, by decide, by decide⟩

/-- What starts like a number is read as a number or as a bare label. -/
theorem parse_of_startsNumeric (h : startsNumeric t.trim) : parse t = parseBare t.trim := by
  obtain ⟨c, r, ht, hlt, hquote⟩ := exists_front h
  have hopen : c ≠ '[' := by
    rintro rfl
    exact absurd hlt (by decide)
  unfold parse
  rw [ht]
  simp only [List.isEmpty_cons, Bool.false_eq_true, if_false, enclosed?,
    beq_eq_false_iff_ne.2 hquote, beq_eq_false_iff_ne.2 hopen, Bool.false_and, Register.ofName?_eq_none hlt,
    Flag.ofOperandName?_eq_none hlt]

theorem startsNumeric_of_isMarked (h : isMarked s) : startsNumeric s := by
  obtain ⟨radix, digits, hmarks⟩ := exists_marks s
  cases hmarks with
  | none hx hb =>
      rw [isMarked, hx, hb] at h
      cases h
  | marked hmark => rfl

/-- What has no mark and does not start like a number is no number. -/
theorem startsNumeric_of_number (h : number s = .value n) : startsNumeric s := by
  unfold number at h
  split at h
  · rename_i hmark
    exact startsNumeric_of_isMarked hmark
  · split at h
    · rename_i hstart
      exact hstart
    · cases h

/-- **An operand is a number if it reads as one**: no other kind of operand starts like a number. -/
theorem parse_eq_immediate_iff_number :
    parse t = .ok (.immediate n) ↔ number t.trim = .value n := by
  constructor
  · intro h
    have hfits := fits_of_parse h
    generalize t.trim = token at hfits ⊢
    cases hfits with
    | number hn => exact hn
  · intro h
    rw [parse_of_startsNumeric (startsNumeric_of_number h), parseBare, h]

/-! ### Numeric literals -/

/-- **A numeric literal** and the word that it stands for: an integer literal with a mark, or a real
literal without one. -/
inductive IsNumeric : Text → UInt32 → Prop
  | marked {letter : Char} {radix : Nat} {digits : Text} {n : UInt32} (hmark : IsMark letter radix)
      (h : IsNumeral radix digits n.toNat) : IsNumeric ('0' :: letter :: digits) n
  | real {s : Text} {x : Literal.Real} (hmark : isMarked s = false) (h : IsReal s x) :
      IsNumeric s x.saturate

/-- The part of an operand that is read as a number: without a mark, it ends at the first NUL. -/
def numericPart (s : Text) : Text :=
  if isMarked s then s else s.upToNul

theorem isMarked_marked {letter : Char} {radix : Nat} (h : IsMark letter radix) (digits : Text) :
    isMarked ('0' :: letter :: digits) = true := by
  cases h with
  | x | X | b | B => rfl

/-- No mark holds a NUL. -/
theorem isMarked_upToNul (s : Text) : isMarked s.upToNul = isMarked s := by
  rcases s with _ | ⟨c, _ | ⟨d, s⟩⟩
  · rfl
  · by_cases hc : c = '\x00'
    · subst hc
      rfl
    · simp [Text.upToNul, hc, isMarked, afterMark?]
  · by_cases hc : c = '\x00'
    · subst hc
      rfl
    · by_cases hd : d = '\x00'
      · subst hd
        simp [Text.upToNul, hc, isMarked, afterMark?]
      · simp only [Text.upToNul, List.takeWhile_cons, bne_iff_ne.2 hc, bne_iff_ne.2 hd, if_true,
          isMarked, afterMark?]
        split <;> split <;> rfl

theorem startsNumeric_digit {sign : Text} {negative : Bool} (hsign : IsSign sign negative)
    (hc : isDigit 10 c) (r : Text) : startsNumeric (sign ++ c :: r) := by
  have hne : ∀ d : Char, isDigit 10 d = false → some c ≠ some d := by
    rintro d hd heq
    rw [← Option.some.inj heq, hc] at hd
    cases hd
  have hsplit : takeSign (sign ++ c :: r) = (negative, c :: r) :=
    takeSign_append hsign (hne '-' rfl) (hne '+' rfl)
  unfold startsNumeric
  rw [hsplit]
  dsimp only
  split
  · rename_i heq
    exact absurd (congrArg List.head? heq) (hne '.' rfl)
  · rename_i heq
    cases heq
    exact hc
  · rename_i heq
    cases heq

theorem startsNumeric_point {sign : Text} {negative : Bool} (hsign : IsSign sign negative)
    (hc : isDigit 10 c) (r : Text) : startsNumeric (sign ++ '.' :: c :: r) := by
  unfold startsNumeric
  rw [takeSign_append hsign (by simp) (by simp)]
  exact hc

/-- A real literal starts like a number, whatever follows it. -/
theorem startsNumeric_of_isReal (h : IsReal s x) (r : Text) : startsNumeric (s ++ r) := by
  cases h with
  | @decimal sign mantissa exponent negative m n k e hsign hm he =>
      rw [List.append_assoc, List.append_assoc]
      cases hm with
      | whole h =>
          obtain ⟨c, digits, rfl⟩ := List.exists_cons_of_ne_nil h.ne_nil
          exact startsNumeric_digit hsign (h.all c List.mem_cons_self) _
      | @fraction whole fraction m h =>
          cases whole with
          | nil =>
              obtain ⟨c, digits, rfl⟩ := List.exists_cons_of_ne_nil h.ne_nil
              exact startsNumeric_point hsign (h.all c List.mem_cons_self) _
          | cons c whole => exact startsNumeric_digit hsign (h.all c List.mem_cons_self) _
  | hexadecimal hsign =>
      rw [List.append_assoc]
      exact startsNumeric_digit hsign rfl _

/-! ### Numbers -/

theorem isNumeric_marked_iff (h : isMarked s) : IsNumeric s n ↔ IsInteger s n.toNat := by
  obtain ⟨radix, digits, hmarks⟩ := exists_marks s
  rw [hmarks.isInteger_iff]
  cases hmarks with
  | none hx hb =>
      rw [isMarked, hx, hb] at h
      cases h
  | marked hmark =>
      constructor
      · intro hs
        cases hs with
        | marked hmark' hdigits => rwa [hmark.unique hmark']
        | real hreal => exact Bool.noConfusion (h.symm.trans hreal)
      · exact .marked hmark

theorem isNumeric_unmarked_iff (h : isMarked s = false) :
    IsNumeric s n ↔ ∃ x, IsReal s x ∧ x.saturate = n := by
  constructor
  · intro hs
    cases hs with
    | marked hmark => exact Bool.noConfusion ((isMarked_marked hmark _).symm.trans h)
    | real _ hx => exact ⟨_, hx, rfl⟩
  · rintro ⟨x, hx, rfl⟩
    exact .real h hx

/-- A text without a mark is a number if it starts like one and is a real literal. -/
theorem number_unmarked (hmark : isMarked s = false) :
    number s = .value n ↔ startsNumeric s ∧ ∃ x, real? s = some x ∧ x.saturate = n := by
  unfold number
  rw [hmark]
  cases hstart : startsNumeric s with
  | false => simp
  | true =>
      cases hreal : real? s with
      | none => simp
      | some x => simp

/-- **What reads as a number.** -/
theorem number_eq_value_iff : number s = .value n ↔ IsNumeric (numericPart s) n := by
  unfold numericPart
  cases hmark : isMarked s with
  | true =>
      have hnumber : number s = integer s := by rw [number, if_pos hmark]
      rw [if_pos rfl, isNumeric_marked_iff hmark, hnumber, integer_eq_value_iff]
  | false =>
      rw [if_neg Bool.false_ne_true, number_unmarked hmark,
        isNumeric_unmarked_iff ((isMarked_upToNul s).trans hmark)]
      simp only [real?_eq_some_iff]
      refine and_iff_right_of_imp ?_
      rintro ⟨x, hx, -⟩
      obtain ⟨r, hr⟩ := List.takeWhile_prefix (l := s) (· != '\x00')
      rw [← hr]
      exact startsNumeric_of_isReal hx r

/-- Without a NUL, a number is read as a whole. -/
theorem numericPart_eq_self (h : '\x00' ∉ s) : numericPart s = s := by
  have hall : s.upToNul = s := Text.takeWhile_bne_eq_self h
  rw [numericPart, hall, ite_self]

/-- **Which operands are numbers.**  An operand is a number exactly when the part of it that is read
as a number is a numeric literal.  That part is the whole operand, without the white space around
it, unless the operand holds a NUL. -/
theorem parse_eq_immediate_iff (t : Text) :
    (∀ n, parse t = .ok (.immediate n) ↔ IsNumeric (numericPart t.trim) n) ∧
      ('\x00' ∉ t → ∀ n, parse t = .ok (.immediate n) ↔ IsNumeric t.trim n) := by
  have hpart : ∀ n, parse t = .ok (.immediate n) ↔ IsNumeric (numericPart t.trim) n := by
    intro n
    rw [parse_eq_immediate_iff_number, number_eq_value_iff]
  refine ⟨hpart, ?_⟩
  intro hnul n
  rw [hpart n, numericPart_eq_self (mt (Text.mem_trim_iff rfl).1 hnul)]

/-- A numeric literal holds no NUL. -/
theorem IsNumeric.nul_not_mem (h : IsNumeric s n) : '\x00' ∉ s := by
  cases h with
  | @marked letter radix digits n hmark h =>
      have hletter : letter ≠ '\x00' := by
        cases hmark with
        | x | X | b | B => decide
      simp only [List.mem_cons, not_or]
      exact ⟨by decide, hletter.symm, nul_not_mem_of_isNumeral h⟩
  | real _ h => exact h.nul_not_mem

/-- **A number with more behind it**: the operand is read as one, and is none as a whole. -/
theorem immediate_unfinished :
    parse "1\x00x".toList = .ok (.immediate 1) ∧
      ∀ n, ¬ IsNumeric (Text.trim "1\x00x".toList) n := by
  refine ⟨by decide +kernel, ?_⟩
  intro n h
  exact h.nul_not_mem (by decide)

end Operand

end WordMachine
