/-
**Real literals are recognised.**

A real literal is read in four steps: a sign, a mark, digits with a point among them, and an
exponent.  Each step takes from the front what belongs to it, and nothing may be left at the end.
The characters that can follow a step are told apart by their first one: no digit is a point, and no
letter of an exponent is a digit of its own radix.  So every text is read in at most one way, and the
reader accepts a text exactly when it can be composed of the four parts.

Main definitions:

* `Literal.IsSign`, `Literal.IsMantissa`, `Literal.IsExponent` — the parts of a real literal, with
  their values;
* `Literal.IsReal` — real literals.

Main results:

* `Literal.exponent?_eq_some_iff`, `Literal.unsigned?_eq_some`, `Literal.unsigned?_append` — the
  parts are recognised;
* `Literal.real?_eq_some_iff` — **the reader accepts exactly the real literals**, up to the first
  NUL;
* `Literal.IsReal.nul_not_mem` — a literal holds no NUL.
-/

import WordMachine.Literal.Real
import WordMachine.Proofs.Literal.Integers
import WordMachine.Proofs.Text.Cutting
import Mathlib.Data.List.Basic
import Mathlib.Data.List.TakeWhile

set_option relaxedAutoImplicit false
set_option autoImplicit false

namespace WordMachine.Literal

open Numeral

variable {radix weight base m n k : Nat} {s t sign mantissa exponent digits : Text}
  {c letter : Char} {negative : Bool} {e : Int} {x : Real}

/-! ### The parts of a literal -/

/-- An optional sign; `true` is a minus. -/
inductive IsSign : Text → Bool → Prop
  | absent : IsSign [] false
  | plus : IsSign ['+'] false
  | minus : IsSign ['-'] true

/-- `IsMantissa radix s m n k`: digits with the value `m`, of which there are `n`, the last `k` of
them behind a point. -/
inductive IsMantissa (radix : Nat) : Text → Nat → Nat → Nat → Prop
  | whole {digits : Text} {m : Nat} (h : IsNumeral radix digits m) :
      IsMantissa radix digits m digits.length 0
  | fraction {whole fraction : Text} {m : Nat} (h : IsNumeral radix (whole ++ fraction) m) :
      IsMantissa radix (whole ++ '.' :: fraction) m (whole ++ fraction).length fraction.length

/-- An optional exponent: the letter in either case, a sign and a decimal numeral. -/
inductive IsExponent (letter : Char) : Text → Int → Prop
  | absent : IsExponent letter [] 0
  | present {c : Char} {sign digits : Text} {negative : Bool} {e : Nat} (hc : c.toLower = letter)
      (hsign : IsSign sign negative) (h : IsNumeral 10 digits e) :
      IsExponent letter (c :: (sign ++ digits)) (if negative then -e else e)

/-- **A real literal**: a sign, and a decimal mantissa with an exponent of ten, or a hexadecimal one
behind its mark with an exponent of two. -/
inductive IsReal : Text → Real → Prop
  | decimal {sign mantissa exponent : Text} {negative : Bool} {m n k : Nat} {e : Int}
      (hsign : IsSign sign negative) (hm : IsMantissa 10 mantissa m n k)
      (he : IsExponent 'e' exponent e) :
      IsReal (sign ++ (mantissa ++ exponent)) ⟨negative, m, n, 1, 10, e - (1 : Nat) * k⟩
  | hexadecimal {sign mantissa exponent : Text} {letter : Char} {negative : Bool} {m n k : Nat}
      {e : Int} (hsign : IsSign sign negative) (hmark : IsMark letter 16)
      (hm : IsMantissa 16 mantissa m n k) (he : IsExponent 'p' exponent e) :
      IsReal (sign ++ '0' :: letter :: (mantissa ++ exponent))
        ⟨negative, m, n, 4, 2, e - (4 : Nat) * k⟩

/-! ### Signs -/

/-- What is split off is a sign. -/
theorem exists_sign (h : takeSign s = (negative, t)) :
    ∃ sign, IsSign sign negative ∧ s = sign ++ t := by
  unfold takeSign at h
  split at h
  · cases h
    exact ⟨['-'], .minus, rfl⟩
  · cases h
    exact ⟨['+'], .plus, rfl⟩
  · cases h
    exact ⟨[], .absent, rfl⟩

/-- A sign is split off from what is not signed itself. -/
theorem takeSign_append (h : IsSign sign negative) (hminus : t.head? ≠ some '-')
    (hplus : t.head? ≠ some '+') : takeSign (sign ++ t) = (negative, t) := by
  cases h with
  | absent =>
      rw [List.nil_append]
      unfold takeSign
      split
      · exact absurd rfl hminus
      · exact absurd rfl hplus
      · rfl
  | plus => rfl
  | minus => rfl

/-! ### Exponents -/

theorem exponent?_eq_some (h : exponent? letter s = some e) : IsExponent letter s e := by
  cases s with
  | nil =>
      cases h
      exact .absent
  | cons c s =>
      rw [exponent?] at h
      cases hsplit : takeSign s with
      | mk negative digits =>
      obtain ⟨sign, hsign, rfl⟩ := exists_sign hsplit
      rw [hsplit] at h
      dsimp only at h
      split at h
      · rename_i hdigits
        simp only [Bool.and_eq_true, beq_iff_eq, Bool.not_eq_true', List.isEmpty_eq_false_iff,
          List.all_eq_true] at hdigits
        cases h
        exact .present hdigits.1.1 hsign ⟨hdigits.1.2, hdigits.2, rfl⟩
      · cases h

theorem head?_ne_of_isNumeral (h : IsNumeral radix digits m) (hc : Text.isWordChar c = false) :
    digits.head? ≠ some c := by
  intro hhead
  have hdigit := isWordChar_of_isDigit (h.all c (List.mem_of_mem_head? hhead))
  rw [hc] at hdigit
  cases hdigit

theorem exponent?_of_isExponent (h : IsExponent letter s e) : exponent? letter s = some e := by
  cases h with
  | absent => rfl
  | @present c sign digits negative e hc hsign h =>
      have hsplit : takeSign (sign ++ digits) = (negative, digits) :=
        takeSign_append hsign (head?_ne_of_isNumeral h rfl) (head?_ne_of_isNumeral h rfl)
      have hdigits :
          (c.toLower == letter && !digits.isEmpty && digits.all (isDigit 10)) = true := by
        simp only [Bool.and_eq_true, beq_iff_eq, Bool.not_eq_true', List.isEmpty_eq_false_iff,
          List.all_eq_true]
        exact ⟨⟨hc, h.ne_nil⟩, h.all⟩
      rw [exponent?, hsplit]
      dsimp only
      rw [if_pos hdigits, h.value_eq]

/-- An exponent is recognised. -/
theorem exponent?_eq_some_iff : exponent? letter s = some e ↔ IsExponent letter s e :=
  ⟨exponent?_eq_some, exponent?_of_isExponent⟩

/-! ### Mantissa and exponent -/

/-- The letter of an exponent is neither a digit of the mantissa nor a point. -/
def SetsOff (letter : Char) (radix : Nat) : Prop :=
  ∀ c : Char, c.toLower = letter → isDigit radix c = false ∧ c ≠ '.'

theorem setsOff_decimal : SetsOff 'e' 10 := by
  intro c hc
  rcases Text.eq_or_eq_of_toLower hc with rfl | rfl
  · decide
  · decide

theorem setsOff_hexadecimal : SetsOff 'p' 16 := by
  intro c hc
  rcases Text.eq_or_eq_of_toLower hc with rfl | rfl
  · decide
  · decide

theorem SetsOff.head (hletter : SetsOff letter radix) (he : IsExponent letter exponent e) :
    ∀ c ∈ exponent.head?, isDigit radix c = false ∧ c ≠ '.' := by
  intro c hc
  cases he with
  | absent => cases hc
  | present hlower =>
      cases hc
      exact hletter _ hlower

/-- What follows the digits in front of a point: the digits behind it, and the rest. -/
def splitPoint (radix : Nat) : Text → Text × Text
  | '.' :: r => (r.takeWhile (isDigit radix), r.dropWhile (isDigit radix))
  | r => ([], r)

theorem splitPoint_of_ne (h : ∀ c ∈ s.head?, c ≠ '.') : splitPoint radix s = ([], s) := by
  unfold splitPoint
  split
  · exact absurd rfl (h '.' rfl)
  · rfl

/-- What is split off is a point and digits, or nothing. -/
theorem splitPoint_cases (radix : Nat) (s : Text) :
    splitPoint radix s = ([], s) ∨ ∃ fraction rest, s = '.' :: (fraction ++ rest) ∧
      (∀ c ∈ fraction, isDigit radix c) ∧ splitPoint radix s = (fraction, rest) := by
  unfold splitPoint
  split
  · rename_i r
    exact .inr ⟨_, _, by rw [List.takeWhile_append_dropWhile],
      fun c hc => List.mem_takeWhile_imp hc, rfl⟩
  · exact .inl rfl

/-- The literal of digits in front of a point, of digits behind it and of an exponent. -/
def compose (negative : Bool) (radix weight base : Nat) (letter : Char)
    (whole fraction exponent : Text) : Option Real :=
  if (whole ++ fraction).isEmpty then none
  else (exponent? letter exponent).map fun e =>
    { negative, base, weight
      mantissa := value radix (whole ++ fraction)
      digits := (whole ++ fraction).length
      exponent := e - weight * fraction.length }

theorem compose_eq_some_iff {whole fraction : Text} :
    compose negative radix weight base letter whole fraction exponent = some x ↔
      whole ++ fraction ≠ [] ∧ ∃ e, IsExponent letter exponent e ∧
        x = ⟨negative, value radix (whole ++ fraction), (whole ++ fraction).length, weight, base,
          e - weight * fraction.length⟩ := by
  unfold compose
  split
  · rename_i hnil
    exact iff_of_false nofun fun h => h.1 (List.isEmpty_iff.1 hnil)
  · rename_i hne
    have hne' : whole ++ fraction ≠ [] := fun hnil => hne (List.isEmpty_iff.2 hnil)
    rw [Option.map_eq_some_iff, and_iff_right hne']
    simp only [exponent?_eq_some_iff, eq_comm (b := x)]

theorem unsigned?_eq (s : Text) :
    unsigned? negative radix weight base letter s =
      compose negative radix weight base letter (s.takeWhile (isDigit radix))
        (splitPoint radix (s.dropWhile (isDigit radix))).1
        (splitPoint radix (s.dropWhile (isDigit radix))).2 :=
  rfl

theorem unsigned?_eq_some (h : unsigned? negative radix weight base letter s = some x) :
    ∃ mantissa exponent m n k e, s = mantissa ++ exponent ∧ IsMantissa radix mantissa m n k ∧
      IsExponent letter exponent e ∧ x = ⟨negative, m, n, weight, base, e - weight * k⟩ := by
  rw [unsigned?_eq] at h
  have hs : s.takeWhile (isDigit radix) ++ s.dropWhile (isDigit radix) = s :=
    List.takeWhile_append_dropWhile
  have hwhole : ∀ c ∈ s.takeWhile (isDigit radix), isDigit radix c :=
    fun c hc => List.mem_takeWhile_imp hc
  generalize s.takeWhile (isDigit radix) = whole at *
  generalize s.dropWhile (isDigit radix) = rest at *
  obtain ⟨hne, e, he, rfl⟩ := compose_eq_some_iff.1 h
  rcases splitPoint_cases radix rest with hsplit | ⟨fraction, rest', rfl, hfraction, hsplit⟩
  · rw [hsplit] at hne he ⊢
    rw [List.append_nil] at hne ⊢
    exact ⟨whole, rest, _, _, _, e, hs.symm, .whole ⟨hne, hwhole, rfl⟩, he, rfl⟩
  · rw [hsplit] at hne he ⊢
    have hdigits : IsNumeral radix (whole ++ fraction) (value radix (whole ++ fraction)) :=
      ⟨hne, List.forall_mem_append.2 ⟨hwhole, hfraction⟩, rfl⟩
    refine ⟨_, rest', _, _, _, e, ?_, .fraction hdigits, he, rfl⟩
    rw [List.append_assoc, List.cons_append, hs]

/-- **Digits and an exponent** are recognised, where the exponent is set off. -/
theorem unsigned?_append (hletter : SetsOff letter radix) (hm : IsMantissa radix mantissa m n k)
    (he : IsExponent letter exponent e) :
    unsigned? negative radix weight base letter (mantissa ++ exponent) =
      some ⟨negative, m, n, weight, base, e - weight * k⟩ := by
  have hhead := hletter.head he
  have hdigit : ∀ c ∈ exponent.head?, isDigit radix c = false := fun c hc => (hhead c hc).1
  rw [unsigned?_eq]
  cases hm with
  | @whole digits m h =>
      rw [Text.takeWhile_append_of_head h.all hdigit, Text.dropWhile_append_of_head h.all hdigit,
        splitPoint_of_ne fun c hc => (hhead c hc).2, compose_eq_some_iff, List.append_nil]
      exact ⟨h.ne_nil, e, he, by rw [h.value_eq]; rfl⟩
  | @fraction whole fraction m h =>
      obtain ⟨hwhole, hfraction⟩ := List.forall_mem_append.1 h.all
      have hpoint : ∀ c ∈ ('.' :: (fraction ++ exponent)).head?, isDigit radix c = false := by
        intro c hc
        cases hc
        rfl
      have hsplit : splitPoint radix ('.' :: (fraction ++ exponent)) = (fraction, exponent) := by
        rw [splitPoint, Text.takeWhile_append_of_head hfraction hdigit,
          Text.dropWhile_append_of_head hfraction hdigit]
      rw [List.append_assoc, List.cons_append, Text.takeWhile_append_of_head hwhole hpoint,
        Text.dropWhile_append_of_head hwhole hpoint, hsplit, compose_eq_some_iff]
      exact ⟨h.ne_nil, e, he, by rw [h.value_eq]⟩

/-! ### Literals -/

namespace IsMantissa

theorem ne_nil (h : IsMantissa radix mantissa m n k) : mantissa ≠ [] := by
  cases h with
  | whole h => exact h.ne_nil
  | fraction => simp

/-- A mantissa consists of digits and a point. -/
theorem all (h : IsMantissa radix mantissa m n k) : ∀ c ∈ mantissa, isDigit radix c ∨ c = '.' := by
  cases h with
  | whole h => exact fun c hc => .inl (h.all c hc)
  | fraction h =>
      intro c hc
      rw [List.mem_append, List.mem_cons] at hc
      rcases hc with hc | rfl | hc
      · exact .inl (h.all c (List.mem_append_left _ hc))
      · exact .inr rfl
      · exact .inl (h.all c (List.mem_append_right _ hc))

/-- A mantissa has no sign. -/
theorem head?_ne (h : IsMantissa radix mantissa m n k) (hc : Text.isWordChar c = false)
    (hpoint : c ≠ '.') : (mantissa ++ exponent).head? ≠ some c := by
  rw [List.head?_append_of_ne_nil _ h.ne_nil]
  intro hhead
  rcases h.all c (List.mem_of_mem_head? hhead) with hdigit | rfl
  · exact Bool.noConfusion (hc.symm.trans (isWordChar_of_isDigit hdigit))
  · exact hpoint rfl

end IsMantissa

/-- A decimal literal does not look like a hexadecimal one. -/
theorem afterMark?_decimal (hm : IsMantissa 10 mantissa m n k) (he : IsExponent 'e' exponent e) :
    afterMark? 'x' (mantissa ++ exponent) = none := by
  refine Option.eq_none_iff_forall_ne_some.2 fun r hr => ?_
  obtain ⟨d, hd, heq⟩ := eq_of_afterMark? hr
  rcases mantissa with _ | ⟨c, _ | ⟨c', mantissa⟩⟩
  · exact hm.ne_nil rfl
  · obtain ⟨-, rfl⟩ := List.cons.inj heq
    cases he with
    | present hlower =>
        rcases hd with rfl | rfl
        · exact absurd hlower (by decide)
        · exact absurd hlower (by decide)
  · obtain ⟨-, heq⟩ := List.cons.inj heq
    obtain ⟨rfl, -⟩ := List.cons.inj heq
    have hdigit := hm.all c' (List.mem_cons_of_mem _ List.mem_cons_self)
    rcases hd with rfl | rfl
    · exact absurd hdigit (by decide)
    · exact absurd hdigit (by decide)

theorem real?_eq_some (h : real? s = some x) : IsReal (Text.upToNul s) x := by
  unfold real? at h
  dsimp only at h
  cases hsplit : takeSign (Text.upToNul s) with
  | mk negative body =>
  obtain ⟨sign, hsign, hs⟩ := exists_sign hsplit
  rw [hsplit] at h
  dsimp only at h
  rw [hs]
  split at h
  · rename_i digits hmark
    obtain ⟨letter, hletter, rfl⟩ := eq_of_afterMark? hmark
    obtain ⟨mantissa, exponent, m, n, k, e, rfl, hm, he, rfl⟩ := unsigned?_eq_some h
    rcases hletter with rfl | rfl
    · exact .hexadecimal hsign .x hm he
    · exact .hexadecimal hsign .X hm he
  · obtain ⟨mantissa, exponent, m, n, k, e, rfl, hm, he, rfl⟩ := unsigned?_eq_some h
    exact .decimal hsign hm he

theorem real?_of_isReal (h : IsReal (Text.upToNul s) x) : real? s = some x := by
  unfold real?
  generalize Text.upToNul s = t at h
  cases h with
  | @decimal sign mantissa exponent negative m n k e hsign hm he =>
      rw [takeSign_append hsign (hm.head?_ne rfl (by decide)) (hm.head?_ne rfl (by decide))]
      dsimp only
      rw [afterMark?_decimal hm he]
      exact unsigned?_append setsOff_decimal hm he
  | @hexadecimal sign mantissa exponent letter negative m n k e hsign hmark hm he =>
      have hread : afterMark? 'x' ('0' :: letter :: (mantissa ++ exponent)) =
          some (mantissa ++ exponent) := by
        cases hmark with
        | x | X => rfl
      rw [takeSign_append hsign (by simp) (by simp)]
      dsimp only
      rw [hread]
      exact unsigned?_append setsOff_hexadecimal hm he

/-- **The reader accepts exactly the real literals**, which end at the first NUL. -/
theorem real?_eq_some_iff : real? s = some x ↔ IsReal (Text.upToNul s) x :=
  ⟨real?_eq_some, real?_of_isReal⟩

/-! ### The characters of a literal -/

theorem nul_not_mem_of_isNumeral (h : IsNumeral radix digits m) : '\x00' ∉ digits := by
  intro hmem
  exact absurd (isWordChar_of_isDigit (h.all _ hmem)) (by decide)

theorem IsSign.nul_not_mem (h : IsSign sign negative) : '\x00' ∉ sign := by
  cases h with
  | absent | plus | minus => decide

theorem IsMantissa.nul_not_mem (h : IsMantissa radix mantissa m n k) : '\x00' ∉ mantissa := by
  intro hmem
  rcases h.all _ hmem with hdigit | hpoint
  · exact absurd (isWordChar_of_isDigit hdigit) (by decide)
  · exact absurd hpoint (by decide)

theorem IsExponent.nul_not_mem (h : IsExponent letter exponent e) (hletter : letter ≠ '\x00') :
    '\x00' ∉ exponent := by
  cases h with
  | absent => exact List.not_mem_nil
  | present hc hsign h =>
      rw [List.mem_cons, List.mem_append, not_or, not_or]
      refine ⟨?_, hsign.nul_not_mem, nul_not_mem_of_isNumeral h⟩
      rintro rfl
      exact hletter hc.symm

/-- A literal holds no NUL. -/
theorem IsReal.nul_not_mem (h : IsReal s x) : '\x00' ∉ s := by
  cases h with
  | decimal hsign hm he =>
      rw [List.mem_append, List.mem_append, not_or, not_or]
      exact ⟨hsign.nul_not_mem, hm.nul_not_mem, he.nul_not_mem (by decide)⟩
  | @hexadecimal _ _ _ letter _ _ _ _ _ hsign hmark hm he =>
      have hletter : letter ≠ '\x00' := by
        cases hmark with
        | x | X => decide
      simp only [List.mem_append, List.mem_cons, not_or]
      exact ⟨hsign.nul_not_mem, by decide, hletter.symm, hm.nul_not_mem,
        he.nul_not_mem (by decide)⟩

end WordMachine.Literal
