/-
**Integers in the input.**

An integer in the input is white space, a sign or none, and one or more decimal digits, as many as
there are.  What stands in front of the digits and where they end is settled by the bytes
themselves, so that an input begins with an integer in at most one way.  Its value is that of the
digits, of which there may be any number, or the negative of it; the word that is read is this value
modulo `2 ^ 32`.  An input that does not begin with an integer loses its white space and nothing
else.

The value of a long run of digits need not be computed: it can be reduced at every digit.

Main definitions:

* `Console.Begins` — an input that begins with an integer;
* `Console.integerValue` — the value of an integer;
* `Console.digitsValue64` — the value of digits, reduced at every digit.

Main results:

* `Console.toNat_digitsValue64`, `Console.toUInt32_digitsValue64` — reducing at every digit is
  reducing once;
* `Console.integer?_of_begins`, `Console.integer?_of_not_begins` — reading an integer, or none;
* `Console.begins_decimal` — a number that was printed is read back.
-/

import WordMachine.Console
import WordMachine.Text.Numeral
import WordMachine.Proofs.Text.Cutting
import Mathlib.Data.List.Induction
import Mathlib.Data.Nat.Digits.Defs

set_option relaxedAutoImplicit false
set_option autoImplicit false

namespace WordMachine.Console

variable {c : Console} {bs ws front ds rest : List UInt8} {negative : Bool}

/-! ### Values of digits -/

/-- The number that a byte stands for as a digit. -/
def digitOf (b : UInt8) : Nat := b.toNat - 48

/-- **The value of an integer** with the given digits, the most significant first. -/
def integerValue (negative : Bool) (ds : List UInt8) : Int :=
  let v : Nat := Nat.ofDigits 10 (ds.reverse.map digitOf)
  if negative then -v else v

theorem digitsValue_concat (ds : List UInt8) (b : UInt8) :
    digitsValue (ds ++ [b]) = 10 * digitsValue ds + digitOf b := by
  simp [digitsValue, digitOf]

theorem digitsValue_eq_ofDigits (ds : List UInt8) :
    digitsValue ds = Nat.ofDigits 10 (ds.reverse.map digitOf) := by
  induction ds using List.reverseRecOn with
  | nil => rfl
  | append_singleton ds b ih =>
      rw [digitsValue_concat, ih, List.reverse_append, List.reverse_singleton, List.singleton_append,
        List.map_cons, Nat.ofDigits_cons]
      exact Nat.add_comm _ _

/-- The value of digits in 32 bits of an accumulator of 64, reduced at every digit. -/
def digitsValue64 (ds : List UInt8) : UInt64 :=
  ds.foldl (fun v b => (v * 10 + (digitOf b).toUInt64) &&& 0xFFFFFFFF) 0

/-- **Reducing at every digit is reducing once**, at the end. -/
theorem toNat_digitsValue64 (ds : List UInt8) :
    (digitsValue64 ds).toNat = digitsValue ds % 2 ^ 32 := by
  induction ds using List.reverseRecOn with
  | nil => rfl
  | append_singleton ds b ih =>
      have hconcat : digitsValue64 (ds ++ [b]) =
          (digitsValue64 ds * 10 + (digitOf b).toUInt64) &&& 0xFFFFFFFF := by
        simp [digitsValue64]
      have hdigit : digitOf b < 256 := Nat.lt_of_le_of_lt (Nat.sub_le _ _) b.toNat_lt
      have hdigit64 : (digitOf b).toUInt64.toNat = digitOf b :=
        UInt64.toNat_ofNat_of_lt' (Nat.lt_trans hdigit (by decide))
      have hlt : (digitsValue64 ds).toNat < 2 ^ 32 := by
        rw [ih]
        exact Nat.mod_lt _ (by decide)
      -- The accumulator has 32 bits before the digit, so that the next value has far less than 64.
      have hnext : (digitsValue64 ds * 10 + (digitOf b).toUInt64).toNat =
          (digitsValue64 ds).toNat * 10 + digitOf b := by
        have hten : (10 : UInt64).toNat = 10 := rfl
        rw [UInt64.toNat_add, UInt64.toNat_mul, hten, hdigit64]
        omega
      have hmask : (0xFFFFFFFF : UInt64).toNat = 2 ^ 32 - 1 := rfl
      rw [hconcat, UInt64.toNat_and, hmask, Nat.and_two_pow_sub_one_eq_mod, hnext, ih,
        digitsValue_concat]
      omega

/-- So the accumulator holds the word of the whole value. -/
theorem toUInt32_digitsValue64 (ds : List UInt8) :
    (digitsValue64 ds).toUInt32 = (digitsValue ds).toUInt32 := by
  have hword : (digitsValue ds).toUInt32.toNat = digitsValue ds % 2 ^ 32 := UInt32.toNat_ofNat'
  rw [← UInt32.toNat_inj, UInt64.toNat_toUInt32, toNat_digitsValue64, Nat.mod_mod, hword]

/-- The word of an integer is its value, modulo `2 ^ 32`. -/
theorem toNat_word (negative : Bool) (ds : List UInt8) :
    (((if negative then 0 - (digitsValue ds).toUInt32 else (digitsValue ds).toUInt32).toNat : Nat)
      : Int) = integerValue negative ds % (2 ^ 32 : Nat) := by
  have hword : (digitsValue ds).toUInt32.toNat = digitsValue ds % 2 ^ 32 := UInt32.toNat_ofNat'
  rw [integerValue, ← digitsValue_eq_ofDigits]
  cases negative with
  | false =>
      simp only [Bool.false_eq_true, if_false, hword]
      omega
  | true =>
      have hzero : (0 : UInt32).toNat = 0 := rfl
      simp only [if_true, UInt32.toNat_sub, hword, hzero]
      omega

/-! ### Inputs that begin with an integer -/

/-- The sign in front of digits, if there is one; `true` is a minus. -/
inductive IsSign : List UInt8 → Bool → Prop
  | absent : IsSign [] false
  | plus : IsSign [43] false
  | minus : IsSign [45] true

/-- **The bytes begin with an integer**: white space, a sign or none, and all the digits that follow,
at least one.  The rest begins with another byte. -/
structure Begins (bs : List UInt8) (negative : Bool) (ds rest : List UInt8) : Prop where
  /-- White space and a sign stand in front of the digits. -/
  split : ∃ ws front, (∀ b ∈ ws, isBlank b) ∧ IsSign front negative ∧
    bs = ws ++ (front ++ (ds ++ rest))
  ne_nil : ds ≠ []
  digits : ∀ b ∈ ds, isDigit b
  maximal : ∀ b ∈ rest.head?, isDigit b = false

theorem isBlank_of_isDigit {b : UInt8} (h : isDigit b) : isBlank b = false := by
  rw [isDigit, Bool.and_eq_true, decide_eq_true_eq, decide_eq_true_eq] at h
  rw [isBlank, Text.isBlankCode, Bool.or_eq_false_iff, Bool.and_eq_false_iff, beq_eq_false_iff_ne,
    decide_eq_false_iff_not, decide_eq_false_iff_not]
  omega

/-- A digit is no sign. -/
theorem sign_of_isDigit {b : UInt8} (h : isDigit b) (bs : List UInt8) :
    sign (b :: bs) = (0, false) := by
  have hminus : b ≠ 45 := by
    rintro rfl
    exact absurd h (by decide)
  have hplus : b ≠ 43 := by
    rintro rfl
    exact absurd h (by decide)
  rw [sign, if_neg hminus, if_neg hplus]

theorem sign_of_isSign (hfront : IsSign front negative) (hne : ds ≠ [])
    (hds : ∀ b ∈ ds, isDigit b) (rest : List UInt8) :
    sign (front ++ (ds ++ rest)) = (front.length, negative) := by
  obtain ⟨b, ds, rfl⟩ := List.exists_cons_of_ne_nil hne
  cases hfront with
  | absent => exact sign_of_isDigit (hds b List.mem_cons_self) (ds ++ rest)
  | plus | minus => rfl

/-- What the sign of some bytes is said to be is a sign. -/
theorem isSign_take (bs : List UInt8) : IsSign (bs.take (sign bs).1) (sign bs).2 := by
  cases bs with
  | nil => exact .absent
  | cons b bs =>
      rw [sign]
      split
      · rename_i hminus
        rw [hminus]
        exact .minus
      · split
        · rename_i hplus
          rw [hplus]
          exact .plus
        · exact .absent

theorem leadingInteger?_of_isSign (hfront : IsSign front negative) (hne : ds ≠ [])
    (hds : ∀ b ∈ ds, isDigit b) (hrest : ∀ b ∈ rest.head?, isDigit b = false) :
    leadingInteger? (front ++ (ds ++ rest)) =
      some (if negative then 0 - (digitsValue ds).toUInt32 else (digitsValue ds).toUInt32,
        front.length + ds.length) := by
  have hempty : ds.isEmpty = false := List.isEmpty_eq_false_iff.2 hne
  rw [leadingInteger?, sign_of_isSign hfront hne hds]
  simp only [List.drop_left, Text.takeWhile_append_of_head hds hrest, hempty, Bool.false_eq_true,
    if_false]

/-- Bytes with an integer at their front are a sign, digits and a rest. -/
theorem begins_of_leadingInteger? {r : UInt32 × Nat} (h : leadingInteger? bs = some r) :
    ∃ negative ds rest, Begins bs negative ds rest := by
  refine ⟨(sign bs).2, (bs.drop (sign bs).1).takeWhile isDigit,
    (bs.drop (sign bs).1).dropWhile isDigit, ⟨[], _, nofun, isSign_take bs, ?_⟩, ?_, ?_, ?_⟩
  · rw [List.takeWhile_append_dropWhile, List.take_append_drop, List.nil_append]
  · intro hnil
    simp only [leadingInteger?, hnil, List.isEmpty_nil, if_true] at h
    exact nomatch h
  · exact List.all_eq_true.1 List.all_takeWhile
  · intro b hb
    have hnot := List.head?_dropWhile_not isDigit (bs.drop (sign bs).1)
    rw [Option.mem_def.1 hb] at hnot
    simpa using hnot

/-! ### Reading an integer -/

/-- The white space in front of an integer is all there is. -/
theorem isBlank_head? (hfront : IsSign front negative) (hne : ds ≠ [])
    (hds : ∀ b ∈ ds, isDigit b) (rest : List UInt8) :
    ∀ b ∈ (front ++ (ds ++ rest)).head?, isBlank b = false := by
  obtain ⟨d, ds, rfl⟩ := List.exists_cons_of_ne_nil hne
  intro b hb
  cases hfront with
  | absent =>
      obtain rfl := Option.some.inj hb
      exact isBlank_of_isDigit (hds _ List.mem_cons_self)
  | plus | minus =>
      obtain rfl := Option.some.inj hb
      rfl

/-- **An input that begins with an integer** gives its value modulo `2 ^ 32`, and leaves the rest. -/
theorem integer?_of_begins (h : Begins c.input negative ds rest) :
    ∃ w n, c.integer? = some (w, n) ∧ c.drop n = { c with input := rest } ∧
      (w.toNat : Int) = integerValue negative ds % (2 ^ 32 : Nat) := by
  obtain ⟨ws, front, hws, hfront, hinput⟩ := h.split
  have hhead := isBlank_head? hfront h.ne_nil h.digits rest
  have hblanks : c.blanks = ws.length := by
    rw [blanks, hinput, Text.takeWhile_append_of_head hws hhead]
  have hinteger : c.integer? = some (if negative then 0 - (digitsValue ds).toUInt32
      else (digitsValue ds).toUInt32, ws.length + (front.length + ds.length)) := by
    rw [integer?, hblanks, hinput, List.drop_left,
      leadingInteger?_of_isSign hfront h.ne_nil h.digits h.maximal]
    rfl
  refine ⟨_, _, hinteger, ?_, toNat_word negative ds⟩
  have hlength : ws.length + (front.length + ds.length) = (ws ++ (front ++ ds)).length := by
    simp only [List.length_append]
  have hsplit : c.input = (ws ++ (front ++ ds)) ++ rest := by
    rw [hinput]
    simp only [List.append_assoc]
  rw [drop, hlength, hsplit, List.drop_left]

/-- An input that does not begin with an integer has none. -/
theorem integer?_of_not_begins (h : ¬ ∃ negative ds rest, Begins c.input negative ds rest) :
    c.integer? = none := by
  have hsplit : c.input = c.input.takeWhile isBlank ++ c.input.drop c.blanks := by
    have hdrop : c.input.drop c.blanks = c.input.dropWhile isBlank := input_skipBlanks c
    rw [hdrop, List.takeWhile_append_dropWhile]
  rw [integer?, Option.map_eq_none_iff]
  cases hleading : leadingInteger? (c.input.drop c.blanks) with
  | none => rfl
  | some r =>
      obtain ⟨negative, ds, rest, hbegins⟩ := begins_of_leadingInteger? hleading
      obtain ⟨ws, front, hws, hfront, hbytes⟩ := hbegins.split
      refine absurd ⟨negative, ds, rest, ⟨?_, hbegins.ne_nil, hbegins.digits, hbegins.maximal⟩⟩ h
      refine ⟨c.input.takeWhile isBlank ++ ws, front, ?_, hfront, ?_⟩
      · intro b hb
        rcases List.mem_append.1 hb with hb | hb
        · exact List.all_eq_true.1 List.all_takeWhile b hb
        · exact hws b hb
      · rw [List.append_assoc, ← hbytes]
        exact hsplit

/-! ### Numbers that were printed -/

theorem isDigit_digitChar : ∀ d < 10, isDigit (Nat.digitChar d).toNat.toUInt8 := by
  decide

theorem digitOf_digitChar : ∀ d < 10, digitOf (Nat.digitChar d).toNat.toUInt8 = d := by
  decide

/-- The bytes of a decimal numeral. -/
theorem toBytes_decimal (n : Nat) : (Numeral.decimal n).toBytes =
    if n < 10 then [(Nat.digitChar n).toNat.toUInt8]
    else (Numeral.decimal (n / 10)).toBytes ++ [(Nat.digitChar (n % 10)).toNat.toUInt8] := by
  rw [Numeral.decimal, Nat.toDigits_eq_if (by decide)]
  split <;> simp [Text.toBytes, Numeral.decimal]

theorem isDigit_decimal (n : Nat) : ∀ b ∈ (Numeral.decimal n).toBytes, isDigit b := by
  induction n using Nat.strongRecOn with
  | ind n ih =>
      intro b hb
      rw [toBytes_decimal] at hb
      split at hb
      · rename_i hlt
        rw [List.mem_singleton.1 hb]
        exact isDigit_digitChar n hlt
      · rename_i hge
        rcases List.mem_append.1 hb with hb | hb
        · exact ih (n / 10) (by omega) b hb
        · rw [List.mem_singleton.1 hb]
          exact isDigit_digitChar _ (by omega)

theorem toBytes_decimal_ne_nil (n : Nat) : (Numeral.decimal n).toBytes ≠ [] := by
  rw [toBytes_decimal]
  split <;> simp

/-- The value of a number that was printed is the number. -/
theorem digitsValue_decimal (n : Nat) : digitsValue (Numeral.decimal n).toBytes = n := by
  induction n using Nat.strongRecOn with
  | ind n ih =>
      rw [toBytes_decimal]
      split
      · rename_i hlt
        exact (digitsValue_concat [] _).trans ((Nat.zero_add _).trans (digitOf_digitChar n hlt))
      · rename_i hge
        rw [digitsValue_concat, ih (n / 10) (by omega), digitOf_digitChar _ (by omega)]
        omega

theorem integerValue_decimal (n : Nat) : integerValue false (Numeral.decimal n).toBytes = n := by
  rw [integerValue, ← digitsValue_eq_ofDigits, digitsValue_decimal]
  rfl

/-- **A number that was printed** is an integer of the input, as far as another byte follows it. -/
theorem begins_decimal (hws : ∀ b ∈ ws, isBlank b) (n : Nat)
    (hrest : ∀ b ∈ rest.head?, isDigit b = false) :
    Begins (ws ++ ((Numeral.decimal n).toBytes ++ rest)) false (Numeral.decimal n).toBytes rest :=
  ⟨⟨ws, [], hws, .absent, rfl⟩, toBytes_decimal_ne_nil n, isDigit_decimal n, hrest⟩

end WordMachine.Console
