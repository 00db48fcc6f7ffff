/-
**Sizes of memory are recognised.**

A size is written as a decimal numeral of any length, with white space around it and perhaps with a
unit behind it.  The reader puts the text in upper case, cuts the unit off its end, and reads the
rest with a bound of 32 bits.  What it accepts is told here without these steps: the texts that have
the parts of a size, in their places, if the number of bytes, which has no bound of its own, lies
within the limits.

The numeral starts with a digit and the unit ends with a letter, so that trimming leaves exactly
these two and what is between them.  Letter case concerns the unit only.  A numeral of more than 32
bits is too large in any unit, and it makes no difference that it is refused for another reason.

Main definitions:

* `MemorySize.units`, `MemorySize.IsUnit` — units, and what stands behind a numeral;
* `MemorySize.States` — **a text states a size**: a numeral, a unit, and white space;
* `MemorySize.Outcomes` — what the reader says to a text.

Main results:

* `MemorySize.splitUnit_of_states`, `MemorySize.states_of_splitUnit` — the unit is cut off;
* `MemorySize.parse_of_states`, `MemorySize.exists_states_of_parse` — what is read of a size, and of
  nothing else;
* `MemorySize.parse_outcomes` — exactly the sizes within the limits are accepted.
-/

import WordMachine.MemorySize
import WordMachine.Proofs.Literal.Integers
import WordMachine.Proofs.Text.Splitting

set_option relaxedAutoImplicit false
set_option autoImplicit false

namespace WordMachine

/-! ### Digits and letter case -/

namespace Text

variable {s : Text}

theorem toUpper_eq_self_of_isDigit {c : Char} (h : Numeral.isDigit 10 c) : c.toUpper = c := by
  have hcode := Numeral.toNat_lt_of_isDigit h
  exact toUpper_of_lt (by omega)

theorem isBlank_of_isDigit {c : Char} (h : Numeral.isDigit 10 c) : isBlank c = false :=
  isBlank_of_isWordChar (Numeral.isWordChar_of_isDigit h)

theorem upper_eq_self_of_isDigit (h : ∀ c ∈ s, Numeral.isDigit 10 c) : s.upper = s := by
  have hmap : s.map Char.toUpper = s.map id :=
    List.map_congr_left fun c hc => toUpper_eq_self_of_isDigit (h c hc)
  rw [upper, hmap, List.map_id]

/-- Digits in upper case were digits before. -/
theorem upper_eq_self_of_isDigit_upper (h : ∀ c ∈ s.upper, Numeral.isDigit 10 c) :
    s.upper = s := by
  refine upper_eq_self_of_isDigit fun c hc => ?_
  have hdigit := h c.toUpper (List.mem_map_of_mem hc)
  have hcode := Numeral.toNat_lt_of_isDigit hdigit
  have hsame : c = c.toUpper := (toUpper_eq_iff (by omega)).1 rfl
  rwa [← hsame] at hdigit

end Text

namespace MemorySize

open Literal Text

variable {s stem digits name : Text} {v factor : Nat}

/-! ### The grammar -/

/-- The names of the units, and how many bytes they have. -/
def units : List (Text × Nat) := [("KB".toList, 1024), ("MB".toList, 1024 * 1024)]

/-- **What stands behind a numeral**: nothing, for a number of bytes, or white space and the name of
a unit, in any letter case. -/
inductive IsUnit : Text → Nat → Prop
  | bytes : IsUnit [] 1
  | named {gap name : Text} {factor : Nat} (hgap : ∀ c ∈ gap, isBlank c)
      (hname : (name.upper, factor) ∈ units) : IsUnit (gap ++ name) factor

/-- **A text states a size** of `v` units, each of `factor` bytes: white space, a decimal numeral of
any length, a unit, and white space. -/
def States (s : Text) (v factor : Nat) : Prop :=
  ∃ front digits unit back, s = front ++ (digits ++ unit) ++ back ∧ (∀ c ∈ front, isBlank c) ∧
    IsNumeral 10 digits v ∧ IsUnit unit factor ∧ ∀ c ∈ back, isBlank c

/-! ### The unit is cut off -/

theorem mem_units_iff : (name, factor) ∈ units ↔
    (name = "KB".toList ∧ factor = 1024) ∨ (name = "MB".toList ∧ factor = 1024 * 1024) := by
  rw [units, List.mem_pair, Prod.mk.injEq, Prod.mk.injEq]

/-- The name of a unit has two letters. -/
theorem exists_of_mem_units (h : (name, factor) ∈ units) : ∃ c, name = [c, 'B'] := by
  rcases mem_units_iff.1 h with ⟨rfl, -⟩ | ⟨rfl, -⟩
  · exact ⟨'K', rfl⟩
  · exact ⟨'M', rfl⟩

theorem splitUnit_append (h : (name, factor) ∈ units) (hne : stem ≠ []) :
    splitUnit (stem ++ name) = (stem.trim, factor) := by
  have hempty : stem.isEmpty = false := List.isEmpty_eq_false_iff.2 hne
  rcases mem_units_iff.1 h with ⟨rfl, rfl⟩ | ⟨rfl, rfl⟩
  · simp [splitUnit, hempty]
  · simp [splitUnit, hempty]

/-- A text that does not end with a unit is left as it is. -/
theorem splitUnit_cases (s : Text) :
    (∃ stem name factor, (name, factor) ∈ units ∧ stem ≠ [] ∧ s = stem ++ name) ∨
      splitUnit s = (s, 1) := by
  have hsplit := List.take_append_drop (s.length - 2) s
  by_cases hempty : (s.take (s.length - 2)).isEmpty
  · exact .inr (by simp only [splitUnit, hempty, if_true])
  · have hne : s.take (s.length - 2) ≠ [] := fun h => hempty (List.isEmpty_iff.2 h)
    by_cases hkilo : s.drop (s.length - 2) = "KB".toList
    · exact .inl ⟨_, _, 1024, by simp [units], hne, (hkilo ▸ hsplit).symm⟩
    · by_cases hmega : s.drop (s.length - 2) = "MB".toList
      · exact .inl ⟨_, _, 1024 * 1024, by simp [units], hne, (hmega ▸ hsplit).symm⟩
      · refine .inr ?_
        simp only [splitUnit, hempty, beq_iff_eq, hkilo, hmega, if_false, Bool.false_eq_true]

/-- Digits do not end with a unit. -/
theorem splitUnit_of_isDigit (h : ∀ c ∈ s, Numeral.isDigit 10 c) : splitUnit s = (s, 1) := by
  rcases splitUnit_cases s with ⟨stem, name, factor, hname, -, rfl⟩ | hsame
  · obtain ⟨c, rfl⟩ := exists_of_mem_units hname
    exact absurd (h 'B' (by simp)) (by decide)
  · exact hsame

/-- A numeral with a unit behind it has no white space around it. -/
theorem isTrimmed_of_isUnit {unit : Text} (hdigits : IsNumeral 10 digits v)
    (hunit : IsUnit unit factor) : (digits ++ unit).IsTrimmed where
  head c hc := by
    rw [List.head?_append_of_ne_nil _ hdigits.ne_nil] at hc
    exact isBlank_of_isDigit (hdigits.all c (List.mem_of_mem_head? hc))
  last c hc := by
    cases hunit with
    | bytes =>
        rw [List.append_nil] at hc
        exact isBlank_of_isDigit (hdigits.all c (List.mem_of_mem_getLast? hc))
    | @named gap name _ hgap hname =>
        obtain ⟨k, hupper⟩ := exists_of_mem_units hname
        obtain ⟨k', b, rfl⟩ : ∃ k' b, name = [k', b] := by
          have hlength := congrArg List.length hupper
          rw [upper, List.length_map] at hlength
          exact List.length_eq_two.1 hlength
        obtain rfl : b = c := by simpa using hc
        have hb : b.toUpper = 'B' := by simpa [upper] using (List.cons.inj hupper).2
        rw [← isBlank_toUpper_eq, hb]
        rfl

/-- **The unit of a size is cut off**, and its numeral is left. -/
theorem splitUnit_of_states (h : States s v factor) :
    ∃ digits, splitUnit s.trim.upper = (digits, factor) ∧ IsNumeral 10 digits v := by
  obtain ⟨front, digits, unit, back, rfl, hfront, hdigits, hunit, hback⟩ := h
  refine ⟨digits, ?_, hdigits⟩
  have htrim : (front ++ (digits ++ unit) ++ back).trim = digits ++ unit := by
    rw [trim_append hback, trim_append_left hfront, (isTrimmed_of_isUnit hdigits hunit).trim_eq]
  have hupper : (digits ++ unit).upper = digits ++ unit.upper := by
    rw [upper, List.map_append, ← upper, upper_eq_self_of_isDigit hdigits.all, upper]
  rw [htrim, hupper]
  cases hunit with
  | bytes =>
      rw [upper, List.map_nil, List.append_nil]
      exact splitUnit_of_isDigit hdigits.all
  | @named gap name _ hgap hname =>
      have hgap' : ∀ c ∈ gap.upper, isBlank c := by
        intro c hc
        obtain ⟨d, hd, rfl⟩ := List.mem_map.1 hc
        rw [isBlank_toUpper_eq]
        exact hgap d hd
      have hnotBlank : ∀ c ∈ digits, isBlank c = false :=
        fun c hc => isBlank_of_isDigit (hdigits.all c hc)
      have happend : digits ++ (gap ++ name).upper = (digits ++ gap.upper) ++ name.upper := by
        rw [upper, List.map_append, ← List.append_assoc]
        rfl
      rw [happend, splitUnit_append hname (by simp [hdigits.ne_nil]), trim_append hgap',
        trim_of_notBlank hnotBlank]

/-- **What is left when a unit is cut off tells the size.** -/
theorem states_of_splitUnit (h : splitUnit s.trim.upper = (digits, factor))
    (hdigits : IsNumeral 10 digits v) : States s v factor := by
  obtain ⟨front, back, hs, hfront, hback⟩ := exists_trim s
  rcases splitUnit_cases s.trim.upper with ⟨stem, name, factor', hname, hne, hstem⟩ | hsame
  · rw [hstem, splitUnit_append hname hne] at h
    obtain ⟨rfl, rfl⟩ := Prod.mk.inj h
    obtain ⟨stem', name', htrim, rfl, rfl⟩ := List.map_eq_append_iff.1 hstem
    -- Digits have no letter case, so the numeral stands in the text as it is read.
    have hupper : (upper stem').trim = (trim stem').upper := trim_upper stem'
    have hsame : (trim stem').upper = trim stem' :=
      upper_eq_self_of_isDigit_upper (hupper ▸ hdigits.all)
    obtain ⟨w, w', hstem', hw, hw'⟩ := exists_trim stem'
    refine ⟨front ++ w, trim stem', w' ++ name', back, ?_, ?_, ?_, .named hw' hname, hback⟩
    · rw [htrim, hstem'] at hs
      rw [hs]
      simp only [List.append_assoc]
    · exact List.forall_mem_append.2 ⟨hfront, hw⟩
    · rw [← hsame, ← hupper]
      exact hdigits
  · rw [hsame] at h
    obtain ⟨rfl, rfl⟩ := Prod.mk.inj h
    have hupper := upper_eq_self_of_isDigit_upper hdigits.all
    refine ⟨front, s.trim, [], back, ?_, hfront, hupper ▸ hdigits, .bytes, hback⟩
    rw [List.append_nil]
    exact hs

/-! ### What is read -/

/-- The number that is read from the digits and the unit of a text. -/
theorem parse_of_splitUnit (h : splitUnit s.trim.upper = (digits, factor))
    (hdigits : IsNumeral 10 digits v) :
    parse s = if v < 2 ^ 32 then ofBytes (v * factor) else .error (.malformed s) := by
  have hall : digits.all (Numeral.isDigit 10) = true := List.all_eq_true.2 hdigits.all
  simp only [parse, h, hall, if_true]
  by_cases hlt : v < 2 ^ 32
  · have hvalue : v.toUInt32.toNat = v := UInt32.toNat_ofNat_of_lt' hlt
    have hread : readNumber 10 digits = .value v.toUInt32 :=
      (readNumber_eq_value_iff (by decide)).2 (hvalue.symm ▸ hdigits)
    rw [if_pos hlt, hread]
    simp only [hvalue]
  · rw [if_neg hlt]
    cases hread : readNumber 10 digits with
    | value n =>
        have hn := (readNumber_eq_value_iff (by decide)).1 hread
        have hvalue : n.toNat = v := hn.value_eq.symm.trans hdigits.value_eq
        exact absurd n.toNat_lt (hvalue ▸ hlt)
    | tooLarge | malformed => rfl

/-- **What is read of a size**: its number of bytes, if its numeral has 32 bits. -/
theorem parse_of_states (h : States s v factor) :
    parse s = if v < 2 ^ 32 then ofBytes (v * factor) else .error (.malformed s) := by
  obtain ⟨digits, hsplit, hdigits⟩ := splitUnit_of_states h
  exact parse_of_splitUnit hsplit hdigits

/-- **Nothing but a size is read.** -/
theorem exists_states_of_parse (h : parse s ≠ .error (.malformed s)) :
    ∃ v factor, States s v factor := by
  cases hsplit : splitUnit s.trim.upper with
  | mk digits factor =>
      simp only [parse, hsplit] at h
      split at h
      · cases hread : readNumber 10 digits with
        | value n =>
            exact ⟨n.toNat, factor,
              states_of_splitUnit hsplit ((readNumber_eq_value_iff (by decide)).1 hread)⟩
        | tooLarge | malformed =>
            rw [hread] at h
            exact absurd rfl h
      · exact absurd rfl h

theorem factor_le (h : States s v factor) : 1 ≤ factor ∧ factor ≤ 1024 * 1024 := by
  obtain ⟨_, _, _, _, -, -, -, hunit, -⟩ := h
  cases hunit with
  | bytes => omega
  | named _ hname =>
      have hfactor := mem_units_iff.1 hname
      omega

theorem ofBytes_eq_ok_iff {n : Nat} {m : MemorySize} : ofBytes n = .ok m ↔ m.bytes = n := by
  unfold ofBytes
  constructor
  · intro h
    split at h
    · obtain rfl := Except.ok.inj h
      rfl
    · exact nomatch h
  · rintro rfl
    rw [dif_pos ⟨m.least_le, m.le_largest⟩]

theorem ofBytes_eq_error_iff {n : Nat} {e : SizeError} :
    ofBytes n = .error e ↔ e = .outOfRange n ∧ ¬ (65536 ≤ n ∧ n ≤ 8388608) := by
  unfold ofBytes
  split
  · rename_i hin
    exact ⟨nofun, fun h => absurd hin h.2⟩
  · rename_i hout
    constructor
    · intro h
      exact ⟨(Except.error.inj h).symm, hout⟩
    · rintro ⟨rfl, -⟩
      rfl

/-! ### Outcomes -/

/-- **What the reader says to a text.**  The products are those of unbounded numbers. -/
structure Outcomes (s : Text) : Prop where
  /-- Exactly the sizes within the limits are accepted, with their number of bytes. -/
  accepted : ∀ b, (∃ m, parse s = .ok m ∧ m.bytes = b) ↔
    ∃ v factor, States s v factor ∧ b = v * factor ∧ 65536 ≤ b ∧ b ≤ 8388608
  /-- Every other text is refused. -/
  refused : (∃ e, parse s = .error e) ↔
    ∀ v factor, States s v factor → ¬ (65536 ≤ v * factor ∧ v * factor ≤ 8388608)
  /-- A size outside the limits is called so, if its numeral has 32 bits. -/
  outOfRange : ∀ n, parse s = .error (.outOfRange n) ↔
    ∃ v factor, States s v factor ∧ v < 2 ^ 32 ∧ n = v * factor ∧ ¬ (65536 ≤ n ∧ n ≤ 8388608)
  /-- Otherwise the text is called malformed. -/
  malformed : ∀ t, parse s = .error (.malformed t) ↔
    t = s ∧ ∀ v factor, States s v factor → 2 ^ 32 ≤ v
  /-- A product of 64 bits does not wrap. -/
  product : ∀ (n : UInt32) factor, States s n.toNat factor →
    (n.toUInt64 * factor.toUInt64).toNat = n.toNat * factor

/-- A numeral of more than 32 bits is too large in any unit. -/
theorem lt_of_le_largest (h : States s v factor) (hle : v * factor ≤ 8388608) : v < 2 ^ 32 := by
  have hv : v ≤ v * factor := Nat.le_mul_of_pos_right v (factor_le h).1
  omega

theorem toNat_product {n : UInt32} (h : States s n.toNat factor) :
    (n.toUInt64 * factor.toUInt64).toNat = n.toNat * factor := by
  have hfactor := (factor_le h).2
  have hlt : n.toNat * factor < 2 ^ 64 := by
    calc n.toNat * factor ≤ n.toNat * (1024 * 1024) := Nat.mul_le_mul_left _ hfactor
      _ < 2 ^ 64 := by
        have := n.toNat_lt
        omega
  have hfactor64 : factor.toUInt64.toNat = factor :=
    UInt64.toNat_ofNat_of_lt' (Nat.lt_of_le_of_lt hfactor (by decide))
  rw [UInt64.toNat_mul, hfactor64, UInt32.toNat_toUInt64]
  exact Nat.mod_eq_of_lt hlt

theorem parse_eq_ok_iff {m : MemorySize} :
    parse s = .ok m ↔ ∃ v factor, States s v factor ∧ m.bytes = v * factor := by
  constructor
  · intro h
    obtain ⟨v, factor, hstates⟩ := exists_states_of_parse (by rw [h]; exact nofun)
    rw [parse_of_states hstates] at h
    split at h
    · exact ⟨v, factor, hstates, ofBytes_eq_ok_iff.1 h⟩
    · exact nomatch h
  · rintro ⟨v, factor, hstates, hbytes⟩
    have hlt := lt_of_le_largest hstates (hbytes ▸ m.le_largest)
    rw [parse_of_states hstates, if_pos hlt]
    exact ofBytes_eq_ok_iff.2 hbytes

theorem parse_eq_outOfRange_iff {n : Nat} : parse s = .error (.outOfRange n) ↔
    ∃ v factor, States s v factor ∧ v < 2 ^ 32 ∧ n = v * factor ∧
      ¬ (65536 ≤ n ∧ n ≤ 8388608) := by
  constructor
  · intro h
    obtain ⟨v, factor, hstates⟩ := exists_states_of_parse (by rw [h]; exact nofun)
    rw [parse_of_states hstates] at h
    split at h
    · rename_i hlt
      obtain ⟨hn, hout⟩ := ofBytes_eq_error_iff.1 h
      obtain rfl := SizeError.outOfRange.inj hn
      exact ⟨v, factor, hstates, hlt, rfl, hout⟩
    · exact nomatch h
  · rintro ⟨v, factor, hstates, hlt, rfl, hout⟩
    rw [parse_of_states hstates, if_pos hlt]
    exact ofBytes_eq_error_iff.2 ⟨rfl, hout⟩

theorem parse_eq_malformed_iff {t : Text} : parse s = .error (.malformed t) ↔
    t = s ∧ ∀ v factor, States s v factor → 2 ^ 32 ≤ v := by
  have hmalformed : (∀ v factor, States s v factor → 2 ^ 32 ≤ v) →
      parse s = .error (.malformed s) := by
    intro hlarge
    by_contra hne
    obtain ⟨v, factor, hstates⟩ := exists_states_of_parse hne
    rw [parse_of_states hstates, if_neg (Nat.not_lt.2 (hlarge v factor hstates))] at hne
    exact hne rfl
  constructor
  · intro h
    have hlarge : ∀ v factor, States s v factor → 2 ^ 32 ≤ v := by
      intro v factor hstates
      rw [parse_of_states hstates] at h
      split at h
      · exact nomatch (ofBytes_eq_error_iff.1 h).1
      · omega
    rw [hmalformed hlarge] at h
    exact ⟨(SizeError.malformed.inj (Except.error.inj h)).symm, hlarge⟩
  · rintro ⟨rfl, hlarge⟩
    exact hmalformed hlarge

/-- **Exactly the sizes within the limits are accepted**, of all texts. -/
theorem parse_outcomes (s : Text) : Outcomes s where
  accepted b := by
    constructor
    · rintro ⟨m, hm, rfl⟩
      obtain ⟨v, factor, hstates, hbytes⟩ := parse_eq_ok_iff.1 hm
      exact ⟨v, factor, hstates, hbytes, m.least_le, m.le_largest⟩
    · rintro ⟨v, factor, hstates, rfl, hge, hle⟩
      exact ⟨⟨v * factor, hge, hle⟩, parse_eq_ok_iff.2 ⟨v, factor, hstates, rfl⟩, rfl⟩
  refused := by
    constructor
    · rintro ⟨e, he⟩ v factor hstates ⟨hge, hle⟩
      have hm : parse s = .ok ⟨v * factor, hge, hle⟩ :=
        parse_eq_ok_iff.2 ⟨v, factor, hstates, rfl⟩
      exact nomatch hm.symm.trans he
    · intro hnone
      cases hm : parse s with
      | error e => exact ⟨e, rfl⟩
      | ok m =>
          obtain ⟨v, factor, hstates, hbytes⟩ := parse_eq_ok_iff.1 hm
          exact absurd (hbytes ▸ ⟨m.least_le, m.le_largest⟩) (hnone v factor hstates)
  outOfRange _ := parse_eq_outOfRange_iff
  malformed _ := parse_eq_malformed_iff
  product _ _ hstates := toNat_product hstates

/-- A size with white space, leading zeros and a unit in mixed letter case. -/
example : (parse " 00000000000064 Kb\t".toList).map MemorySize.bytes = .ok 65536 := by decide

end MemorySize

end WordMachine
