/-
**Printed operands are read back.**

A register, a number, an address and a flag are printed as one piece of text that is read as the
operand it was printed for.  There is one exception: the name of the string flag is no name of a
flag in assembly text, and is read as a label.

Main definitions:

* `Operand.Legible` — the operands that words hold;
* `Operand.reading` — what a printed operand is read as.

Main results:

* `Operand.Legible.isPiece` — a printed operand is not cut;
* `Operand.parse_print` — **what a printed operand is read as**;
* `Operand.reading_eq_self_iff` — which operand is read as another one.
-/

import WordMachine.Proofs.Operand.Immediates
import WordMachine.Proofs.Text.Pieces

set_option relaxedAutoImplicit false
set_option autoImplicit false

namespace WordMachine

/-! ### Printed numbers -/

namespace Numeral

theorem isWord_marked (width n : Nat) : Text.IsWord (marked width n) where
  ne_nil := nofun
  all := by
    intro c hc
    rw [marked, List.mem_cons, List.mem_cons] at hc
    rcases hc with rfl | rfl | hc
    · rfl
    · rfl
    · exact isWordChar_of_isDigit (isDigit_of_mem_hex hc)

end Numeral

namespace Operand

/-- An operand that a word can hold. -/
inductive Legible : Operand → Prop
  | register (r : Register) : Legible (register r)
  | indirect (r : Register) : Legible (indirect r)
  | immediate (v : UInt32) : Legible (immediate v)
  | address (v : UInt32) : Legible (address v)
  | flag (f : Flag) : Legible (ofFlag f)

/-- What a printed operand is read as. -/
def reading (o : Operand) : Operand :=
  if o = ofFlag .string then label Flag.string.name else o

theorem isWord_registerName (r : Register) : Text.IsWord r.name := by
  cases r <;> exact .of_all nofun rfl

theorem isWord_flagName (f : Flag) : Text.IsWord f.name := by
  cases f <;> exact .of_all nofun rfl

/-- A printed operand is not cut. -/
theorem Legible.isPiece {o : Operand} (h : o.Legible) : Text.IsPiece o.print := by
  cases h with
  | register r => exact (isWord_registerName r).isPiece
  | indirect r => exact (isWord_registerName r).isPiece_bracketed
  | immediate v => exact (Numeral.isWord_marked 1 v.toNat).isPiece
  | address v => exact (Numeral.isWord_marked 1 v.toNat).isPiece_bracketed
  | flag f =>
      have hname : (ofFlag f).print = f.name := by cases f <;> rfl
      rw [hname]
      exact (isWord_flagName f).isPiece

theorem integer_marked_toNat (v : UInt32) :
    Literal.integer (Numeral.marked 1 v.toNat) = .value v := by
  rw [Literal.integer_marked 1 v.toNat_lt]
  simp

theorem parse_print_immediate (v : UInt32) :
    parse (immediate v).print = .ok (immediate v) := by
  rw [parse_eq_immediate_iff_number, (Legible.immediate v).isPiece.trim_eq]
  exact integer_marked_toNat v

theorem parse_print_address (v : UInt32) : parse (address v).print = .ok (address v) := by
  have htrim := (Legible.address v).isPiece.trim_eq
  have hinner := (Legible.immediate v).isPiece.trim_eq
  have hparse : parse (address v).print =
      parseBracketed (address v).print (Numeral.marked 1 v.toNat) := by
    have henclosed : enclosed? '[' ']' (address v).print = some (immediate v).print :=
      enclosed?_eq_some_iff.2 rfl
    have hempty : List.isEmpty (address v).print = false := rfl
    have hquote : enclosed? '"' '"' (address v).print = none := rfl
    have hregister : Register.ofName? (address v).print = none := rfl
    have hflag : Flag.ofOperandName? (address v).print = none := rfl
    rw [parse, htrim]
    simp only [hempty, hquote, hregister, hflag, henclosed, hinner]
    rfl
  have hname : Register.ofName? (Numeral.marked 1 v.toNat) = none := rfl
  rw [hparse, parseBracketed, hname, integer_marked_toNat]

/-- **What a printed operand is read as.** -/
theorem parse_print {o : Operand} (h : o.Legible) : parse o.print = .ok o.reading := by
  cases h with
  | register r => cases r <;> rfl
  | indirect r => cases r <;> rfl
  | immediate v => exact parse_print_immediate v
  | address v => exact parse_print_address v
  | flag f => cases f <;> rfl

/-- The string flag alone is read as something else. -/
theorem reading_eq_self_iff {o : Operand} : o.reading = o ↔ o ≠ ofFlag .string := by
  unfold reading
  split
  · rename_i h
    rw [h]
    exact iff_of_false nofun (by simp)
  · rename_i h
    exact iff_of_true rfl h

end Operand

end WordMachine
