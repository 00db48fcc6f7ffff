/-
**Instruction words.**

An instruction is a word of 32 bits.  Its top byte is the code of the opcode.  The byte below, the
*upper field*, and the sixteen bits at the bottom, the *lower field*, carry the operands; an address
of twenty-three bits uses both fields together.

Main definitions:

* `Word.pack` — the word with given fields;
* `Word.code`, `Word.upper`, `Word.lower`, `Word.middle`, `Word.payload` — the fields of a word.
-/

import WordMachine.Power

set_option relaxedAutoImplicit false
set_option autoImplicit false

namespace WordMachine.Word

/-- The word with the given opcode and fields. -/
def pack (code upper lower : Nat) : UInt32 :=
  UInt32.ofNat (code * 2 ^ 24 + upper * 2 ^ 16 + lower)

/-- The top byte: the code of the opcode. -/
def code (w : UInt32) : Nat := w.toNat / 2 ^ 24

/-- The byte below the opcode. -/
def upper (w : UInt32) : Nat := w.toNat / 2 ^ 16 % 2 ^ 8

/-- The sixteen bits at the bottom. -/
def lower (w : UInt32) : Nat := w.toNat % 2 ^ 16

/-- The upper byte of the lower field. -/
def middle (w : UInt32) : Nat := w.toNat / 2 ^ 8 % 2 ^ 8

/-- Both fields together. -/
def payload (w : UInt32) : Nat := w.toNat % 2 ^ 24

/-- The lower field is odd, which marks a register in most forms. -/
def isOdd (w : UInt32) : Bool := w.toNat % 2 == 1

/-! ### Packing and unpacking -/

theorem toNat_pack {c u l : Nat} (hc : c < 2 ^ 8) (hu : u < 2 ^ 8) (hl : l < 2 ^ 16) :
    (pack c u l).toNat = c * 2 ^ 24 + u * 2 ^ 16 + l := by
  rw [pack, UInt32.toNat_ofNat_of_lt']
  show _ < 2 ^ 32
  omega

theorem code_pack {c u l : Nat} (hc : c < 2 ^ 8) (hu : u < 2 ^ 8) (hl : l < 2 ^ 16) :
    code (pack c u l) = c := by
  rw [code, toNat_pack hc hu hl]; omega

theorem upper_pack {c u l : Nat} (hc : c < 2 ^ 8) (hu : u < 2 ^ 8) (hl : l < 2 ^ 16) :
    upper (pack c u l) = u := by
  rw [upper, toNat_pack hc hu hl]; omega

theorem lower_pack {c u l : Nat} (hc : c < 2 ^ 8) (hu : u < 2 ^ 8) (hl : l < 2 ^ 16) :
    lower (pack c u l) = l := by
  rw [lower, toNat_pack hc hu hl]; omega

theorem middle_pack {c u l : Nat} (hc : c < 2 ^ 8) (hu : u < 2 ^ 8) (hl : l < 2 ^ 16) :
    middle (pack c u l) = l / 2 ^ 8 := by
  rw [middle, toNat_pack hc hu hl]; omega

theorem payload_pack {c u l : Nat} (hc : c < 2 ^ 8) (hu : u < 2 ^ 8) (hl : l < 2 ^ 16) :
    payload (pack c u l) = u * 2 ^ 16 + l := by
  rw [payload, toNat_pack hc hu hl]; omega

theorem isOdd_pack {c u l : Nat} (hc : c < 2 ^ 8) (hu : u < 2 ^ 8) (hl : l < 2 ^ 16) :
    isOdd (pack c u l) = (l % 2 == 1) := by
  rw [isOdd, toNat_pack hc hu hl]
  congr 1
  omega

end WordMachine.Word
