/-
**Operands.**

An operand of an instruction or of a directive is a register, the address held in a register, a
number, an address, a flag, a label or a quoted string.  A place for an operand may be empty, which
is the `none` of `Option Operand`.

Main definitions:

* `Operand` — the seven kinds;
* `Operand.print` — an operand as assembly text;
* `Operand.kindName` — what a diagnostic calls an operand, or a place without one.
-/

import WordMachine.Register
import WordMachine.Flag
import WordMachine.Text.Numeral

set_option relaxedAutoImplicit false
set_option autoImplicit false

namespace WordMachine

/-- An **operand**. -/
inductive Operand
  /-- The register itself. -/
  | register (r : Register)
  /-- The address that a register holds. -/
  | indirect (r : Register)
  /-- A number. -/
  | immediate (value : UInt32)
  /-- An address given as a number. -/
  | address (value : UInt32)
  /-- The flag with the given number, which need not exist. -/
  | flag (id : UInt32)
  /-- A name, to be looked up among the symbols. -/
  | label (name : Text)
  /-- A quoted string. -/
  | quoted (content : Text)
  deriving DecidableEq, Repr, Inhabited

namespace Operand

/-- An operand as assembly text.  Numbers are hexadecimal without leading zeros. -/
def print : Operand → Text
  | register r => r.name
  | indirect r => '[' :: r.name ++ [']']
  | immediate v => Numeral.marked 1 v.toNat
  | address v => '[' :: Numeral.marked 1 v.toNat ++ [']']
  | flag n =>
    match Flag.ofId? n.toNat with
    | some f => f.name
    | none => "flag#".toList ++ Numeral.decimal n.toNat
  | label name => name
  | quoted content => '"' :: content ++ ['"']

/-- What a diagnostic calls an operand, or a place without one. -/
def kindName : Option Operand → String
  | none => "none"
  | some (register _) => "register"
  | some (indirect _) => "address register"
  | some (immediate _) => "immediate"
  | some (address _) => "address"
  | some (flag _) => "flag"
  | some (label _) => "label"
  | some (quoted _) => "string"

/-- The operand of a flag that exists. -/
def ofFlag (f : Flag) : Operand :=
  flag f.id.toUInt32

end Operand

end WordMachine
