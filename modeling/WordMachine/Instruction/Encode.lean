/-
**Encoding instructions.**

The operand form of an opcode says what operands it takes and where they go in the word.  Names are
looked up among the symbols.  The first operand is examined before the second, and a form with one
operand refuses a second before it looks at the first.

The bit that marks a register in the lower field is its lowest bit, so that an odd number there
could be taken for a register.  Bit 20 marks such a number as one in the forms with room for the
mark; a stored word changes its opcode instead, and an odd slot is refused.

Main definitions:

* `SymbolTable` — the values of names;
* `Misfit`, `EncodingError` — why an instruction has no word;
* `Form.encode` — the fields of a word, form by form;
* `Instruction.encodeNamed`, `Instruction.encode` — the word of an instruction.
-/

import WordMachine.Instruction.Basic
import WordMachine.Instruction.Word

set_option relaxedAutoImplicit false
set_option autoImplicit false

namespace WordMachine

/-! ### Symbols -/

/-- The values of names. -/
abbrev SymbolTable := List (Text × UInt32)

/-- The value of a name, if it has one. -/
def SymbolTable.value? (symbols : SymbolTable) (name : Text) : Option UInt32 :=
  List.lookup name symbols

/-! ### Errors -/

/-- What an operand is to its instruction. -/
inductive Role
  | destination | source | immediate | operand | firstOperand | secondOperand | slot
  deriving DecidableEq, Repr

/-- What a diagnostic calls an operand after its role. -/
def Role.name : Role → String
  | destination => "destination"
  | source => "source"
  | immediate => "immediate"
  | operand => "operand"
  | firstOperand => "first operand"
  | secondOperand => "second operand"
  | slot => "slot"

/-- The fields that hold an address. -/
inductive AddressField
  | wide | medium | narrow
  deriving DecidableEq, Repr

/-- The largest address that a field holds. -/
def AddressField.largest : AddressField → Nat
  | wide => 0x7FFFFF
  | medium => 0xFFFF
  | narrow => 0x7F

/-- What a diagnostic says of the width of an address field. -/
def AddressField.name : AddressField → String
  | wide => "23 bits"
  | medium => "16 bits"
  | narrow => "the 7-bit address field"

/-- Why the operands do not fit the form of their opcode. -/
inductive Misfit
  /-- A name has no value. -/
  | unknownLabel (name : Text)
  /-- A register is required. -/
  | notRegister (role : Role) (got : Option Operand)
  /-- A number is required. -/
  | notImmediate (role : Role) (got : Option Operand)
  /-- A number exceeds sixteen bits. -/
  | immediateTooWide (role : Role) (value : UInt32)
  /-- An address, direct or in a register, is required. -/
  | notAddress (got : Option Operand)
  /-- An address given as a number is required. -/
  | notDirectAddress (got : Option Operand)
  /-- An address exceeds its field. -/
  | addressTooWide (field : AddressField) (value : UInt32)
  /-- The form has no first operand. -/
  | unexpectedFirst (got : Operand)
  /-- The form has no second operand. -/
  | unexpectedSecond (got : Operand)
  /-- A register or a number is required. -/
  | notRegisterOrImmediate (got : Option Operand)
  /-- A slot would read as a register. -/
  | oddSlot (value : UInt32)
  /-- A flag is required. -/
  | notFlag (got : Option Operand)
  /-- No flag has the given number. -/
  | flagOutOfRange (id : UInt32)
  deriving DecidableEq, Repr

/-- The wording of a diagnostic. -/
def Misfit.message : Misfit → String
  | unknownLabel name => s!"unknown label '{name.str}'"
  | notRegister role got => s!"{role.name} must be a register, got {Operand.kindName got}"
  | notImmediate role got => s!"{role.name} must be an immediate, got {Operand.kindName got}"
  | immediateTooWide role v =>
    s!"{role.name} {(Numeral.marked 1 v.toNat).str} does not fit in 16 bits"
  | notAddress got => s!"address operand expected, got {Operand.kindName got}"
  | notDirectAddress got => s!"direct address expected, got {Operand.kindName got}"
  | addressTooWide field v =>
    s!"address {(Numeral.marked 1 v.toNat).str} does not fit in {field.name}"
  | unexpectedFirst got => s!"unexpected first operand {got.print.str}"
  | unexpectedSecond got => s!"unexpected second operand {got.print.str}"
  | notRegisterOrImmediate got =>
    s!"operand must be a register or immediate, got {Operand.kindName got}"
  | oddSlot v => s!"odd slot {(Numeral.marked 1 v.toNat).str} collides with the register form"
  | notFlag got => s!"flag operand expected, got {Operand.kindName got}"
  | flagOutOfRange n => s!"flag id {(Numeral.decimal n.toNat).str} out of range"

/-- Why an instruction has no word. -/
inductive EncodingError
  /-- No opcode has the given mnemonic. -/
  | unsupportedMnemonic (name : Text)
  /-- The operands do not fit the opcode. -/
  | misfit (opcode : Opcode) (cause : Misfit)
  deriving DecidableEq, Repr

/-- The wording of a diagnostic. -/
def EncodingError.message (e : EncodingError) : String :=
  Text.message <| match e with
  | unsupportedMnemonic name => s!"unsupported mnemonic: {name.str}"
  | misfit opcode cause => s!"{opcode.mnemonic.str}: {cause.message}"

/-! ### Fields -/

namespace Operand

/-- A name must have a value. -/
def resolve (symbols : SymbolTable) (name : Text) : Except Misfit UInt32 :=
  match symbols.value? name with
  | some v => .ok v
  | none => .error (.unknownLabel name)

/-- The code of an operand that must be a register. -/
def registerField (role : Role) : Option Operand → Except Misfit Nat
  | some (register r) => .ok r.code
  | got => .error (.notRegister role got)

/-- A number that must fit in sixteen bits. -/
def fit16 (role : Role) (v : UInt32) : Except Misfit Nat :=
  if v.toNat ≤ 0xFFFF then .ok v.toNat else .error (.immediateTooWide role v)

/-- The number of an operand that must be one, or a name for one, of sixteen bits. -/
def immediateField (symbols : SymbolTable) (role : Role) : Option Operand → Except Misfit Nat
  | some (immediate v) => fit16 role v
  | some (label name) => do fit16 role (← resolve symbols name)
  | got => .error (.notImmediate role got)

/-- An address that must fit in its field. -/
def fitAddress (field : AddressField) (v : UInt32) : Except Misfit Nat :=
  if v.toNat ≤ field.largest then .ok v.toNat else .error (.addressTooWide field v)

/-- The number of an operand that must be an address given as a number, as an address or by name.
Anything else is refused for the given cause. -/
def directField (symbols : SymbolTable) (field : AddressField)
    (refusal : Option Operand → Misfit) : Option Operand → Except Misfit Nat
  | some (address v) => fitAddress field v
  | some (immediate v) => fitAddress field v
  | some (label name) => do fitAddress field (← resolve symbols name)
  | got => .error (refusal got)

/-- The payload of an address of twenty-three bits: the top bit marks an address in a register. -/
def wideField (symbols : SymbolTable) : Option Operand → Except Misfit Nat
  | some (indirect r) => .ok (2 ^ 23 + r.code * 2 ^ 19)
  | a => directField symbols .wide .notAddress a

/-- The upper field of an address of seven bits: the top bit marks an address in a register. -/
def narrowField (symbols : SymbolTable) : Option Operand → Except Misfit Nat
  | some (indirect r) => .ok (2 ^ 7 + r.code * 2 ^ 3)
  | a => directField symbols .narrow .notAddress a

/-- The number of a flag. -/
def flagField (n : UInt32) : Except Misfit Nat :=
  if n.toNat < Flag.all.length then .ok n.toNat else .error (.flagOutOfRange n)

/-- A first operand must be absent. -/
def absentFirst : Option Operand → Except Misfit Unit
  | none => .ok ()
  | some a => .error (.unexpectedFirst a)

/-- A second operand must be absent. -/
def absentSecond : Option Operand → Except Misfit Unit
  | none => .ok ()
  | some b => .error (.unexpectedSecond b)

end Operand

/-- The lower field for a register: its code in the upper byte, and the mark. -/
def registerMark (r : Register) : Nat := r.code * 2 ^ 8 + 1

/-- The bit of the upper field that marks an odd number in the lower one. -/
def oddMark (v : Nat) : Nat := if v % 2 = 1 then 2 ^ 4 else 0

namespace Form

open Operand

/-- The opcode and the two fields of a word, for operands of the given form. -/
def encode (symbols : SymbolTable) (op : Opcode) (a b : Option Operand) :
    Form → Except Misfit (Opcode × Nat × Nat)
  | regImm => do
    let r ← registerField .destination a
    let v ← immediateField symbols .immediate b
    return (op, r, v)
  | regRegOrImm => do
    let r ← registerField .destination a
    match b with
    | some (register s) => return (op, r, registerMark s)
    | b =>
      let v ← immediateField symbols .source b
      return (op, r + oddMark v, v)
  | regAddr16 => do
    let r ← registerField .destination a
    let v ← directField symbols .medium .notDirectAddress b
    return (op, r, v)
  | addr8Imm => do
    let t ← narrowField symbols a
    let v ← immediateField symbols .immediate b
    return (op, t, v)
  | addr8RegOrImm => do
    let t ← narrowField symbols a
    match b with
    | some (register s) => return (op, t, registerMark s)
    | b =>
      let v ← immediateField symbols .source b
      -- An odd number would read as a register; the opcode for numbers stores the same word.
      return (if v % 2 = 1 then .stri else op, t, v)
  | regOrImm => do
    absentSecond b
    match a with
    | some (register r) => return (op, r.code, 1)
    | some (immediate v) =>
      let v ← fit16 .immediate v
      return (op, oddMark v, v)
    | some (label name) =>
      let v ← fit16 .immediate (← resolve symbols name)
      return (op, oddMark v, v)
    | a => throw (.notRegisterOrImmediate a)
  | reg => do
    absentSecond b
    let r ← registerField .operand a
    return (op, r, 0)
  | regReg => do
    let r ← registerField .firstOperand a
    let s ← registerField .secondOperand b
    return (op, r, s * 2 ^ 8)
  | addr24 => do
    absentSecond b
    let t ← wideField symbols a
    return (op, t / 2 ^ 16, t % 2 ^ 16)
  | addr8Slot => do
    let t ← narrowField symbols a
    match b with
    | none => return (op, t, 0)
    | b =>
      let v ← immediateField symbols .slot b
      return (op, t, v)
  | addr8RegSlot => do
    let t ← narrowField symbols a
    match b with
    | none => return (op, t, 0)
    | some (register s) => return (op, t, registerMark s)
    | b =>
      let v ← immediateField symbols .slot b
      if v % 2 = 1 then throw (.oddSlot v.toUInt32)
      return (op, t, v)
  | flagId => do
    absentSecond b
    match a with
    | some (flag n) => return (op, 0, ← flagField n)
    | some (immediate n) => return (op, 0, ← flagField n)
    | a => throw (.notFlag a)
  | noOperands => do
    absentFirst a
    absentSecond b
    return (op, 0, 0)

end Form

/-! ### Words -/

namespace Instruction

/-- The word of an instruction whose names have the given values. -/
def encodeWith (symbols : SymbolTable) (i : Instruction) : Except EncodingError UInt32 :=
  match i.opcode.form.encode symbols i.opcode i.a i.b with
  | .ok (op, upper, lower) => .ok (Word.pack op.code upper lower)
  | .error cause => .error (.misfit i.opcode cause)

/-- The word of an instruction without names. -/
def encode (i : Instruction) : Except EncodingError UInt32 :=
  i.encodeWith []

/-- The word of an instruction given by its mnemonic, in any letter case. -/
def encodeNamed (symbols : SymbolTable) (mnemonic : Text) (a b : Option Operand) :
    Except EncodingError UInt32 :=
  match Opcode.ofMnemonic? mnemonic with
  | some opcode => encodeWith symbols { opcode, a, b }
  | none => .error (.unsupportedMnemonic mnemonic)

end Instruction

end WordMachine
