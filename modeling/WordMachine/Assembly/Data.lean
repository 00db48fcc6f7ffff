/-
**Data directives.**

A directive of the data section stands for some bytes: a word or a byte, given by a number or by a
name; a string with a zero after it; room filled with zeros; or zeros up to the next multiple of a
power of two.  How many bytes a directive stands for is known before any name has a value, and may
depend only on how many bytes come before it.

Main definitions:

* `Datum` — what a data directive stands for;
* `DataError`, `Datum.ofOperands` — reading the operands of a data directive;
* `Datum.size` — how many bytes it stands for;
* `ValueError`, `Datum.bytes` — the bytes.

Main results:

* `Datum.length_bytes` — a datum has the bytes that its size promises.
-/

import WordMachine.Source.Command
import WordMachine.Instruction.Encode
import WordMachine.Memory.Basic

set_option relaxedAutoImplicit false
set_option autoImplicit false

namespace WordMachine

/-- A number, or a name for one. -/
inductive Quantity
  | number (v : UInt32)
  | named (name : Text)
  deriving DecidableEq, Repr

/-- What a data directive stands for. -/
inductive Datum
  /-- A word. -/
  | word (q : Quantity)
  /-- A byte. -/
  | byte (q : Quantity)
  /-- The characters of a string and a zero. -/
  | string (content : Text)
  /-- Zeros. -/
  | zeros (n : Nat)
  /-- Zeros up to the next multiple of a number. -/
  | align (boundary : Nat)
  deriving DecidableEq, Repr

/-! ### Reading -/

/-- Why the operands do not fit a data directive. -/
inductive DataError
  /-- A range of indices needs two ends. -/
  | indicesOperands
  /-- The end of a range is not a number. -/
  | indicesKind (got : Option Operand)
  /-- A range ends before it begins. -/
  | indicesOrder (first last : UInt32)
  /-- The operand is missing. -/
  | missingOperand (k : DataKind)
  /-- There is a second operand. -/
  | extraOperand (k : DataKind)
  /-- The operand is neither a number nor a name. -/
  | quantityKind (k : DataKind) (got : Option Operand)
  /-- The operand is not a string. -/
  | stringKind (got : Option Operand)
  /-- The operand is not a number of bytes. -/
  | spaceKind
  /-- The operand is not a boundary. -/
  | alignKind
  /-- The boundary is not a power of two. -/
  | alignBoundary (boundary : UInt32)
  deriving DecidableEq, Repr

/-- The wording of a diagnostic. -/
def DataError.message : DataError → String
  | indicesOperands => ".bitv expects [begin],[end]"
  | indicesKind got => s!".bitv expects a numeric operand, got {Operand.kindName got}"
  | indicesOrder first last =>
    s!".bitv begin {(Numeral.decimal first.toNat).str} is greater than" ++
      s!" end {(Numeral.decimal last.toNat).str}"
  | missingOperand k => s!"{k.name.str} expects an operand"
  | extraOperand k => s!"{k.name.str} takes one operand"
  | quantityKind k got =>
    s!"{k.name.str} expects an immediate or label, got {Operand.kindName got}"
  | stringKind got => s!".string expects a quoted string, got {Operand.kindName got}"
  | spaceKind => ".space expects an immediate size"
  | alignKind => ".align expects an immediate boundary"
  | alignBoundary b =>
    s!".align boundary {(Numeral.decimal b.toNat).str} is not a power of two"

namespace Datum

/-- The number is a power of two. -/
def isPowerOfTwo (n : Nat) : Bool :=
  n != 0 && 2 ^ n.log2 == n

/-- An end of a range of indices. -/
def index : Option Operand → Except DataError UInt32
  | some (.immediate v) => .ok v
  | some (.address v) => .ok v
  | got => .error (.indicesKind got)

/-- A number or a name. -/
def quantity (k : DataKind) : Operand → Except DataError Quantity
  | .immediate v => .ok (.number v)
  | .label name => .ok (.named name)
  | got => .error (.quantityKind k got)

/-- Reads a range of indices, which stands for a zero for each of them. -/
def ofRange (a b : Option Operand) : Except DataError Datum :=
  if a.isNone || b.isNone then .error .indicesOperands
  else do
    let first ← index a
    let last ← index b
    if last < first then throw (.indicesOrder first last)
    return zeros (last.toNat - first.toNat + 1)

/-- Reads the one operand of the other directives. -/
def ofOperand (k : DataKind) (a : Operand) : Except DataError Datum :=
  match k with
  | .word => return word (← quantity k a)
  | .byte => return byte (← quantity k a)
  | .string =>
    match a with
    | .quoted content => .ok (string content)
    | got => .error (.stringKind got)
  | .space =>
    match a with
    | .immediate n => .ok (zeros n.toNat)
    | _ => .error .spaceKind
  | .align =>
    match a with
    | .immediate b =>
      if isPowerOfTwo b.toNat then .ok (align b.toNat) else .error (.alignBoundary b)
    | _ => .error .alignKind
  | .indices => .error .indicesOperands

/-- Reads the operands of a data directive. -/
def ofOperands (k : DataKind) (a b : Option Operand) : Except DataError Datum :=
  match k, a, b with
  | .indices, a, b => ofRange a b
  | k, none, _ => .error (.missingOperand k)
  | k, some _, some _ => .error (.extraOperand k)
  | k, some a, none => ofOperand k a

/-! ### Size and bytes -/

/-- How many bytes are missing to the next multiple of a boundary. -/
def padding (boundary offset : Nat) : Nat :=
  (boundary - offset % boundary) % boundary

/-- How many bytes a datum stands for, when `offset` bytes come before it. -/
def size (offset : Nat) : Datum → Nat
  | word _ => 4
  | byte _ => 1
  | string content => content.length + 1
  | zeros n => n
  | align boundary => padding boundary offset

/-- Why a datum has no bytes. -/
inductive ValueError
  /-- A name has no value. -/
  | unknownLabel (name : Text)
  /-- The value of a byte exceeds eight bits. -/
  | byteTooWide (value : UInt32)
  deriving DecidableEq, Repr

/-- The wording of a diagnostic. -/
def ValueError.message (e : ValueError) : String :=
  Text.message <| match e with
  | unknownLabel name => s!"unknown label '{name.str}'"
  | byteTooWide v => s!".byte value {(Numeral.word v.toNat).str} does not fit in 8 bits"

/-- The value of a number, or of a name among the symbols. -/
def value (symbols : SymbolTable) : Quantity → Except ValueError UInt32
  | .number v => .ok v
  | .named name =>
    match symbols.value? name with
    | some v => .ok v
    | none => .error (.unknownLabel name)

/-- The bytes of a datum, when `offset` bytes come before it. -/
def bytes (symbols : SymbolTable) (offset : Nat) : Datum → Except ValueError (List UInt8)
  | word q => do return Memory.wordBytes (← value symbols q)
  | byte q => do
    let v ← value symbols q
    if 0xFF < v.toNat then throw (.byteTooWide v)
    return [v.toUInt8]
  | string content => return content.toBytes ++ [0]
  | zeros n => return List.replicate n 0
  | align boundary => return List.replicate (padding boundary offset) 0

/-- A datum has the bytes that its size promises. -/
theorem length_bytes {symbols : SymbolTable} {offset : Nat} {d : Datum} {bs : List UInt8}
    (h : d.bytes symbols offset = .ok bs) : bs.length = d.size offset := by
  cases d with
  | word q =>
    simp only [bytes, bind, Except.bind, pure, Except.pure] at h
    split at h
    · contradiction
    · cases h
      simp [size, Memory.wordBytes]
  | byte q =>
    simp only [bytes, bind, Except.bind, pure, Except.pure, throw, throwThe,
      MonadExceptOf.throw] at h
    split at h
    · contradiction
    · split at h
      · contradiction
      · cases h
        rfl
  | string content => cases h; simp [size, Text.toBytes]
  | zeros n => cases h; simp [size]
  | align b => cases h; simp [size]

end Datum

end WordMachine
