/-
**The console.**

A program reads bytes that the host has queued for it and writes bytes that the host collects.

Main definitions:

* `Console` — the pending input and the output so far;
* `Console.push`, `Console.write`, `Console.takeOutput` — the host's side, and writing;
* `Console.take`, `Console.drop` — the next bytes of the input;
* `Console.skipBlanks`, `Console.integer?`, `Console.nextInteger` — the next number of the input.
-/

import WordMachine.Text.Basic

set_option relaxedAutoImplicit false
set_option autoImplicit false

namespace WordMachine

/-- Queued input and collected output. -/
structure Console where
  /-- The bytes that wait to be read. -/
  input : List UInt8 := []
  /-- The bytes that were written and not yet collected. -/
  output : Array UInt8 := #[]
  deriving DecidableEq, Repr, Inhabited

namespace Console

/-- A console without input and output. -/
def empty : Console := {}

/-- Queues further input. -/
def push (c : Console) (bs : List UInt8) : Console :=
  { c with input := c.input ++ bs }

/-- Appends to the output. -/
def write (c : Console) (bs : List UInt8) : Console :=
  { c with output := c.output ++ bs }

/-- Collects the output, which is empty afterwards. -/
def takeOutput (c : Console) : List UInt8 × Console :=
  (c.output.toList, { c with output := #[] })

/-- The number of bytes that wait to be read. -/
def pending (c : Console) : Nat := c.input.length

/-- The next bytes of the input, at most `n` of them. -/
def take (c : Console) (n : Nat) : List UInt8 := c.input.take n

/-- Reads past the next bytes of the input, at most `n` of them. -/
def drop (c : Console) (n : Nat) : Console :=
  { c with input := c.input.drop n }

/-! ### Numbers -/

/-- The byte is white space. -/
def isBlank (b : UInt8) : Bool := Text.isBlankCode b.toNat

/-- The byte is a decimal digit. -/
def isDigit (b : UInt8) : Bool := 48 ≤ b.toNat && b.toNat ≤ 57

/-- How many blanks the input starts with. -/
def blanks (c : Console) : Nat := (c.input.takeWhile isBlank).length

/-- Reads past the blanks at the front of the input. -/
def skipBlanks (c : Console) : Console :=
  c.drop c.blanks

/-- Reading past the blanks leaves the input from its first other byte on. -/
theorem input_skipBlanks (c : Console) : c.skipBlanks.input = c.input.dropWhile isBlank := by
  have hsplit : c.input.takeWhile isBlank ++ c.input.dropWhile isBlank = c.input :=
    List.takeWhile_append_dropWhile
  calc c.skipBlanks.input
      = (c.input.takeWhile isBlank ++ c.input.dropWhile isBlank).drop c.blanks := by
        rw [hsplit]; rfl
    _ = c.input.dropWhile isBlank := List.drop_left

/-- The length and the sign of a sign at the front; `true` is a minus. -/
def sign : List UInt8 → Nat × Bool
  | b :: _ => if b = 45 then (1, true) else if b = 43 then (1, false) else (0, false)
  | [] => (0, false)

/-- The number written by some digits. -/
def digitsValue (ds : List UInt8) : Nat :=
  ds.foldl (fun v b => 10 * v + (b.toNat - 48)) 0

/-- The number at the front of some bytes, an optional sign and one or more digits, and how many
bytes it takes.  The value is taken modulo `2 ^ 32`. -/
def leadingInteger? (bs : List UInt8) : Option (UInt32 × Nat) :=
  let (signLength, negative) := sign bs
  let digits := (bs.drop signLength).takeWhile isDigit
  if digits.isEmpty then none
  else
    -- A minus sign takes the complement, also of a value that has wrapped.
    let v := (digitsValue digits).toUInt32
    some (if negative then 0 - v else v, signLength + digits.length)

/-- The next number of the input after white space, and how many bytes it takes with the white
space. -/
def integer? (c : Console) : Option (UInt32 × Nat) :=
  (leadingInteger? (c.input.drop c.blanks)).map fun (v, n) => (v, c.blanks + n)

/-- Reads the next number of the input.  Without one, the white space is read all the same. -/
def nextInteger (c : Console) : Option UInt32 × Console :=
  match c.integer? with
  | some (v, n) => (some v, c.drop n)
  | none => (none, c.skipBlanks)

end Console

end WordMachine
