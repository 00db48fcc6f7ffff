/-
**Memory.**

Memory is a row of bytes with addresses from zero.  A read or a write names an address of 32 bits
and a width, and all of its bytes must lie inside memory; otherwise nothing is read or written.
Numbers of more than one byte are little-endian.

Main definitions:

* `Memory`, `Memory.zeros`, `Memory.ofSize` — the bytes, and memory with only zeros;
* `Memory.byte`, `Memory.slice`, `Memory.put` — bytes without a test of the range;
* `Memory.OutOfBounds`, `Memory.check` — the test of the range;
* `Memory.read`, `Memory.read8`, `Memory.read16`, `Memory.read32`, `Memory.cString` — reading;
* `Memory.write`, `Memory.write8`, `Memory.write16`, `Memory.write32`, `Memory.writeWords` —
  writing.
-/

import WordMachine.Memory.LittleEndian
import WordMachine.Text.Numeral

set_option relaxedAutoImplicit false
set_option autoImplicit false

namespace WordMachine

/-- A row of bytes. -/
structure Memory where
  /-- The bytes, in the order of their addresses. -/
  bytes : Array UInt8
  deriving DecidableEq, Repr, Inhabited

namespace Memory

/-- The number of bytes. -/
def size (m : Memory) : Nat := m.bytes.size

/-- Memory with only zeros. -/
def zeros (size : Nat) : Memory := ⟨Array.replicate size 0⟩

/-- Why there is no memory of a given size. -/
inductive SizeError
  /-- Memory has at least one byte. -/
  | zero
  deriving DecidableEq, Repr

/-- The wording of a diagnostic. -/
def SizeError.message : SizeError → String
  | zero => "memory size must be non-zero"

/-- Memory with only zeros and at least one of them. -/
def ofSize (size : Nat) : Except SizeError Memory :=
  if size = 0 then .error .zero else .ok (zeros size)

/-- All bytes set to zero. -/
def clear (m : Memory) : Memory := zeros m.size

/-! ### Bytes -/

/-- The byte at an address, zero outside memory. -/
def byte (m : Memory) (a : Nat) : UInt8 := m.bytes[a]?.getD 0

/-- The bytes at consecutive addresses. -/
def slice (m : Memory) (a width : Nat) : List UInt8 :=
  (List.range' a width).map m.byte

/-- Replaces the bytes at consecutive addresses. -/
def put (m : Memory) (a : Nat) : List UInt8 → Memory
  | [] => m
  | b :: bs => put ⟨m.bytes.setIfInBounds a b⟩ (a + 1) bs

@[simp] theorem size_zeros (n : Nat) : (zeros n).size = n := by simp [zeros, size]

@[simp] theorem size_clear (m : Memory) : m.clear.size = m.size := by simp [clear]

@[simp] theorem length_slice (m : Memory) (a width : Nat) : (m.slice a width).length = width := by
  simp [slice]

@[simp] theorem size_put (m : Memory) (a : Nat) (bs : List UInt8) :
    (m.put a bs).size = m.size := by
  induction bs generalizing m a with
  | nil => rfl
  | cons b bs ih => rw [put, ih]; simp [size]

@[simp] theorem byte_zeros (n a : Nat) : (zeros n).byte a = 0 := by
  simp only [byte, zeros, Array.getElem?_replicate]
  split <;> rfl

/-- Bytes that were put are found again, and the other bytes stay as they were. -/
theorem byte_put (m : Memory) (a x : Nat) (bs : List UInt8) (h : a + bs.length ≤ m.size) :
    (m.put a bs).byte x = if a ≤ x then bs[x - a]?.getD (m.byte x) else m.byte x := by
  induction bs generalizing m a with
  | nil => simp [put]
  | cons b bs ih =>
    simp only [size, List.length_cons] at h
    rw [put, ih _ _ (by simp only [size, Array.size_setIfInBounds]; omega)]
    have hb : byte ⟨m.bytes.setIfInBounds a b⟩ x = if a = x then b else m.byte x := by
      have ha : a < m.bytes.size := by omega
      simp only [byte, Array.getElem?_setIfInBounds]
      split <;> simp_all
    rw [hb]
    rcases Nat.lt_trichotomy a x with hax | rfl | hax
    · have hx : x - a = (x - (a + 1)) + 1 := by omega
      have h₁ : a + 1 ≤ x := by omega
      have h₂ : a ≤ x := by omega
      have h₃ : a ≠ x := by omega
      simp only [h₁, h₂, h₃, if_true, if_false, hx, List.getElem?_cons_succ]
    · have h₁ : ¬ a + 1 ≤ a := by omega
      simp [h₁]
    · have h₁ : ¬ a + 1 ≤ x := by omega
      have h₂ : ¬ a ≤ x := by omega
      have h₃ : a ≠ x := by omega
      simp only [h₁, h₂, h₃, if_false]

/-! ### The test of the range -/

/-- An access that is not inside memory. -/
structure OutOfBounds where
  /-- How many bytes the access names. -/
  width : Nat
  /-- The first of them. -/
  address : UInt32
  /-- The number of bytes that memory has. -/
  memorySize : Nat
  deriving DecidableEq, Repr

/-- The wording of a diagnostic. -/
def OutOfBounds.message (e : OutOfBounds) : String :=
  s!"memory access out of bounds: {(Numeral.decimal e.width).str} byte(s)" ++
    s!" at {(Numeral.word e.address.toNat).str}" ++
    s!" (memory size {(Numeral.word e.memorySize).str})"

/-- All bytes of the access lie inside memory.  The width is that of a word or the length of some
bytes at hand, so that in 64 bits the sum would not wrap around either. -/
def InRange (m : Memory) (a : UInt32) (width : Nat) : Prop :=
  a.toNat + width ≤ m.size

instance (m : Memory) (a : UInt32) (width : Nat) : Decidable (m.InRange a width) :=
  inferInstanceAs (Decidable (_ ≤ _))

/-- Refuses an access that is not inside memory. -/
def check (m : Memory) (a : UInt32) (width : Nat) : Except OutOfBounds Unit :=
  if m.InRange a width then .ok () else .error ⟨width, a, m.size⟩

/-! ### Reading -/

/-- The number in `width` bytes. -/
def read (m : Memory) (a : UInt32) (width : Nat) : Except OutOfBounds Nat :=
  if m.InRange a width then .ok (LittleEndian.combine (m.slice a.toNat width))
  else .error ⟨width, a, m.size⟩

/-- The byte at an address. -/
def read8 (m : Memory) (a : UInt32) : Except OutOfBounds UInt8 :=
  (m.read a 1).map Nat.toUInt8

/-- The number in two bytes. -/
def read16 (m : Memory) (a : UInt32) : Except OutOfBounds UInt16 :=
  (m.read a 2).map Nat.toUInt16

/-- The word in four bytes. -/
def read32 (m : Memory) (a : UInt32) : Except OutOfBounds UInt32 :=
  (m.read a 4).map Nat.toUInt32

/-- The first address from `a` on that holds a zero or lies outside memory. -/
def firstZero (m : Memory) (a : Nat) : Nat :=
  if a < m.size then
    if m.byte a = 0 then a else m.firstZero (a + 1)
  else a
termination_by m.size - a

/-- The bytes from an address to the first zero, which must lie inside memory and is left out. -/
def cString (m : Memory) (a : UInt32) : Except OutOfBounds (List UInt8) :=
  let stop := m.firstZero a.toNat
  if stop < m.size then .ok (m.slice a.toNat (stop - a.toNat))
  else .error ⟨1, stop.toUInt32, m.size⟩

/-! ### Writing -/

/-- Writes bytes at consecutive addresses.  Outside memory nothing is written, and the second part
of the result says so. -/
def write (m : Memory) (a : UInt32) (bs : List UInt8) : Memory × Option OutOfBounds :=
  if m.InRange a bs.length then (m.put a.toNat bs, none)
  else (m, some ⟨bs.length, a, m.size⟩)

/-- The bytes of a word, the least significant first. -/
def wordBytes (w : UInt32) : List UInt8 := LittleEndian.split 4 w.toNat

/-- Writes one byte. -/
def write8 (m : Memory) (a : UInt32) (v : UInt8) : Memory × Option OutOfBounds :=
  m.write a [v]

/-- Writes a number of two bytes. -/
def write16 (m : Memory) (a : UInt32) (v : UInt16) : Memory × Option OutOfBounds :=
  m.write a (LittleEndian.split 2 v.toNat)

/-- Writes a word. -/
def write32 (m : Memory) (a : UInt32) (v : UInt32) : Memory × Option OutOfBounds :=
  m.write a (wordBytes v)

/-- Writes words one after the other. -/
def writeWords (m : Memory) (a : UInt32) (ws : List UInt32) : Memory × Option OutOfBounds :=
  m.write a (ws.flatMap wordBytes)

@[simp] theorem size_write (m : Memory) (a : UInt32) (bs : List UInt8) :
    (m.write a bs).1.size = m.size := by
  unfold write
  split <;> simp

end Memory

end WordMachine
