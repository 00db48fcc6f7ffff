/-
**The register file.**

The register file holds the words of the fourteen registers.  The flags are single bits of the flags
word.

Main definitions:

* `RegisterFile`, `RegisterFile.get`, `RegisterFile.set` — the words of the registers;
* `RegisterFile.flag`, `RegisterFile.setFlag`, `RegisterFile.setFlags` — the flags;
* `RegisterFile.print` — the registers and the flags as text.

Main results:

* `RegisterFile.get_set` — a register holds what was last set;
* `RegisterFile.set_set`, `RegisterFile.set_get` — changes that undo or repeat each other.
-/

import WordMachine.Register
import WordMachine.Flag
import WordMachine.Text.Numeral

set_option relaxedAutoImplicit false
set_option autoImplicit false

namespace WordMachine

/-- The words of the registers, in the order of their codes. -/
structure RegisterFile where
  /-- One word for each code. -/
  words : Vector UInt32 14 := Vector.replicate 14 0
  deriving DecidableEq, Repr, Inhabited

namespace RegisterFile

/-- All registers zero. -/
def zeros : RegisterFile := {}

/-- The word of a register. -/
def get (rs : RegisterFile) (r : Register) : UInt32 := rs.words[r.code]

/-- Changes the word of a register. -/
def set (rs : RegisterFile) (r : Register) (v : UInt32) : RegisterFile :=
  ⟨rs.words.set r.code v r.code.isLt⟩

/-- Two registers with one code are the same. -/
theorem code_inj {r s : Register} : (r.code : Nat) = s.code ↔ r = s := by
  constructor
  · intro h
    have := Register.ofCode?_code r
    rw [h, Register.ofCode?_code] at this
    exact (Option.some.inj this).symm
  · rintro rfl; rfl

/-- A register holds what was last set. -/
theorem get_set (rs : RegisterFile) (r s : Register) (v : UInt32) :
    (rs.set r v).get s = if r = s then v else rs.get s := by
  simp only [get, set, Fin.getElem_fin, Vector.getElem_set, code_inj]

/-- Of two changes of one register, the second counts. -/
@[simp] theorem set_set (rs : RegisterFile) (r : Register) (v w : UInt32) :
    (rs.set r v).set r w = rs.set r w := by
  simp [set]

/-- Setting a register to its own word changes nothing. -/
@[simp] theorem set_get (rs : RegisterFile) (r : Register) : rs.set r (rs.get r) = rs := by
  simp [set, get]

/-! ### Flags -/

/-- The word with a single bit, that of the flag. -/
def mask (f : Flag) : UInt32 := UInt32.ofNat (2 ^ f.bit)

/-- The state of a flag. -/
def flag (rs : RegisterFile) (f : Flag) : Bool :=
  (rs.get .flags).toNat.testBit f.bit

/-- Changes the state of a flag. -/
def setFlag (rs : RegisterFile) (f : Flag) (on : Bool) : RegisterFile :=
  let w := rs.get .flags
  rs.set .flags (if on then w ||| mask f else w &&& ~~~ mask f)

/-- Changes the states of some flags, one after the other. -/
def setFlags (rs : RegisterFile) (fs : List (Flag × Bool)) : RegisterFile :=
  fs.foldl (fun rs (f, on) => rs.setFlag f on) rs

/-! ### Printing -/

/-- A register in its column: the name and a colon on six places, and the word in lower case. -/
def printRegister (rs : RegisterFile) (r : Register) : Text :=
  Text.padRight 6 (r.name ++ [':']) ++ '0' :: 'x' :: Numeral.hexLower 8 (rs.get r).toNat ++
    [' ', ' ']

/-- A row of registers. -/
def printRow (rs : RegisterFile) (row : List Register) : Text :=
  row.flatMap rs.printRegister ++ ['\n', '\n']

/-- A flag with its state. -/
def printFlag (rs : RegisterFile) (f : Flag) : Text :=
  ' ' :: f.name ++ ['=', if rs.flag f then '1' else '0']

/-- The registers in rows, and the flags in a line. -/
def print (rs : RegisterFile) : Text :=
  Text.rule ++ "\n\nRegisters:\n\n".toList ++ Text.rule ++ "\n\n".toList ++
    rs.printRow [.ax, .bx, .cx, .dx] ++ rs.printRow [.ex, .fx, .gx, .hx] ++
    rs.printRow [.sp, .bp, .si, .di] ++ rs.printRow [.pc, .flags] ++
    "Flags:".toList ++ Flag.all.flatMap rs.printFlag ++ ['\n']

end RegisterFile

end WordMachine
