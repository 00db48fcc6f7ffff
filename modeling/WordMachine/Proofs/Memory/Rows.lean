/-
**The rows of a dump, written in loops.**

A dump is told row by row, and a row by its parts.  It is written as well by three loops: one over
the rows, which moves on by sixteen bytes as long as it is before the end, and inside it one over
the columns and one over the characters.  The loop over the columns always runs sixteen times, and
looks for each column whether its address is before the end; the loop over the characters stops at
the end.  Both ways come to the same text, also where a range starts unaligned or ends inside a row.

Main definitions:

* `Memory.shown?`, `Memory.columnsAt` — the byte that is shown for an address, and those of a row;
* `Memory.cell` — the two places of a column;
* `Memory.columnsFrom`, `Memory.glyphsFrom`, `Memory.rowsFrom` — the three loops;
* `Memory.dumpInLoops` — the dump that they write.

Main results:

* `Memory.columnsFrom_zero`, `Memory.dumpRow_slice` — the columns of a row, and one row;
* `Memory.dumpRows_eq_rowsFrom` — **the loops write the rows**;
* `Memory.dumpInLoops_eq` — they write the dump.
-/

import WordMachine.Memory.Dump
import Mathlib.Data.List.Basic

set_option relaxedAutoImplicit false
set_option autoImplicit false

namespace WordMachine.Memory

/-! ### The loops -/

/-- The byte that is shown for an address, if the address is before the end. -/
def shown? (m : Memory) (stop a : Nat) : Option UInt8 :=
  if a < stop then some (m.byte a) else none

/-- The bytes that are shown in the columns of the row at an address. -/
def columnsAt (m : Memory) (stop a : Nat) : List (Option UInt8) :=
  (List.range rowWidth).map fun i => m.shown? stop (a + i)

/-- The two places of a column. -/
def cell : Option UInt8 → Text
  | some b => Numeral.hexLower 2 b.toNat
  | none => [' ', ' ']

/-- The columns of a row from the `i`-th on, with a space after each but the last. -/
def columnsFrom (m : Memory) (stop a i : Nat) : Text :=
  if i < rowWidth then
    cell (m.shown? stop (a + i)) ++ (if i ≠ rowWidth - 1 then [' '] else []) ++
      m.columnsFrom stop a (i + 1)
  else []
termination_by rowWidth - i

/-- The characters of a row from the `i`-th on. -/
def glyphsFrom (m : Memory) (stop a i : Nat) : Text :=
  if i < rowWidth ∧ a + i < stop then glyph (m.byte (a + i)) :: m.glyphsFrom stop a (i + 1)
  else []
termination_by rowWidth - i

/-- The row at an address. -/
def rowAt (m : Memory) (stop a : Nat) : Text :=
  Numeral.hexLower 8 a ++ ' ' :: m.columnsFrom stop a 0 ++ ' ' :: '|' :: m.glyphsFrom stop a 0 ++
    ['|', '\n']

/-- The rows from an address on. -/
def rowsFrom (m : Memory) (stop a : Nat) : Text :=
  if a < stop then m.rowAt stop a ++ m.rowsFrom stop (a + rowWidth) else []
termination_by stop - a
decreasing_by
  simp only [rowWidth]
  omega

/-- The dump that the loops write. -/
def dumpInLoops (m : Memory) (start : UInt32) (length : UInt64) : Text :=
  dumpHeading start.toNat (rangeEnd start length) ++
    m.rowsFrom (min m.size (rangeEnd start length)) start.toNat

variable {m : Memory} {stop a i : Nat}

/-! ### One row -/

/-- From the `i`-th column on, the loop puts a space between any two columns. -/
theorem columnsFrom_eq (m : Memory) (stop a i : Nat) :
    m.columnsFrom stop a i = List.intercalate [' ']
      ((List.range' i (rowWidth - i)).map fun j => cell (m.shown? stop (a + j))) := by
  fun_induction columnsFrom m stop a i with
  | case1 i hlt ih =>
      rw [ih, show rowWidth - i = rowWidth - (i + 1) + 1 by omega, List.range'_succ, List.map_cons]
      by_cases hlast : i = rowWidth - 1
      · have hnone : rowWidth - (i + 1) = 0 := by omega
        rw [if_neg (not_not.2 hlast), hnone]
        simp
      · have hne : (List.range' (i + 1) (rowWidth - (i + 1))).map
            (fun j => cell (m.shown? stop (a + j))) ≠ [] := by
          simp only [ne_eq, List.map_eq_nil_iff, List.range'_eq_nil_iff]
          omega
        rw [if_pos hlast, List.intercalate_cons_of_ne_nil hne]
  | case2 i hge =>
      have hnone : rowWidth - i = 0 := by omega
      rw [hnone]
      rfl

/-- **The loop over the columns** puts a space between any two of them. -/
theorem columnsFrom_zero (m : Memory) (stop a : Nat) :
    m.columnsFrom stop a 0 = List.intercalate [' '] ((m.columnsAt stop a).map cell) := by
  rw [columnsFrom_eq, columnsAt, List.map_map, List.range_eq_range']
  rfl

/-- The bytes of a row fill its first columns, and the other ones are blank. -/
theorem map_cell_columnsAt (m : Memory) (stop a : Nat) :
    (m.columnsAt stop a).map cell =
      (m.slice a (min rowWidth (stop - a))).map (fun b => Numeral.hexLower 2 b.toNat) ++
        List.replicate (rowWidth - min rowWidth (stop - a)) [' ', ' '] := by
  have hlength : rowWidth = min rowWidth (stop - a) + (rowWidth - min rowWidth (stop - a)) := by
    omega
  refine List.ext_getElem ?_ ?_
  · simpa only [columnsAt, List.length_map, List.length_range, List.length_append, length_slice,
      List.length_replicate] using hlength
  intro j hj _
  simp only [columnsAt, List.length_map, List.length_range] at hj
  rw [List.getElem_append]
  split
  · rename_i hshown
    have hlt : a + j < stop := by
      simp only [List.length_map, length_slice] at hshown
      omega
    simp [columnsAt, shown?, hlt, cell, slice]
  · rename_i hblank
    have hge : ¬ a + j < stop := by
      simp only [List.length_map, length_slice] at hblank
      omega
    simp [columnsAt, shown?, hge, cell]

/-- The loop over the columns writes the hexadecimal part of a row. -/
theorem hexColumns_slice (m : Memory) (stop a : Nat) :
    hexColumns (m.slice a (min rowWidth (stop - a))) = m.columnsFrom stop a 0 := by
  rw [columnsFrom_zero, map_cell_columnsAt, hexColumns, length_slice]

/-- The loop over the characters stops at the end of the row, or of the range. -/
theorem glyphsFrom_eq (m : Memory) (stop a i : Nat) :
    m.glyphsFrom stop a i = (m.slice (a + i) (min (rowWidth - i) (stop - (a + i)))).map glyph := by
  fun_induction glyphsFrom m stop a i with
  | case1 i hlt ih =>
      have hcount : min (rowWidth - i) (stop - (a + i)) =
          min (rowWidth - (i + 1)) (stop - (a + (i + 1))) + 1 := by omega
      rw [ih, hcount, slice, slice, List.range'_succ, List.map_cons, List.map_cons, Nat.add_assoc]
  | case2 i hge =>
      have hcount : min (rowWidth - i) (stop - (a + i)) = 0 := by omega
      rw [hcount]
      rfl

/-- **The loops over a row** write the row. -/
theorem dumpRow_slice (m : Memory) (stop a : Nat) :
    dumpRow a (m.slice a (min rowWidth (stop - a))) = m.rowAt stop a := by
  rw [dumpRow, rowAt, hexColumns_slice, glyphsFrom_eq, Nat.add_zero, Nat.sub_zero]

/-! ### All rows -/

/-- At the end no row is left. -/
theorem dumpRows_of_le (h : stop ≤ a) : m.dumpRows a stop = [] := by
  have hcount : (stop - a + (rowWidth - 1)) / rowWidth = 0 := by
    simp only [rowWidth]
    omega
  rw [dumpRows, hcount]
  rfl

/-- Before the end there is one more row, and the others start sixteen bytes later. -/
theorem dumpRows_of_lt (h : a < stop) :
    m.dumpRows a stop = m.rowAt stop a ++ m.dumpRows (a + rowWidth) stop := by
  have hcount : (stop - a + (rowWidth - 1)) / rowWidth =
      (stop - (a + rowWidth) + (rowWidth - 1)) / rowWidth + 1 := by
    simp only [rowWidth]
    omega
  have hnext : ∀ k, a + rowWidth * (k + 1) = a + rowWidth + rowWidth * k := by
    intro k
    rw [Nat.mul_add, Nat.mul_one, Nat.add_assoc, Nat.add_comm (rowWidth * k)]
  simp only [dumpRows, dumpRow_slice]
  rw [hcount, List.range_succ_eq_map, List.flatMap_cons, List.flatMap_map]
  simp only [Nat.mul_zero, Nat.add_zero, hnext]

/-- **The loops write the rows.** -/
theorem dumpRows_eq_rowsFrom (m : Memory) (stop a : Nat) :
    m.dumpRows a stop = m.rowsFrom stop a := by
  fun_induction rowsFrom m stop a with
  | case1 a hlt ih => rw [dumpRows_of_lt hlt, ih]
  | case2 a hge => exact dumpRows_of_le (Nat.not_lt.1 hge)

/-- **The loops write the dump.** -/
theorem dumpInLoops_eq (m : Memory) (start : UInt32) (length : UInt64) :
    m.dumpInLoops start length = m.dump start length := by
  rw [dumpInLoops, dump, dumpRows_eq_rowsFrom]

end WordMachine.Memory
