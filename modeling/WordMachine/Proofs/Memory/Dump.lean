/-
**A dump is read back.**

A row of a dump is taken apart at its punctuation: the address stands before the first space, the
columns stand between that space and the first bar, and the characters stand between the first bar
and the last.  The address and the columns hold no bar, and the address holds no space; what the
characters hold does not matter, as behind the first bar only the end is looked for.  A column is
two digits, or two spaces where there is no byte.

One row shows the byte at each of its sixteen addresses, and is blank from the end of the range on.
The loop over the rows puts such rows one behind the other.  By induction along it, what is read
back from all rows is the bytes of the range, none of them left out or repeated.

The end of the range is a number of 64 bits.  A range that ends beyond them wraps around to an end
before its start, and its dump shows nothing, whatever memory holds there.

Main definitions:

* `DumpRow`, `DumpRow.ofText` — a row, and how it is taken apart;
* `readColumns?`, `DumpRow.bytes?` — reading the columns of a row;
* `Memory.between` — the bytes of memory in a range;
* `DumpRow.Shows`, `Memory.Tabulates` — what one row shows, and what rows show;
* `Memory.Displays` — **what a dump shows**.

Main results:

* `DumpRow.ofText_text` — a row has one way to be taken apart;
* `Memory.readColumns?_intercalate` — the columns are read back;
* `Memory.shows_rowOf`, `Memory.exists_tabulates` — one row, and all rows;
* `Memory.Tabulates.bytes`, `Memory.Tabulates.chars` — the bytes of all rows, and their characters;
* `Memory.dump_displays` — **a dump shows the bytes that were asked for**, as far as memory goes, if
  the range does not wrap around;
* `Memory.not_displays_wrappedRange` — a dump of a range that does.
-/

import WordMachine.Proofs.Memory.Rows
import WordMachine.Proofs.Text.Cutting
import WordMachine.Proofs.Text.Lines
import WordMachine.Proofs.Text.Numerals
import Mathlib.Algebra.Order.Floor.Div
import Mathlib.Data.List.Forall2
import Mathlib.Data.List.ReduceOption

set_option relaxedAutoImplicit false
set_option autoImplicit false

namespace WordMachine

/-! ### Taking a row apart -/

/-- **A row of a dump**, in its three parts. -/
structure DumpRow where
  /-- What stands before the first space. -/
  address : Text
  /-- The columns, without the space on either side. -/
  columns : Text
  /-- What stands between the bars. -/
  chars : Text
  deriving DecidableEq, Repr

/-- The byte in a column of two places, none in a blank one. -/
def readColumn? (high low : Char) : Option (Option UInt8) :=
  if high = ' ' ∧ low = ' ' then some none
  else (Numeral.lowerValue? [high, low]).map fun n => some n.toUInt8

/-- The columns of two places each, with a space between any two of them. -/
def readColumns? : Text → Option (List (Option UInt8))
  | [high, low] => (readColumn? high low).map ([·])
  | high :: low :: ' ' :: rest =>
    match readColumn? high low, readColumns? rest with
    | some c, some cs => some (c :: cs)
    | _, _ => none
  | _ => none

namespace DumpRow

variable {row : DumpRow}

/-- The parts with the punctuation between them. -/
def text (row : DumpRow) : Text :=
  row.address ++ ' ' :: row.columns ++ ' ' :: '|' :: row.chars ++ ['|']

/-- Takes a row apart at its first space, and at its first and its last bar. -/
def ofText (s : Text) : DumpRow where
  address := s.takeWhile (· != ' ')
  columns := (((s.dropWhile (· != ' ')).drop 1).takeWhile (· != '|')).dropLast
  chars := ((s.dropWhile (· != '|')).drop 1).dropLast

/-- The bytes in the columns of a row, from left to right. -/
def bytes? (row : DumpRow) : Option (List UInt8) :=
  (readColumns? row.columns).map List.reduceOption

/-- Looking up the first positions of a list gives its front. -/
theorem reduceOption_getElem? {α : Type} (xs : List α) (n : Nat) :
    ((List.range n).map (xs[·]?)).reduceOption = xs.take n := by
  induction n with
  | zero => rfl
  | succ n ih =>
      rw [List.range_succ, List.map_append, List.reduceOption_append, ih, List.take_add_one,
        List.map_singleton]
      cases xs[n]? <;> rfl

theorem bytes?_of_columns {bs : List UInt8} {n : Nat}
    (h : readColumns? row.columns = some ((List.range n).map (bs[·]?))) :
    row.bytes? = some (bs.take n) := by
  rw [bytes?, h, Option.map_some, reduceOption_getElem?]

/-- **A row has one way to be taken apart.** -/
theorem ofText_text (hspace : ' ' ∉ row.address) (hbar : '|' ∉ row.address)
    (hcolumns : '|' ∉ row.columns) : ofText row.text = row := by
  have hbefore : '|' ∉ row.columns ++ [' '] := by simp [hcolumns]
  have hfront : '|' ∉ row.address ++ ' ' :: (row.columns ++ [' ']) := by simp [hbar, hbefore]
  have hspaced : row.text =
      row.address ++ ' ' :: ((row.columns ++ [' ']) ++ '|' :: (row.chars ++ ['|'])) := by
    simp [text]
  have hbarred : row.text =
      (row.address ++ ' ' :: (row.columns ++ [' '])) ++ '|' :: (row.chars ++ ['|']) := by
    simp [text]
  have haddress : row.text.takeWhile (· != ' ') = row.address := by
    rw [hspaced, Text.takeWhile_bne_append hspace]
  have hmiddle : (((row.text.dropWhile (· != ' ')).drop 1).takeWhile (· != '|')).dropLast =
      row.columns := by
    rw [hspaced, Text.dropWhile_bne_append hspace, List.drop_one, List.tail_cons,
      Text.takeWhile_bne_append hbefore, List.dropLast_concat]
  have hchars : ((row.text.dropWhile (· != '|')).drop 1).dropLast = row.chars := by
    rw [hbarred, Text.dropWhile_bne_append hfront, List.drop_one, List.tail_cons,
      List.dropLast_concat]
  rw [ofText, haddress, hmiddle, hchars]

end DumpRow

namespace Memory

variable {m : Memory} {stop a : Nat}

/-! ### The bytes in a range -/

/-- **The bytes of memory from one address up to another.** -/
def between (m : Memory) (a stop : Nat) : List UInt8 :=
  (m.bytes.extract a stop).toList

theorem getElem?_between (m : Memory) (a stop i : Nat) :
    (m.between a stop)[i]? = if a + i < stop then m.bytes[a + i]? else none := by
  rw [between, Array.getElem?_toList, Array.getElem?_extract]
  by_cases hsize : a + i < m.bytes.size
  · have hlt : i < min stop m.bytes.size - a ↔ a + i < stop := by omega
    simp only [hlt]
  · have hout : ¬ i < min stop m.bytes.size - a := by omega
    rw [if_neg hout, Array.getElem?_eq_none (Nat.not_lt.1 hsize), ite_self]

theorem between_of_le (h : stop ≤ a) : m.between a stop = [] := by
  refine List.ext_getElem? fun i => ?_
  rw [getElem?_between, if_neg (by omega), List.getElem?_nil]

theorem drop_between (m : Memory) (a stop n : Nat) :
    (m.between a stop).drop n = m.between (a + n) stop := by
  refine List.ext_getElem? fun i => ?_
  rw [List.getElem?_drop, getElem?_between, getElem?_between, Nat.add_assoc]

/-- Before the end of memory, what is shown is what is there. -/
theorem shown?_eq (h : stop ≤ m.size) (a i : Nat) :
    m.shown? stop (a + i) = (m.between a stop)[i]? := by
  rw [shown?, getElem?_between]
  by_cases hlt : a + i < stop
  · have hin : a + i < m.bytes.size := Nat.lt_of_lt_of_le hlt h
    rw [if_pos hlt, if_pos hlt, byte, Array.getElem?_eq_getElem hin, Option.getD_some]
  · rw [if_neg hlt, if_neg hlt]

theorem slice_eq_take (h : stop ≤ m.size) (a n : Nat) :
    m.slice a (min n (stop - a)) = (m.between a stop).take n := by
  refine List.ext_getElem? fun i => ?_
  rw [List.getElem?_take, ← shown?_eq h, slice, List.getElem?_map]
  by_cases hlt : i < min n (stop - a)
  · rw [List.getElem?_range' hlt, if_pos (by omega), shown?, if_pos (by omega), Nat.one_mul]
    rfl
  · rw [List.getElem?_eq_none (by rw [List.length_range']; omega), Option.map_none]
    by_cases hn : i < n
    · rw [if_pos hn, shown?, if_neg (by omega)]
    · rw [if_neg hn]

/-! ### The columns of a row -/

section Columns

variable {cs : List (Option UInt8)}

/-- **A column is read back**, with a byte in it or without. -/
theorem exists_cell_eq (c : Option UInt8) :
    ∃ high low, cell c = [high, low] ∧ readColumn? high low = some c := by
  cases c with
  | none => exact ⟨' ', ' ', rfl, rfl⟩
  | some b =>
      have hlength : (Numeral.hexLower 2 b.toNat).length = 2 :=
        Numeral.length_hexLower (by decide) b.toNat_lt
      obtain ⟨high, low, hcell⟩ := List.length_eq_two.1 hlength
      have hspace : ¬ (high = ' ' ∧ low = ' ') := by
        rintro ⟨rfl, -⟩
        have hmem : ' ' ∈ Numeral.hexLower 2 b.toNat := hcell ▸ List.mem_cons_self
        exact absurd (Numeral.mem_lowerDigits_of_mem_hexLower hmem) (by decide)
      refine ⟨high, low, hcell, ?_⟩
      rw [readColumn?, if_neg hspace, ← hcell, Numeral.lowerValue?_hexLower, Option.map_some,
        Nat.toUInt8, UInt8.ofNat_toNat]

/-- **The columns are read back.** -/
theorem readColumns?_intercalate (h : cs ≠ []) :
    readColumns? (List.intercalate [' '] (cs.map cell)) = some cs := by
  induction cs with
  | nil => exact absurd rfl h
  | cons c cs ih =>
      obtain ⟨high, low, hcell, hread⟩ := exists_cell_eq c
      rw [List.map_cons, hcell]
      -- Only the last column has no space behind it.
      cases cs with
      | nil => simp [readColumns?, hread]
      | cons c' cs =>
          have hrest := ih (List.cons_ne_nil c' cs)
          rw [List.intercalate_cons_of_ne_nil (by simp)]
          simp only [List.cons_append, List.nil_append, readColumns?, hread, hrest]

theorem length_intercalate_cell (h : cs ≠ []) :
    (List.intercalate [' '] (cs.map cell)).length + 1 = 3 * cs.length := by
  induction cs with
  | nil => exact absurd rfl h
  | cons c cs ih =>
      obtain ⟨high, low, hcell, -⟩ := exists_cell_eq c
      rw [List.map_cons, hcell]
      cases cs with
      | nil => simp
      | cons c' cs =>
          have hrest := ih (List.cons_ne_nil c' cs)
          rw [List.intercalate_cons_of_ne_nil (by simp)]
          simp only [List.length_append, List.length_cons, List.length_nil] at hrest ⊢
          omega

theorem mem_cell {c : Option UInt8} {d : Char} (hd : d ∈ cell c) :
    d = ' ' ∨ d ∈ Numeral.lowerDigits := by
  cases c with
  | none => exact .inl (by simpa [cell] using hd)
  | some b => exact .inr (Numeral.mem_lowerDigits_of_mem_hexLower hd)

theorem mem_intercalate_cell {d : Char} (hd : d ∈ List.intercalate [' '] (cs.map cell)) :
    d = ' ' ∨ d ∈ Numeral.lowerDigits := by
  induction cs with
  | nil => exact absurd hd List.not_mem_nil
  | cons c cs ih =>
      rw [List.map_cons] at hd
      cases cs with
      | nil =>
          rw [List.map_nil, List.intercalate_singleton] at hd
          exact mem_cell hd
      | cons c' cs =>
          rw [List.intercalate_cons_of_ne_nil (by simp)] at hd
          rcases List.mem_append.1 hd with hd | hd
          · rcases List.mem_append.1 hd with hd | hd
            · exact mem_cell hd
            · exact .inl (List.mem_singleton.1 hd)
          · exact ih hd

end Columns

theorem columnsAt_eq (h : stop ≤ m.size) (a : Nat) :
    m.columnsAt stop a = (List.range 16).map fun i => (m.between a stop)[i]? := by
  simp only [columnsAt, rowWidth, shown?_eq h]

theorem columnsAt_ne_nil (m : Memory) (stop a : Nat) : m.columnsAt stop a ≠ [] := by
  simp [columnsAt, rowWidth]

/-! ### The characters of a row -/

/-- **The character that stands for a byte**: the one with its code if that is printable, and a
point for every other byte. -/
def IsGlyph (b : UInt8) (c : Char) : Prop :=
  if 0x20 ≤ b.toNat ∧ b.toNat ≤ 0x7e then c.toNat = b.toNat else c = '.'

theorem isGlyph_glyph (b : UInt8) : IsGlyph b (glyph b) := by
  unfold IsGlyph glyph
  split
  · rename_i hprintable
    have hvalid : b.toNat.isValidChar := .inl (by omega)
    rw [Char.ofNat, dif_pos hvalid]
    rfl
  · rfl

theorem glyph_ne_newline (b : UInt8) : glyph b ≠ '\n' := by
  intro hnewline
  have hglyph := isGlyph_glyph b
  rw [hnewline, IsGlyph] at hglyph
  split at hglyph
  · rename_i hprintable
    have hcode : '\n'.toNat = 10 := rfl
    omega
  · exact absurd hglyph (by decide)

/-- The characters of a row are those of the bytes in its columns. -/
theorem glyphsFrom_eq_map (h : stop ≤ m.size) (a : Nat) :
    m.glyphsFrom stop a 0 = ((m.between a stop).take rowWidth).map glyph := by
  rw [glyphsFrom_eq, Nat.add_zero, Nat.sub_zero, slice_eq_take h]

end Memory

/-! ### What a row shows -/

/-- **What a row shows** of the bytes from an address up to another. -/
structure DumpRow.Shows (row : DumpRow) (m : Memory) (stop a : Nat) : Prop where
  /-- The row starts inside the range. -/
  inside : a < stop
  /-- The address is written in lower-case digits. -/
  address : Numeral.lowerValue? row.address = some a
  /-- There are eight of them, unless the address has more than 32 bits. -/
  eight : a < 2 ^ 32 → row.address.length = 8
  /-- There are sixteen columns, each with the byte at its address, and blank from the end on. -/
  columns : readColumns? row.columns = some ((List.range 16).map fun i => (m.between a stop)[i]?)
  /-- The columns take the same width in every row. -/
  width : row.columns.length = 47
  /-- Between the bars stands a character for each byte in the columns. -/
  chars : ∃ bs, row.bytes? = some bs ∧ List.Forall₂ Memory.IsGlyph bs row.chars

namespace Memory

variable {m : Memory} {stop a k : Nat} {row : DumpRow} {rows : List DumpRow}

/-- The row that the loops write at an address. -/
def rowOf (m : Memory) (stop a : Nat) : DumpRow where
  address := Numeral.hexLower 8 a
  columns := m.columnsFrom stop a 0
  chars := m.glyphsFrom stop a 0

theorem rowAt_eq (m : Memory) (stop a : Nat) :
    m.rowAt stop a = (m.rowOf stop a).text ++ ['\n'] := by
  simp [rowAt, DumpRow.text, rowOf]

/-- In the columns there are spaces and digits only. -/
theorem not_mem_columnsFrom {c : Char} (hspace : c ≠ ' ') (hdigit : c ∉ Numeral.lowerDigits) :
    c ∉ m.columnsFrom stop a 0 := by
  rw [columnsFrom_zero]
  intro hc
  rcases mem_intercalate_cell hc with hc | hc
  · exact hspace hc
  · exact hdigit hc

theorem ofText_rowOf (m : Memory) (stop a : Nat) :
    DumpRow.ofText (m.rowOf stop a).text = m.rowOf stop a := by
  refine DumpRow.ofText_text ?_ ?_ ?_
  · exact mt Numeral.mem_lowerDigits_of_mem_hexLower (by decide)
  · exact mt Numeral.mem_lowerDigits_of_mem_hexLower (by decide)
  · exact not_mem_columnsFrom (by decide) (by decide)

theorem newline_not_mem_rowOf (m : Memory) (stop a : Nat) : '\n' ∉ (m.rowOf stop a).text := by
  have haddress : '\n' ∉ Numeral.hexLower 8 a :=
    mt Numeral.mem_lowerDigits_of_mem_hexLower (by decide)
  have hcolumns : '\n' ∉ m.columnsFrom stop a 0 := not_mem_columnsFrom (by decide) (by decide)
  have hchars : '\n' ∉ m.glyphsFrom stop a 0 := fun h => by
    rw [glyphsFrom_eq] at h
    obtain ⟨b, -, hb⟩ := List.mem_map.1 h
    exact glyph_ne_newline b hb
  simp [DumpRow.text, rowOf, haddress, hcolumns, hchars]

theorem readColumns?_rowOf (h : stop ≤ m.size) (a : Nat) :
    readColumns? (m.rowOf stop a).columns =
      some ((List.range 16).map fun i => (m.between a stop)[i]?) := by
  rw [rowOf, columnsFrom_zero, readColumns?_intercalate (columnsAt_ne_nil m stop a),
    columnsAt_eq h]

/-- **One row.** -/
theorem shows_rowOf (h : stop ≤ m.size) (ha : a < stop) : (m.rowOf stop a).Shows m stop a where
  inside := ha
  address := Numeral.lowerValue?_hexLower 8 a
  eight hbits := Numeral.length_hexLower (by decide) hbits
  columns := readColumns?_rowOf h a
  width := by
    have hlength := length_intercalate_cell (columnsAt_ne_nil m stop a)
    rw [← columnsFrom_zero, columnsAt, List.length_map, List.length_range] at hlength
    exact Nat.succ.inj hlength
  chars := by
    refine ⟨_, DumpRow.bytes?_of_columns (readColumns?_rowOf h a), ?_⟩
    rw [rowOf, glyphsFrom_eq_map h]
    exact List.forall₂_map_right_iff.2 (List.forall₂_same.2 fun b _ => isGlyph_glyph b)

/-! ### All rows -/

/-- **Rows that show the bytes of a range**, sixteen to a row, from an address on. -/
inductive Tabulates (m : Memory) (stop : Nat) : Nat → List DumpRow → Prop
  /-- At the end no row is left. -/
  | nil {a : Nat} (h : stop ≤ a) : Tabulates m stop a []
  /-- Before the end there is one more row, and the others start sixteen bytes later. -/
  | cons {a : Nat} {row : DumpRow} {rows : List DumpRow} (hrow : row.Shows m stop a)
      (hrows : Tabulates m stop (a + 16) rows) : Tabulates m stop a (row :: rows)

/-- **The loops write such rows.** -/
theorem exists_tabulates (h : stop ≤ m.size) (a : Nat) : ∃ rows, m.Tabulates stop a rows ∧
    m.rowsFrom stop a = Text.ofLines (rows.map DumpRow.text) ∧
      ∀ row ∈ rows, DumpRow.ofText row.text = row ∧ '\n' ∉ row.text := by
  fun_induction rowsFrom m stop a with
  | case1 a hlt ih =>
      obtain ⟨rows, hrows, htext, hparts⟩ := ih
      refine ⟨m.rowOf stop a :: rows, .cons (shows_rowOf h hlt) hrows, ?_, ?_⟩
      · rw [rowAt_eq, htext, List.map_cons, Text.ofLines_cons, List.append_assoc,
          List.singleton_append]
      · have hrow := And.intro (ofText_rowOf m stop a) (newline_not_mem_rowOf m stop a)
        exact List.forall_mem_cons.2 ⟨hrow, hparts⟩
  | case2 a hge => exact ⟨[], .nil (Nat.not_lt.1 hge), rfl, List.forall_mem_nil _⟩

namespace Tabulates

/-- There is a row for every sixteen bytes, and one for the bytes that are left. -/
theorem length (h : m.Tabulates stop a rows) : rows.length = (stop - a) ⌈/⌉ 16 := by
  rw [Nat.ceilDiv_eq_add_pred_div]
  induction h with
  | nil h =>
      rw [List.length_nil]
      omega
  | cons hrow _ ih =>
      have hinside := hrow.inside
      rw [List.length_cons, ih]
      omega

/-- The rows are sixteen bytes apart. -/
theorem shows (h : m.Tabulates stop a rows) (hk : rows[k]? = some row) :
    row.Shows m stop (a + 16 * k) := by
  induction h generalizing k with
  | nil h => exact nomatch hk
  | @cons a row' rows hrow _ ih =>
      cases k with
      | zero =>
          obtain rfl : row' = row := Option.some.inj hk
          exact hrow
      | succ k =>
          have hnext : a + 16 * (k + 1) = a + 16 + 16 * k := by omega
          rw [hnext]
          exact ih hk

/-- **The bytes of all rows** are those of the range, in their order. -/
theorem bytes (h : m.Tabulates stop a rows) :
    (rows.mapM DumpRow.bytes?).map List.flatten = some (m.between a stop) := by
  induction h with
  | nil h =>
      rw [between_of_le h]
      rfl
  | @cons a row rows hrow _ ih =>
      obtain ⟨bss, hbss, hflatten⟩ := Option.map_eq_some_iff.1 ih
      rw [List.mapM_cons, DumpRow.bytes?_of_columns hrow.columns, hbss]
      show some (_ ++ bss.flatten) = _
      rw [hflatten, ← drop_between, List.take_append_drop]

/-- **The characters of all rows** stand for the same bytes. -/
theorem chars (h : m.Tabulates stop a rows) :
    List.Forall₂ IsGlyph (m.between a stop) (rows.flatMap DumpRow.chars) := by
  induction h with
  | nil h =>
      rw [between_of_le h]
      exact .nil
  | @cons a row rows hrow _ ih =>
      obtain ⟨bs, hbs, hchars⟩ := hrow.chars
      rw [DumpRow.bytes?_of_columns hrow.columns, Option.some.injEq] at hbs
      rw [← List.take_append_drop 16 (m.between a stop), hbs, drop_between, List.flatMap_cons]
      exact List.rel_append hchars ih

end Tabulates

/-! ### The dump -/

/-- The three lines of the heading. -/
def headingLines (start stop : Nat) : List Text :=
  [Text.rule, "Memory ".toList ++ Numeral.word start ++ " - ".toList ++ Numeral.word stop ++ [':'],
    Text.rule]

theorem dumpHeading_eq (start stop : Nat) :
    dumpHeading start stop = Text.ofLines (headingLines start stop) := by
  simp [dumpHeading, headingLines, Text.ofLines]

theorem newline_not_mem_headingLines (start stop : Nat) :
    ∀ line ∈ headingLines start stop, '\n' ∉ line := by
  have hrule : '\n' ∉ Text.rule := fun h => absurd (List.eq_of_mem_replicate h) (by decide)
  have hword : ∀ n, '\n' ∉ Numeral.hex 8 n := fun n =>
    mt Numeral.isDigit_of_mem_hex (by decide)
  simp [headingLines, Numeral.word, Numeral.marked, hrule, hword]

/-- The rows of a dump, which stand below the three lines of its heading. -/
def dumpedRows (t : Text) : List DumpRow :=
  (t.lines.drop 3).map DumpRow.ofText

/-- **What a dump shows** of the bytes from an address up to another. -/
structure Displays (m : Memory) (start stop : Nat) (t : Text) : Prop where
  /-- Every line ends with a newline. -/
  ended : Text.ofLines t.lines = t
  /-- Three lines of heading stand above a row for every sixteen bytes, or what is left of them. -/
  count : t.lines.length = 3 + (stop - start) ⌈/⌉ 16
  /-- A row is its address, its columns, and its characters between bars. -/
  layout : ∀ line ∈ t.lines.drop 3, (DumpRow.ofText line).text = line
  /-- The rows are sixteen bytes apart. -/
  rows : ∀ (k : Nat) (row : DumpRow), (dumpedRows t)[k]? = some row →
    row.Shows m stop (start + 16 * k)
  /-- The bytes in the columns of all rows are those of the range, in their order. -/
  bytes : ((dumpedRows t).mapM DumpRow.bytes?).map List.flatten = some (m.between start stop)
  /-- The characters between the bars stand for the same bytes. -/
  chars : List.Forall₂ IsGlyph (m.between start stop) ((dumpedRows t).flatMap DumpRow.chars)

/-- Such rows below three lines of heading. -/
theorem Tabulates.displays (h : m.Tabulates stop a rows) {heading : List Text}
    (hheading : heading.length = 3) (hnewline : ∀ line ∈ heading, '\n' ∉ line)
    (hparts : ∀ row ∈ rows, DumpRow.ofText row.text = row ∧ '\n' ∉ row.text) :
    m.Displays a stop (Text.ofLines (heading ++ rows.map DumpRow.text)) := by
  have hlines : (Text.ofLines (heading ++ rows.map DumpRow.text)).lines =
      heading ++ rows.map DumpRow.text := by
    refine Text.lines_ofLines fun line hline => ?_
    rcases List.mem_append.1 hline with hline | hline
    · exact hnewline line hline
    · obtain ⟨row, hrow, rfl⟩ := List.mem_map.1 hline
      exact (hparts row hrow).2
  have hbelow : (Text.ofLines (heading ++ rows.map DumpRow.text)).lines.drop 3 =
      rows.map DumpRow.text := by
    rw [hlines, List.drop_left' hheading]
  have hrows : dumpedRows (Text.ofLines (heading ++ rows.map DumpRow.text)) = rows := by
    rw [dumpedRows, hbelow, List.map_map]
    exact (List.map_congr_left fun row hrow => (hparts row hrow).1).trans (List.map_id rows)
  exact
    { ended := by rw [hlines]
      count := by rw [hlines, List.length_append, List.length_map, hheading, h.length]
      layout := by
        intro line hline
        rw [hbelow] at hline
        obtain ⟨row, hrow, rfl⟩ := List.mem_map.1 hline
        rw [(hparts row hrow).1]
      rows := by
        intro k row hrow
        rw [hrows] at hrow
        exact h.shows hrow
      bytes := by
        rw [hrows]
        exact h.bytes
      chars := by
        rw [hrows]
        exact h.chars }

section Range

variable {start : UInt32} {length : UInt64}

theorem rangeEnd_of_lt (h : start.toNat + length.toNat < 2 ^ 64) :
    rangeEnd start length = start.toNat + length.toNat := by
  rw [rangeEnd, UInt64.toNat_add, UInt32.toNat_toUInt64]
  exact Nat.mod_eq_of_lt h

/-- A range that wraps around ends before it starts. -/
theorem rangeEnd_of_le (h : 2 ^ 64 ≤ start.toNat + length.toNat) :
    rangeEnd start length = start.toNat + length.toNat - 2 ^ 64 ∧
      rangeEnd start length < start.toNat := by
  have hlength : length.toNat < 2 ^ 64 := length.toNat_lt
  have hstart : start.toNat < 2 ^ 32 := start.toNat_lt
  rw [rangeEnd, UInt64.toNat_add, UInt32.toNat_toUInt64]
  omega

/-- What a dump shows, the end of the range being what it is. -/
theorem displays_rangeEnd (m : Memory) (start : UInt32) (length : UInt64) :
    m.Displays start.toNat (min m.size (rangeEnd start length)) (m.dump start length) := by
  obtain ⟨rows, htabulates, hrows, hparts⟩ :=
    exists_tabulates (Nat.min_le_left m.size (rangeEnd start length)) start.toNat
  rw [dump, dumpHeading_eq, dumpRows_eq_rowsFrom, hrows, ← Text.ofLines_append]
  exact htabulates.displays rfl (newline_not_mem_headingLines _ _) hparts

/-- **A dump shows the bytes that were asked for**, as far as memory goes, if the end of the range
can be counted in 64 bits.  Otherwise it is a heading without rows. -/
theorem dump_displays (m : Memory) (start : UInt32) (length : UInt64) :
    (start.toNat + length.toNat < 2 ^ 64 →
      m.Displays start.toNat (min m.size (start.toNat + length.toNat)) (m.dump start length)) ∧
      (2 ^ 64 ≤ start.toNat + length.toNat →
        m.dump start length =
          dumpHeading start.toNat (start.toNat + length.toNat - 2 ^ 64)) := by
  constructor
  · intro h
    rw [← rangeEnd_of_lt h]
    exact displays_rangeEnd m start length
  · intro h
    obtain ⟨hend, hlt⟩ := rangeEnd_of_le h
    have hstop : min m.size (rangeEnd start length) ≤ start.toNat :=
      (Nat.min_le_right _ _).trans hlt.le
    rw [dump, dumpRows_of_le hstop, List.append_nil, hend]

/-- A range that starts unaligned and goes beyond memory of three bytes, and one that goes on until
it wraps around. -/
theorem dump_displays_threeBytes :
    let m : Memory := ⟨#[0x48, 0x69, 0x0a]⟩
    let all : UInt64 := 0xFFFFFFFFFFFFFFFF
    (1 + 100 < 2 ^ 64 ∧ m.Displays 1 3 (m.dump 1 100)) ∧
      2 ^ 64 ≤ 1 + all.toNat ∧ m.dump 1 all = dumpHeading 1 0 := by
  intro m all
  have hall : 2 ^ 64 ≤ UInt32.toNat 1 + all.toNat := by decide
  have hend : UInt32.toNat 1 + all.toNat - 2 ^ 64 = 0 := by decide
  obtain ⟨hdisplays, -⟩ := dump_displays m 1 100
  obtain ⟨-, hwraps⟩ := dump_displays m 1 all
  rw [hend] at hwraps
  exact ⟨⟨by decide, hdisplays (by decide)⟩, hall, hwraps hall⟩

/-- The only row of the first of these ranges. -/
example : (dump ⟨#[0x48, 0x69, 0x0a]⟩ 1 100).lines.drop 3 =
    ["00000001 69 0a                                           |i.|".toList] := by
  decide +kernel

/-- **A range that wraps around is not shown**, though it starts inside memory. -/
theorem not_displays_of_wraps (h : 2 ^ 64 ≤ start.toNat + length.toNat)
    (hstart : start.toNat < m.size) :
    ¬ m.Displays start.toNat (min m.size (start.toNat + length.toNat)) (m.dump start length) := by
  intro hdisplays
  -- One text has one number of lines, and the two ends ask for different ones.
  have hlines := hdisplays.count.symm.trans (displays_rangeEnd m start length).count
  have hstart32 : start.toNat < 2 ^ 32 := start.toNat_lt
  have hlt := (rangeEnd_of_le h).2
  simp only [Nat.ceilDiv_eq_add_pred_div] at hlines
  omega

/-- Sixteen bytes at the end of memory, and a range that goes on from the first of them until it
wraps around: none of them is shown. -/
theorem not_displays_wrappedRange :
    let m := zeros 4112
    let length : UInt64 := 18446744073709549568
    ¬ m.Displays 4096 (min m.size (4096 + length.toNat)) (m.dump 4096 length) := by
  intro m length
  have hstart : UInt32.toNat 4096 < m.size := by
    rw [size_zeros]
    decide
  exact not_displays_of_wraps (by decide) hstart

end Range

end Memory

end WordMachine
