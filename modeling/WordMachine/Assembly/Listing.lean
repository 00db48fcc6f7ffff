/-
**Listings.**

A listing shows an assembled program: each word of the text with its address, its disassembly and
its source line, then the segments, then the names in alphabetical order with their values.

Main definitions:

* `Program.printText`, `Program.printSegments`, `Program.printSymbols` — the three parts;
* `Program.print` — the listing.
-/

import WordMachine.Assembly.Program
import WordMachine.Instruction.Decode

set_option relaxedAutoImplicit false
set_option autoImplicit false

namespace WordMachine.Program

/-- A heading between two ruled lines. -/
def heading (title : String) : Text :=
  Text.rule ++ '\n' :: title.toList ++ '\n' :: Text.rule ++ ['\n']

/-- The note on the source line of a word, if it is known. -/
def printLine : Option Nat → Text
  | some n => "; line ".toList ++ Numeral.decimal n
  | none => []

/-- One word of the text: its address, the word, its disassembly and its source line. -/
def printWord (a : UInt32) (w : UInt32) (line : Option Nat) : Text :=
  Numeral.word a.toNat ++ [' ', ' '] ++ Numeral.word w.toNat ++ [' ', ' '] ++
    Text.padRight 28 (disassemble w) ++ printLine line ++ ['\n']

/-- The words from address `a` on. -/
def printWords : UInt32 → List UInt32 → List Nat → List Text
  | _, [], _ => []
  | a, w :: ws, lines => printWord a w lines.head? :: printWords (a + 4) ws lines.tail

/-- The text of the program. -/
def printText (p : Program) : Text :=
  heading "Text:" ++ (printWords p.textStart p.text p.lines).flatten

/-- A segment: its name on seven places, its start and its size. -/
def printSegment (name : String) (start : UInt32) (bytes : Nat) : Text :=
  Text.padRight 7 name.toList ++ Numeral.word start.toNat ++ [' ', ' '] ++
    Numeral.decimal bytes ++ " bytes\n".toList

/-- The segments of the program. -/
def printSegments (p : Program) : Text :=
  heading "Segments:" ++
    printSegment "text" p.textStart (4 * p.text.length) ++
    printSegment "data" p.dataStart p.data.length ++
    printSegment "stack" p.stackStart p.stackSize.toNat

/-- A name on twenty-four places, and its value. -/
def printSymbol (symbol : Text × UInt32) : Text :=
  Text.padRight 24 symbol.1 ++ Numeral.word symbol.2.toNat ++ ['\n']

/-- The names of the program in alphabetical order. -/
def sortedSymbols (p : Program) : List (Text × UInt32) :=
  p.symbols.mergeSort fun x y => !y.1.lex x.1 fun c d => c.toNat < d.toNat

/-- The names of the program and their values. -/
def printSymbols (p : Program) : Text :=
  heading "Symbols:" ++ p.sortedSymbols.flatMap printSymbol

/-- The listing of a program. -/
def print (p : Program) : Text :=
  p.printText ++ '\n' :: p.printSegments ++ '\n' :: p.printSymbols

end WordMachine.Program
