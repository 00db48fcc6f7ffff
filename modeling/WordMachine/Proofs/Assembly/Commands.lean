/-
**What commands say to the two walks.**

Both walks over the commands of a program keep their own section and their own count of bytes.  The
notions of this module belong to neither of them: they say, of a list of commands alone, which
section is in force, which names are defined, which commands are instructions, and how many bytes of
data a command stands for.  The two walks are compared with them, and thereby with each other.

Main definitions:

* `Section.inForce` — the section in force after some commands;
* `Command.names` — the names that a command defines;
* `Command.isInstruction`, `Command.word?` — the instructions, and their words;
* `Command.dataBytes` — how many bytes of data a command stands for.
-/

import WordMachine.Assembly.Data

set_option relaxedAutoImplicit false
set_option autoImplicit false

namespace WordMachine

/-! ### Sections -/

theorem Section.eq_text_or_eq_data (s : Section) : s = .text ∨ s = .data := by
  cases s with
  | text => exact Or.inl rfl
  | data => exact Or.inr rfl

/-- The section that is in force after a command. -/
def Section.after (current : Section) (c : Command) : Section :=
  match c.operation with
  | .enter target => target
  | _ => current

theorem Section.after_of_ne {current : Section} {c : Command}
    (h : ∀ target, c.operation ≠ .enter target) : current.after c = current := by
  unfold after
  split
  · exact absurd ‹_› (h _)
  · rfl

/-- The section that is in force after some commands.  A program starts in its text. -/
def Section.inForce (cs : List Command) : Section :=
  cs.foldl Section.after .text

theorem Section.inForce_concat (cs : List Command) (c : Command) :
    Section.inForce (cs ++ [c]) = (Section.inForce cs).after c := by
  simp [Section.inForce]

namespace Command

/-! ### Names -/

/-- The name that a command gives to a number. -/
def equated? (c : Command) : Option Text :=
  match c.operation, c.a with
  | .equate, some (.label name) => some name
  | _, _ => none

/-- The names that a command defines: its label, and after it the name of a number. -/
def names (c : Command) : List Text :=
  c.label.toList ++ c.equated?.toList

/-! ### Instructions -/

/-- The command is an instruction. -/
def isInstruction (c : Command) : Bool :=
  match c.operation with
  | .instruction _ => true
  | _ => false

/-- The word of a command that is an instruction, when the names have the given values. -/
def word? (symbols : SymbolTable) (c : Command) : Option (Except EncodingError UInt32) :=
  match c.operation with
  | .instruction mnemonic => some (Instruction.encodeNamed symbols mnemonic c.a c.b)
  | _ => none

/-- The instructions are the commands with a word. -/
theorem isSome_word? (symbols : SymbolTable) (c : Command) :
    (c.word? symbols).isSome = c.isInstruction := by
  unfold word? isInstruction
  split <;> rfl

theorem isInstruction_of_ne {c : Command} (h : ∀ mnemonic, c.operation ≠ .instruction mnemonic) :
    c.isInstruction = false := by
  unfold isInstruction
  split
  · exact absurd ‹_› (h _)
  · rfl

theorem word?_of_ne {symbols : SymbolTable} {c : Command}
    (h : ∀ mnemonic, c.operation ≠ .instruction mnemonic) : c.word? symbols = none := by
  unfold word?
  split
  · exact absurd ‹_› (h _)
  · rfl

/-! ### Data -/

/-- How many bytes of data a command stands for in the given section, when `offset` bytes of data
come before it. -/
def dataBytes (current : Section) (offset : Nat) (c : Command) : Nat :=
  match current, c.operation with
  | .data, .data k =>
    match Datum.ofOperands k c.a c.b with
    | .ok d => d.size offset
    | .error _ => 0
  | _, _ => 0

theorem dataBytes_of_ne {current : Section} {offset : Nat} {c : Command}
    (h : ∀ k, c.operation ≠ .data k) : c.dataBytes current offset = 0 := by
  unfold dataBytes
  split
  · exact absurd ‹_› (h _)
  · rfl

end Command

end WordMachine
