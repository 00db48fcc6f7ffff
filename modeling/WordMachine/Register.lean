/-
**Registers.**

The machine has fourteen registers of 32 bits: eight for general use, four pointers, the program
counter and the flags word.  An instruction names a register by its code, assembly text by its name
in either letter case.

Main definitions:

* `Register`, `Register.all` — the registers, in the order of their codes;
* `Register.code`, `Register.ofCode?` — codes;
* `Register.name`, `Register.ofName?` — names.
-/

import WordMachine.Text.Basic

set_option relaxedAutoImplicit false
set_option autoImplicit false

namespace WordMachine

/-- A register. -/
inductive Register
  | ax | bx | cx | dx | ex | fx | gx | hx
  /-- The stack pointer. -/
  | sp
  /-- The base pointer. -/
  | bp
  /-- The source index. -/
  | si
  /-- The destination index. -/
  | di
  /-- The program counter. -/
  | pc
  /-- The flags word. -/
  | flags
  deriving DecidableEq, Repr, Inhabited

namespace Register

/-- All registers, in the order of their codes. -/
def all : List Register :=
  [ax, bx, cx, dx, ex, fx, gx, hx, sp, bp, si, di, pc, flags]

/-- The number that stands for a register in an instruction. -/
def code : Register → Fin 14
  | ax => 0 | bx => 1 | cx => 2 | dx => 3 | ex => 4 | fx => 5 | gx => 6 | hx => 7
  | sp => 8 | bp => 9 | si => 10 | di => 11 | pc => 12 | flags => 13

/-- The register with the given code. -/
def ofCode? (n : Nat) : Option Register :=
  all[n]?

/-- The name of a register. -/
def name : Register → Text
  | ax => "AX".toList | bx => "BX".toList | cx => "CX".toList | dx => "DX".toList
  | ex => "EX".toList | fx => "FX".toList | gx => "GX".toList | hx => "HX".toList
  | sp => "SP".toList | bp => "BP".toList | si => "SI".toList | di => "DI".toList
  | pc => "PC".toList | flags => "FLAGS".toList

/-- The register with the given name, in any letter case. -/
def ofName? (s : Text) : Option Register :=
  all.find? (·.name == s.upper)

/-- The code of a register leads back to it. -/
@[simp] theorem ofCode?_code (r : Register) : ofCode? r.code = some r := by
  cases r <;> rfl

/-- Only the codes from zero to thirteen name a register. -/
theorem ofCode?_eq_some_iff {n : Nat} {r : Register} : ofCode? n = some r ↔ n = r.code := by
  constructor
  · intro h
    have hn : n < 14 := (List.getElem?_eq_some_iff.1 h).1
    have : ∀ m < 14, ∀ r, ofCode? m = some r → m = r.code := by decide
    exact this n hn r h
  · rintro rfl
    exact ofCode?_code r

/-- The name of a register leads back to it. -/
@[simp] theorem ofName?_name (r : Register) : ofName? r.name = some r := by
  cases r <;> decide

end Register

end WordMachine
