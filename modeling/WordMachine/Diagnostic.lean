/-
**Diagnostics.**

A stage of the assembler goes on after a mistake and collects what it finds.  Each finding has the
number of the source line that it belongs to, or zero if it belongs to none.

Main definitions:

* `Diagnostic` — a finding and its line;
* `Diagnostic.report` — the text of all findings together.
-/

import WordMachine.Text.Numeral

set_option relaxedAutoImplicit false
set_option autoImplicit false

namespace WordMachine

/-- A finding, and the number of the source line that it belongs to. -/
structure Diagnostic (ε : Type) where
  /-- The line, counted from one; zero if the finding belongs to none. -/
  line : Nat
  /-- What was found. -/
  cause : ε
  deriving DecidableEq, Repr

namespace Diagnostic

/-- The same finding in other terms. -/
def map {ε δ : Type} (f : ε → δ) (d : Diagnostic ε) : Diagnostic δ :=
  ⟨d.line, f d.cause⟩

/-- One finding on its line, indented. -/
def entry (d : Diagnostic String) : String :=
  if d.line = 0 then s!"\n  {d.cause}"
  else s!"\n  line {(Numeral.decimal d.line).str}: {d.cause}"

/-- The number of findings, and all of them. -/
def report (ds : List (Diagnostic String)) : String :=
  s!"{(Numeral.decimal ds.length).str} assembly error(s)" ++ String.join (ds.map entry)

end Diagnostic

end WordMachine
