/-
**The names in a line.**

A line introduces a name as a label, as a name for a number, or as the parameter of a macro.  It is
read only if each of these names reads as a label and holds no colon.  As an operand, such a name
refers to its core, which is the name itself unless there are white space or square brackets around
it: the line stores the name as it was written, and an operand is stored without what is around it.

A line is read from the left, and so it is taken apart here: the label, the word of the operation
and what follows that word.

Main definitions:

* `Command.IsName` — a text that a line can introduce;
* `Command.firstWord`, `Command.afterWord` — the word of the operation, and the rest of the line;
* `Operation.directive?`, `Command.Directs` — the directive that an operation comes from, and what
  it makes of a command;
* `Command.Introduces` — a line introduces a name.

Main results:

* `Command.parse_cases`, `Command.parseOperation_cases` — the parts of a line;
* `Command.directs_of_parseDirective` — what comes out of a directive;
* `Command.line_of_parse` — a command has the number of its line;
* `Command.isName_of_introduces` — every name that a line introduces has been checked;
* `Command.reading_of_introduces` — **what such a name refers to as an operand**;
* `Command.not_reading_bracketed` — a label in brackets, which refers to another name.
-/

import WordMachine.Proofs.Except
import WordMachine.Proofs.Operand.Names
import WordMachine.Proofs.Source.Remarks
import WordMachine.Proofs.Source.Substitution
import Mathlib.Tactic.SplitIfs

set_option relaxedAutoImplicit false
set_option autoImplicit false

namespace WordMachine

/-- A directive found by its name has that name. -/
theorem Directive.name_of_ofName? {s : Text} {d : Directive} (h : ofName? s = some d) :
    d.name = s := by
  simpa using List.find?_some h

/-- The directive that an operation comes from, if it is not that of an instruction or a call. -/
def Operation.directive? : Operation → Option Directive
  | blank | instruction _ => none
  | enter s => some (.enter s)
  | data k => some (.data k)
  | equate => some .equate
  | setting s _ => some (.setting s)
  | macroStart _ _ => some .macroStart
  | macroEnd => some .macroEnd

namespace Command

variable {n : Nat} {s rest name : Text} {c d : Command} {k : Directive} {role : NameRole}
  {parameters : List Text}

/-! ### Names -/

/-- A text that a line can introduce **as a name**. -/
structure IsName (name : Text) : Prop where
  reading : Operand.parse name = .ok (.label (Operand.core name))
  colon : ':' ∉ name

/-- **What is checked of a name.** -/
theorem checkName_eq_ok_iff : checkName role name = .ok () ↔ IsName name := by
  unfold checkName
  split
  · rename_i h
    refine iff_of_false nofun ?_
    rintro ⟨hreading, -⟩
    cases h.symm.trans hreading
  · rename_i text h
    have hreading := Operand.core_of_parse h ▸ h
    split_ifs with hcolon
    · refine iff_of_false nofun ?_
      rintro ⟨-, hnone⟩
      exact hnone (List.contains_iff_mem.1 hcolon)
    · exact iff_of_true rfl ⟨hreading, fun hmem => hcolon (List.contains_iff_mem.2 hmem)⟩
  · rename_i reading hother h
    refine iff_of_false nofun ?_
    rintro ⟨hreading, -⟩
    exact hother _ (Except.ok.inj (h.symm.trans hreading))

theorem isName_of_forM {names : List Text} (h : names.forM (checkName role) = .ok ()) :
    ∀ x ∈ names, IsName x := by
  induction names with
  | nil => exact List.forall_mem_nil _
  | cons x names ih =>
      obtain ⟨_, hx, hnames⟩ := Except.bind_eq_ok.1 h
      exact List.forall_mem_cons.2 ⟨checkName_eq_ok_iff.1 hx, ih hnames⟩

/-! ### The parts of a line -/

/-- The name in front of a line has been checked. -/
theorem isName_of_takeLabel (h : takeLabel s = .ok (some name, rest)) : IsName name := by
  unfold takeLabel at h
  dsimp only at h
  split_ifs at h
  · cases h
  · obtain ⟨_, hcheck, h⟩ := Except.bind_eq_ok.1 h
    cases h
    exact checkName_eq_ok_iff.1 hcheck
  · cases h

/-- Without a label, the whole line is left. -/
theorem eq_of_takeLabel (h : takeLabel s = .ok (none, rest)) : rest = s := by
  unfold takeLabel at h
  dsimp only at h
  split_ifs at h
  · cases h
  · obtain ⟨_, -, h⟩ := Except.bind_eq_ok.1 h
    cases h
  · cases h
    rfl

/-- **A line is a label and an operation**, or says nothing. -/
theorem parse_cases (h : parse n s = .ok c) :
    c = { line := n } ∨ ∃ label rest, takeLabel s.gist = .ok (label, rest) ∧
      (rest = [] ∧ c = { line := n, label } ∨
        rest ≠ [] ∧ parseOperation { line := n, label } rest = .ok c) := by
  unfold parse at h
  dsimp only at h
  split_ifs at h
  · exact .inl (Except.ok.inj h).symm
  · obtain ⟨⟨label, rest⟩, htake, h⟩ := Except.bind_eq_ok.1 h
    refine .inr ⟨label, rest, htake, ?_⟩
    dsimp only at h
    split_ifs at h with hrest
    · exact .inl ⟨List.isEmpty_iff.1 hrest, (Except.ok.inj h).symm⟩
    · exact .inr ⟨fun hnil => hrest (List.isEmpty_iff.2 hnil), h⟩

/-- The word of the operation. -/
def firstWord (s : Text) : Text := s.takeWhile (!Text.isBlank ·)

/-- What follows the word of the operation. -/
def afterWord (s : Text) : Text :=
  Text.trim ((s.drop (firstWord s).length).takeWhile (· != '\n'))

/-- **An operation is a directive or an instruction**, as its first character tells. -/
theorem parseOperation_cases (h : c.parseOperation s = .ok d) :
    ((firstWord s).head? = some '.' ∧ ∃ k, Directive.ofName? (firstWord s).lower = some k ∧
      c.parseDirective k (afterWord s) = .ok d) ∨
    ((firstWord s).head? ≠ some '.' ∧ ∃ a b,
      operands (firstWord s).upper (instructionFields (afterWord s)) = .ok (a, b) ∧
      d = { c with operation := .instruction (firstWord s).upper, a, b }) := by
  unfold parseOperation at h
  dsimp only at h
  split_ifs at h with hpoint
  · refine .inl ⟨beq_iff_eq.1 hpoint, ?_⟩
    split at h
    · rename_i k hk
      exact ⟨k, hk, h⟩
    · cases h
  · obtain ⟨⟨a, b⟩, hoperands, h⟩ := Except.bind_eq_ok.1 h
    cases h
    exact .inr ⟨fun hhead => hpoint (beq_iff_eq.2 hhead), a, b, hoperands, rfl⟩

/-! ### Directives -/

/-- The place of a segment is a single field that reads as a number. -/
theorem parseSetting_eq_ok {p : Setting} (h : c.parseSetting p rest = .ok d) :
    ∃ field v, Text.splitFields ',' rest = [field] ∧ Operand.parse field = .ok (.immediate v) ∧
      d = { c with operation := .setting p v, a := some (.immediate v) } := by
  unfold parseSetting at h
  split_ifs at h
  split at h
  · rename_i field hfield
    obtain ⟨x, hx, h⟩ := Except.bind_eq_ok.1 h
    cases x with
    | immediate v =>
        cases h
        exact ⟨field, v, hfield, Except.mapError_eq_ok.1 hx, rfl⟩
    | _ => cases h
  · cases h

/-- The start of a macro is its name and its parameters, which have all been checked. -/
theorem parseMacroStart_eq_ok (h : c.parseMacroStart rest = .ok d) :
    ∃ name parameters, (Text.splitFields ',' rest).flatMap Text.splitWords = name :: parameters ∧
      (∀ x ∈ name :: parameters, IsName x) ∧
      d = { c with operation := .macroStart name parameters } := by
  unfold parseMacroStart at h
  split at h
  · cases h
  · rename_i name parameters hwords
    obtain ⟨_, hname, h⟩ := Except.bind_eq_ok.1 h
    obtain ⟨_, hparameters, h⟩ := Except.bind_eq_ok.1 h
    cases h
    refine ⟨name, parameters, hwords, ?_, rfl⟩
    exact List.forall_mem_cons.2 ⟨checkName_eq_ok_iff.1 hname, isName_of_forM hparameters⟩

/-- **What a directive makes of a command**: an operation that comes from this directive.  The label
stays, or becomes the name of a number. -/
structure Directs (k : Directive) (c d : Command) : Prop where
  line : d.line = c.line
  label : d.label = c.label ∨ d.label = none
  directive : d.operation.directive? = some k

theorem directs_of_parseDirective (h : c.parseDirective k rest = .ok d) : Directs k c d := by
  cases k with
  | enter _ =>
      obtain ⟨_, -, h⟩ := Except.bind_eq_ok.1 h
      cases h
      exact ⟨rfl, .inl rfl, rfl⟩
  | data _ =>
      obtain ⟨_, -, h⟩ := Except.bind_eq_ok.1 h
      cases h
      exact ⟨rfl, .inl rfl, rfl⟩
  | equate =>
      obtain ⟨⟨a, b⟩, -, h⟩ := Except.bind_eq_ok.1 h
      dsimp only at h
      split at h
      · cases h
        exact ⟨rfl, .inr rfl, rfl⟩
      · cases h
        exact ⟨rfl, .inl rfl, rfl⟩
  | setting _ =>
      obtain ⟨_, _, -, -, rfl⟩ := parseSetting_eq_ok h
      exact ⟨rfl, .inl rfl, rfl⟩
  | macroStart =>
      obtain ⟨_, _, -, -, rfl⟩ := parseMacroStart_eq_ok h
      exact ⟨rfl, .inl rfl, rfl⟩
  | macroEnd =>
      dsimp only [parseDirective] at h
      split_ifs at h
      cases h
      exact ⟨rfl, .inl rfl, rfl⟩

/-- The line of a command, and its label unless that becomes the name of a number, are set before
its operation is read. -/
theorem line_label_of_parseOperation (h : c.parseOperation s = .ok d) :
    d.line = c.line ∧ (d.label = c.label ∨ d.label = none) := by
  rcases parseOperation_cases h with ⟨-, k, -, h⟩ | ⟨-, a, b, -, rfl⟩
  · have hdirects := directs_of_parseDirective h
    exact ⟨hdirects.line, hdirects.label⟩
  · exact ⟨rfl, .inl rfl⟩

/-- **A command has the number of its line.** -/
theorem line_of_parse (h : parse n s = .ok c) : c.line = n := by
  rcases parse_cases h with rfl | ⟨label, rest, -, ⟨-, rfl⟩ | ⟨-, hrest⟩⟩
  · rfl
  · rfl
  · exact (line_label_of_parseOperation hrest).1

/-- The start of a macro comes from the directive for it. -/
theorem parseOperation_macroStart (h : c.parseOperation s = .ok d)
    (hstart : d.operation = .macroStart name parameters) :
    (firstWord s).lower = Directive.macroStart.name ∧
      c.parseMacroStart (afterWord s) = .ok d := by
  rcases parseOperation_cases h with ⟨-, k, hk, h⟩ | ⟨-, a, b, -, rfl⟩
  · have hdirective := (directs_of_parseDirective h).directive
    rw [hstart] at hdirective
    obtain rfl := Option.some.inj hdirective
    exact ⟨(Directive.name_of_ofName? hk).symm, h⟩
  · cases hstart

/-! ### What a line introduces -/

/-- **A line introduces a name**: as its label, in front of a number for which it will stand, or as
the parameter of a macro. -/
inductive Introduces (s : Text) (c : Command) (name : Text) : Prop
  | label (h : c.label = some name)
  | number {rest : Text} (h : takeLabel s.gist = .ok (some name, rest))
      (hequate : c.operation = .equate) (ha : c.a = some (.label name))
  | parameter {outer : Text} {parameters : List Text}
      (h : c.operation = .macroStart outer parameters) (hname : name ∈ parameters)

/-- **Every name that a line introduces has been checked.** -/
theorem isName_of_introduces (h : parse n s = .ok c) (hname : c.Introduces s name) :
    IsName name := by
  cases hname with
  | label hlabel =>
      rcases parse_cases h with rfl | ⟨label, rest, htake, hrest⟩
      · cases hlabel
      · have hsame : label = some name := by
          rcases hrest with ⟨-, rfl⟩ | ⟨-, hrest⟩
          · exact hlabel
          · rcases (line_label_of_parseOperation hrest).2 with hsame | hnone
            · exact hsame.symm.trans hlabel
            · cases hnone.symm.trans hlabel
        rw [hsame] at htake
        exact isName_of_takeLabel htake
  | number htake => exact isName_of_takeLabel htake
  | parameter hstart hmem =>
      rcases parse_cases h with rfl | ⟨label, rest, -, ⟨-, rfl⟩ | ⟨-, hrest⟩⟩
      · cases hstart
      · cases hstart
      · obtain ⟨-, hmacro⟩ := parseOperation_macroStart hrest hstart
        obtain ⟨_, _, -, hnames, rfl⟩ := parseMacroStart_eq_ok hmacro
        cases hstart
        exact hnames name (List.mem_cons_of_mem _ hmem)

/-! ### What names refer to -/

/-- An operand of a body is recognised as a parameter exactly when it is the label of its name. -/
theorem exists_place_iff {m : Macro} {t : Text} (h : name ∈ m.parameters) :
    (∃ i, m.IsPlace name i ∧ m.place? (some (.label t)) = some i) ↔ t = name := by
  constructor
  · rintro ⟨i, hname, hplace⟩
    obtain ⟨_, heq, ht⟩ := Macro.place?_eq_some_iff.1 hplace
    cases heq
    exact Option.some.inj (ht.1.symm.trans hname.1)
  · rintro rfl
    cases hplace : m.place? (some (.label t)) with
    | none => exact absurd rfl (Macro.place?_eq_none_iff.1 hplace t h)
    | some i =>
        obtain ⟨_, heq, ht⟩ := Macro.place?_eq_some_iff.1 hplace
        cases heq
        exact ⟨i, ht, rfl⟩

/-- **What a name refers to.**  As an operand, every name that a line introduces is a label.  It is
the label of this name exactly when there are neither white space nor brackets around the name; and
exactly then an operand in the body of a macro is recognised as the parameter of this name. -/
theorem reading_of_introduces (h : parse n s = .ok c) (hname : c.Introduces s name) :
    Operand.parse name = .ok (.label (Operand.core name)) ∧
      (Operand.core name = name ↔ Operand.Unwrapped name) ∧
      ∀ m : Macro, name ∈ m.parameters →
        ((∃ i, m.IsPlace name i ∧ m.place? (some (.label (Operand.core name))) = some i) ↔
          Operand.Unwrapped name) := by
  refine ⟨(isName_of_introduces h hname).reading, Operand.core_eq_self_iff, ?_⟩
  intro m hm
  rw [exists_place_iff hm, Operand.core_eq_self_iff]

/-- What starts like a number can be a name. -/
theorem reading_ordinal :
    ∃ c, parse 1 "1st: .equ 7".toList = .ok c ∧ c.Introduces "1st: .equ 7".toList "1st".toList ∧
      Operand.parse "1st".toList = .ok (.label "1st".toList) := by
  have hparse : parse 1 "1st: .equ 7".toList =
      .ok ⟨1, none, .equate, some (.label "1st".toList), some (.immediate 7)⟩ := by
    decide +kernel
  have htake : takeLabel (Text.gist "1st: .equ 7".toList) =
      .ok (some "1st".toList, ".equ 7".toList) := by
    decide +kernel
  have hreading := (reading_of_introduces hparse (.number htake rfl rfl)).1
  have hcore : Operand.core "1st".toList = "1st".toList := by decide +kernel
  rw [hcore] at hreading
  exact ⟨_, hparse, .number htake rfl rfl, hreading⟩

/-- **A label in brackets**: as an operand, it refers to another one. -/
theorem not_reading_bracketed :
    ∃ c, parse 1 "[foo]: HALT".toList = .ok c ∧ c.Introduces "[foo]: HALT".toList "[foo]".toList ∧
      Operand.parse "[foo]".toList = .ok (.label "foo".toList) ∧
      Operand.parse "[foo]".toList ≠ .ok (.label "[foo]".toList) := by
  have hparse : parse 1 "[foo]: HALT".toList =
      .ok ⟨1, some "[foo]".toList, .instruction "HALT".toList, none, none⟩ := by
    decide +kernel
  exact ⟨_, hparse, .label rfl, by decide +kernel, by decide +kernel⟩

end Command

end WordMachine
