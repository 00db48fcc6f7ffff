/-
**A command is printed and read again.**

A line of a listing is the label of a command, the word of its operation and what follows that word.
The reader takes it apart in the same places: no comment starts in it, no other label is split from
its front, and its first word is that of the operation.  For an instruction, that is the word of the
original line in upper case, and for a directive its name; what follows is the printed operands, or
the names of a macro with spaces between them.

Main definitions:

* `Command.IsSource` — what a line says, without white space that is neither a space nor a tab;
* `Command.IsOperation` — the word of an operation, and what can follow it;
* `Command.Rereads` — the operation of a command is printed, and read again;
* `Command.IsLabel` — a label that is read again.

Main results:

* `Command.rereads_instruction`, `Command.exists_rereadsDirective`, `Command.exists_rereads` —
  operations are read again;
* `Command.parse_labelled`, `Command.parse_unlabelled` — a line with a label, and one without;
* `Command.parse_body_of_print` — **a printed command is read as the same command**.
-/

import WordMachine.Proofs.Source.Operands
import WordMachine.Proofs.Text.LetterCase

set_option relaxedAutoImplicit false
set_option autoImplicit false

namespace WordMachine

open Text

namespace Command

variable {n : Nat} {s t w r rest label : Text} {label' : Option Text} {c d : Command}
  {k : Directive} {a b : Option Operand} {names : List Text} {q : Bool}

/-! ### The word of an operation -/

/-- **The word of an operation**, and what can follow it in a line. -/
structure IsOperation (w r : Text) : Prop where
  ne_nil : w ≠ []
  notBlank : ∀ c ∈ w, isBlank c = false
  uncommented : Uncommented false w
  trimmed : r.IsTrimmed
  newline : '\n' ∉ r
  uncommented_rest : Uncommented (quotedAfter false w) r

theorem spaced_cases (r : Text) : r = [] ∧ spaced r = [] ∨ r ≠ [] ∧ spaced r = ' ' :: r := by
  cases r with
  | nil => exact .inl ⟨rfl, rfl⟩
  | cons c r => exact .inr ⟨nofun, rfl⟩

theorem trim_spaced (h : r.IsTrimmed) : (spaced r).trim = r := by
  rcases spaced_cases r with ⟨hr, hs⟩ | ⟨-, hs⟩
  · rw [hs, hr]
    rfl
  · rw [hs]
    exact h.trim_eq

theorem head_spaced (r : Text) : ∀ c ∈ (spaced r).head?, c = ' ' := by
  intro c hc
  rcases spaced_cases r with ⟨-, hs⟩ | ⟨-, hs⟩
  · rw [hs] at hc
    cases hc
  · rw [hs] at hc
    cases hc
    rfl

theorem newline_not_mem_spaced (h : '\n' ∉ r) : '\n' ∉ spaced r := by
  rcases spaced_cases r with ⟨-, hs⟩ | ⟨-, hs⟩
  · rw [hs]
    exact List.not_mem_nil
  · rw [hs, List.mem_cons, not_or]
    exact ⟨by decide, h⟩

theorem uncommented_spaced (h : Uncommented q r) : Uncommented q (spaced r) := by
  rcases spaced_cases r with ⟨-, hs⟩ | ⟨-, hs⟩
  · rw [hs]
    rfl
  · rw [hs]
    exact uncommented_cons.2 ⟨nofun, h⟩

theorem firstWord_append (hw : ∀ c ∈ w, isBlank c = false) (ht : ∀ c ∈ t.head?, isBlank c) :
    firstWord (w ++ t) = w := by
  refine takeWhile_append_of_head ?_ ?_
  · simpa using hw
  · simpa using ht

theorem afterWord_append (hw : ∀ c ∈ w, isBlank c = false) (ht : ∀ c ∈ t.head?, isBlank c)
    (hnewline : '\n' ∉ t) : afterWord (w ++ t) = t.trim := by
  rw [afterWord, firstWord_append hw ht, List.drop_left, takeWhile_bne_eq_self hnewline]

namespace IsOperation

variable (h : IsOperation w r)
include h

theorem firstWord_eq : firstWord (w ++ spaced r) = w :=
  firstWord_append h.notBlank fun c hc => by rw [head_spaced r c hc]; rfl

theorem afterWord_eq : afterWord (w ++ spaced r) = r := by
  rw [afterWord_append h.notBlank (fun c hc => by rw [head_spaced r c hc]; rfl)
    (newline_not_mem_spaced h.newline), trim_spaced h.trimmed]

theorem text_ne_nil : w ++ spaced r ≠ [] := List.append_ne_nil_of_left_ne_nil h.ne_nil _

theorem text_isTrimmed : (w ++ spaced r).IsTrimmed where
  head := by
    intro c hc
    rw [List.head?_append_of_ne_nil _ h.ne_nil] at hc
    exact h.notBlank c (List.mem_of_mem_head? hc)
  last := by
    intro c hc
    rcases spaced_cases r with ⟨-, hs⟩ | ⟨hr, hs⟩
    · rw [hs, List.append_nil] at hc
      exact h.notBlank c (List.mem_of_mem_getLast? hc)
    · rw [hs, List.getLast?_append_of_ne_nil _ (List.cons_ne_nil _ _),
        List.getLast?_cons_of_ne_nil hr] at hc
      exact h.trimmed.last c hc

theorem text_uncommented : Uncommented false (w ++ spaced r) :=
  uncommented_append.2 ⟨h.uncommented, uncommented_spaced h.uncommented_rest⟩

/-- Another text in place of the one that follows the word. -/
theorem rephrase {r' : Text} (hr : Rephrases r r') : IsOperation w r' :=
  { h with
    trimmed := hr.trimmed
    newline := hr.newline h.newline
    uncommented_rest := hr.uncommented _ h.uncommented_rest }

/-- Another word in place of the first one, with the same quotes. -/
theorem reword {w' : Text} (hne : w' ≠ []) (hblank : ∀ c ∈ w', isBlank c = false)
    (hcomment : Uncommented false w') (hquoted : quotedAfter false w' = quotedAfter false w) :
    IsOperation w' r :=
  ⟨hne, hblank, hcomment, h.trimmed, h.newline, hquoted ▸ h.uncommented_rest⟩

end IsOperation

/-- **What a line says**: of white space it holds spaces and tabs, and no comment starts in it. -/
structure IsSource (s : Text) : Prop where
  blank : ∀ x ∈ s, isBlank x → x = ' ' ∨ x = '\t'
  uncommented : Uncommented false s

theorem IsSource.newline_not_mem (h : IsSource s) : '\n' ∉ s :=
  fun hmem => absurd (h.blank _ hmem rfl) (by decide)

/-- The first word of a line is that of its operation. -/
theorem IsSource.isOperation (hs : IsSource s) (htrim : s.IsTrimmed) (hne : s ≠ []) :
    IsOperation (firstWord s) (afterWord s) := by
  have hsplit : firstWord s ++ s.drop (firstWord s).length = s :=
    List.prefix_iff_eq_append.1 (List.takeWhile_prefix _)
  have hrest : '\n' ∉ s.drop (firstWord s).length :=
    fun hmem => hs.newline_not_mem (List.mem_of_mem_drop hmem)
  have hline : (s.drop (firstWord s).length).takeWhile (· != '\n') =
      s.drop (firstWord s).length := takeWhile_bne_eq_self hrest
  have hcomment := hs.uncommented
  rw [← hsplit, uncommented_append] at hcomment
  refine ⟨?_, ?_, hcomment.1, ?_, ?_, ?_⟩
  · obtain ⟨c, t, rfl⟩ := List.exists_cons_of_ne_nil hne
    rw [firstWord, List.takeWhile_cons_of_pos (by simp [htrim.head c rfl])]
    exact List.cons_ne_nil _ _
  · intro c hc
    simpa using List.mem_takeWhile_imp hc
  · exact isTrimmed_trim _
  · rw [afterWord, hline]
    exact fun hmem => hrest (mem_of_mem_trim hmem)
  · rw [afterWord, hline]
    exact hcomment.2.trim

/-! ### Operations are read again -/

/-- The operation of a command and what follows it, as text. -/
def printOperation (d : Command) : Text :=
  d.operation.name ++ printHeader d.operation ++ Operand.printPair d.a d.b

theorem printBody_eq (d : Command) : d.printBody = d.printLabel ++ d.printOperation := by
  simp [printBody, printOperation]

theorem printHeader_macroStart (h : label ≠ []) :
    printHeader (.macroStart label names) = spaced (join [' '] (label :: names)) := by
  have hne : join [' '] (label :: names) ≠ [] := List.append_ne_nil_of_left_ne_nil h _
  rw [spaced_of_ne_nil hne]
  rfl

/-- **The operation of a command is printed, and read again.** -/
structure Rereads (n : Nat) (d : Command) (w r : Text) : Prop where
  operation : IsOperation w r
  print : d.printOperation = w ++ spaced r
  parse : parseOperation { line := n, label := d.label } (w ++ spaced r) = .ok d

/-! ### Instructions -/

theorem quotedAt_toUpper (q : Bool) (x : Char) : quotedAt q x.toUpper = quotedAt q x := by
  have hquote : (x.toUpper == '"') = (x == '"') := by
    rw [Bool.eq_iff_iff, beq_iff_eq, beq_iff_eq, toUpper_eq_iff (by decide)]
  rw [quotedAt, quotedAt, hquote]

theorem quotedAfter_upper (q : Bool) (w : Text) : quotedAfter q w.upper = quotedAfter q w := by
  rw [quotedAfter, Text.upper, List.foldl_map]
  simp only [quotedAt_toUpper]
  rfl

theorem uncommented_upper {w : Text} : Uncommented q w.upper ↔ Uncommented q w := by
  induction w generalizing q with
  | nil => rfl
  | cons x w ih =>
      have hupper : Text.upper (x :: w) = x.toUpper :: Text.upper w := rfl
      rw [hupper, uncommented_cons, uncommented_cons, quotedAt_toUpper, ih,
        toUpper_eq_iff (by decide)]

/-- Letter case plays no role for strings and comments. -/
theorem IsOperation.upper (h : IsOperation w r) : IsOperation (Text.upper w) r := by
  refine h.reword ?_ ?_ (uncommented_upper.2 h.uncommented) (quotedAfter_upper false w)
  · simpa [Text.upper] using h.ne_nil
  · intro c hc
    obtain ⟨x, hx, rfl⟩ := List.mem_map.1 hc
    exact isBlank_toUpper (h.notBlank x hx)

theorem parseOperation_eq (c : Command) (s : Text) :
    parseOperation c s =
      if (firstWord s).head? == some '.' then
        match Directive.ofName? (firstWord s).lower with
        | some k => c.parseDirective k (afterWord s)
        | none => .error (.unknownDirective (firstWord s).lower)
      else do
        let (a, b) ← operands (firstWord s).upper (instructionFields (afterWord s))
        return { c with operation := .instruction (firstWord s).upper, a, b } :=
  rfl

theorem parseOperation_of_instruction (hpoint : (firstWord s).head? ≠ some '.')
    (h : operands (firstWord s).upper (instructionFields (afterWord s)) = .ok (a, b)) :
    parseOperation c s =
      .ok { c with operation := .instruction (firstWord s).upper, a, b } := by
  rw [parseOperation_eq, if_neg fun hhead => hpoint (beq_iff_eq.1 hhead)]
  exact Except.bind_eq_ok.2 ⟨_, h, rfl⟩

theorem parseOperation_of_directive (hpoint : (firstWord s).head? = some '.')
    (hk : Directive.ofName? (firstWord s).lower = some k) :
    parseOperation c s = c.parseDirective k (afterWord s) := by
  rw [parseOperation_eq, if_pos (beq_iff_eq.2 hpoint), hk]

theorem rereads_instruction (hw : IsOperation w r) (hpoint : w.head? ≠ some '.')
    (h : operands w.upper (instructionFields r) = .ok (a, b))
    (hself : ∀ o ∈ operandList a b, o.IsSelfReading) (n : Nat) (label' : Option Text) :
    Rereads n ⟨n, label', .instruction w.upper, a, b⟩ w.upper (listing a b) := by
  obtain ⟨hrelists, hread⟩ := operands_instructionFields_listing h hself
  have hoperation := hw.upper.rephrase hrelists.rephrases
  have hpoint' : w.upper.head? ≠ some '.' := by
    obtain ⟨x, w, rfl⟩ := List.exists_cons_of_ne_nil hw.ne_nil
    intro heq
    exact hpoint (congrArg some ((toUpper_eq_iff (by decide)).1 (Option.some.inj heq)))
  refine ⟨hoperation, ?_, ?_⟩
  · rw [printOperation, hrelists.print]
    exact congrArg (· ++ _) (List.append_nil _)
  · have hparse := parseOperation_of_instruction (c := { line := n, label := label' })
      (hoperation.firstWord_eq ▸ hpoint')
      (by rwa [hoperation.firstWord_eq, hoperation.afterWord_eq, upper_upper])
    rwa [hoperation.firstWord_eq, upper_upper] at hparse

/-! ### Directives -/

/-- The name of a directive is a word that starts with a point, and holds nothing to stop at. -/
structure IsDirectiveName (w : Text) : Prop where
  point : w.head? = some '.'
  lower : w.lower = w
  notBlank : ∀ c ∈ w, isBlank c = false
  quote : '"' ∉ w
  semicolon : ';' ∉ w
  colon : ':' ∉ w

theorem isDirectiveName (k : Directive) : IsDirectiveName k.name := by
  have hname : k.name.head? = some '.' ∧ Text.lower k.name = k.name ∧
      k.name.all (fun x => !isBlank x && x != '"' && x != ';' && x != ':') := by
    rcases k with (_ | _) | (_ | _ | _ | _ | _ | _) | _ | (_ | _ | _) | _ | _ <;> decide +kernel
  obtain ⟨hpoint, hlower, hall⟩ := hname
  rw [List.all_eq_true] at hall
  simp only [Bool.and_eq_true, Bool.not_eq_true', bne_iff_ne, ne_eq] at hall
  exact ⟨hpoint, hlower, fun x hx => (hall x hx).1.1.1, fun hmem => (hall _ hmem).1.1.2 rfl,
    fun hmem => (hall _ hmem).1.2 rfl, fun hmem => (hall _ hmem).2 rfl⟩

theorem IsOperation.directive (h : IsOperation w r) (hw : w.lower = k.name) :
    IsOperation k.name r := by
  have hname := isDirectiveName k
  have hquote : '"' ∉ w := by
    intro hmem
    have hlower : '"'.toLower ∈ w.lower := List.mem_map_of_mem hmem
    rw [hw] at hlower
    exact hname.quote hlower
  refine h.reword ?_ hname.notBlank (uncommented_of_not_mem hname.semicolon) ?_
  · intro hnil
    rw [hnil] at hname
    cases hname.point
  · rw [quotedAfter_of_not_mem hquote, quotedAfter_of_not_mem hname.quote]

/-- A directive in the way that it is printed. -/
structure RereadsDirective (n : Nat) (k : Directive) (d : Command) (s r : Text) : Prop where
  rephrases : Rephrases s r
  name : d.operation.name = k.name
  print : printHeader d.operation ++ Operand.printPair d.a d.b = spaced r
  parse : parseDirective { line := n, label := d.label } k r = .ok d

theorem RereadsDirective.rereads (h : RereadsDirective n k d s r) (hs : IsOperation w s)
    (hw : w.lower = k.name) : Rereads n d k.name r := by
  have hoperation := (hs.directive hw).rephrase h.rephrases
  have hname := isDirectiveName k
  refine ⟨hoperation, ?_, ?_⟩
  · rw [printOperation, h.name, List.append_assoc, h.print]
  · have hpoint : (firstWord (k.name ++ spaced r)).head? = some '.' := by
      rw [hoperation.firstWord_eq]
      exact hname.point
    rw [parseOperation_of_directive (k := k) hpoint, hoperation.afterWord_eq]
    · exact h.parse
    · rw [hoperation.firstWord_eq, hname.lower, Directive.ofName?_name]

/-- Operands between commas are read again. -/
theorem rephrases_fields {name : Text} (h : operands name (splitFields ',' s) = .ok (a, b))
    (hself : ∀ o ∈ operandList a b, o.IsSelfReading) :
    Relists s a b ∧ operands name (splitFields ',' (listing a b)) = .ok (a, b) := by
  obtain ⟨hab, hparse⟩ := operands_eq_ok_iff.1 h
  exact operands_listing hab (parts_splitFields s) hparse hself name

/-- The name of a number is read again as the first of two operands. -/
theorem relists_equate {x : Text}
    (h : operands Directive.equate.name (splitFields ',' s) = .ok (a, none))
    (hself : ∀ o ∈ operandList (some (.label x)) a, o.IsSelfReading) (hsemicolon : ';' ∉ x) :
    Relists s (some (.label x)) a ∧
      operands Directive.equate.name (splitFields ',' (listing (some (.label x)) a)) =
        .ok (some (.label x), a) := by
  obtain ⟨-, hparse⟩ := operands_eq_ok_iff.1 h
  have hx : Operand.parse x = .ok (.label x) := hself (.label x) List.mem_cons_self x rfl
  have hcompact := Operand.isCompact_of_parse_self hx
  rw [operandList, Option.toList_none, List.append_nil] at hparse
  have hfirst : some (Operand.label x) = none → a = none :=
    fun h => absurd h (Option.some_ne_none _)
  exact operands_listing hfirst ((parts_splitFields s).cons hcompact hsemicolon) (.cons hx hparse) hself _

theorem parseSetting_of_field {field : Text} {v : UInt32} (hne : rest ≠ [])
    (hfield : splitFields ',' rest = [field]) (hv : Operand.parse field = .ok (.immediate v))
    (c : Command) (p : Setting) :
    c.parseSetting p rest =
      .ok { c with operation := .setting p v, a := some (.immediate v) } := by
  unfold parseSetting
  rw [if_neg fun hempty => hne (List.isEmpty_iff.1 hempty), hfield]
  exact Except.bind_eq_ok.2 ⟨_, Except.mapError_eq_ok.2 hv, rfl⟩

/-- The place of a segment is read again. -/
theorem rereads_setting {p : Setting}
    (h : parseSetting { line := n, label := label' } p s = .ok d) :
    ∃ r, RereadsDirective n (.setting p) d s r := by
  obtain ⟨field, v, hfield, hv, rfl⟩ := parseSetting_eq_ok h
  have hself : ∀ o ∈ operandList (some (.immediate v)) none, o.IsSelfReading :=
    List.forall_mem_singleton.2 nofun
  have hparts : Parts s [field] := hfield ▸ parts_splitFields s
  have hprinted : IsPrinted [field] (operandList (some (.immediate v)) none) :=
    isPrinted_of_parse (.cons hv .nil) hself
  have hrelists := hprinted.relists hparts nofun
  have hne : listing (some (.immediate v)) none ≠ [] :=
    List.append_ne_nil_of_left_ne_nil (hprinted.ne_nil _ List.mem_cons_self) _
  exact ⟨_, hrelists.rephrases, rfl, hrelists.print,
    parseSetting_of_field hne (hprinted.splitFields_listing hparts)
      (Operand.parse_print_immediate v) _ p⟩

theorem forM_checkName {role : NameRole} (h : ∀ x ∈ names, IsName x) :
    names.forM (checkName role) = .ok () := by
  induction names with
  | nil => rfl
  | cons x names ih =>
      obtain ⟨hx, hnames⟩ := List.forall_mem_cons.1 h
      exact Except.bind_eq_ok.2 ⟨(), checkName_eq_ok_iff.2 hx, ih hnames⟩

/-- The name and the parameters of a macro are read again. -/
theorem rereads_macroStart (h : parseMacroStart { line := n, label := label' } s = .ok d) :
    ∃ r, RereadsDirective n .macroStart d s r := by
  obtain ⟨name, parameters, hwords, hnames, rfl⟩ := parseMacroStart_eq_ok h
  have hsame : macroWords s = name :: parameters := hwords
  have hheader : IsHeader s (name :: parameters) :=
    hsame ▸ isHeader_macroWords (hsame.symm ▸ hnames)
  have hagain := hheader.macroWords_join
  obtain ⟨hname, hparameters⟩ := List.forall_mem_cons.1 hnames
  refine ⟨_, hheader.rephrases, rfl, ?_, ?_⟩
  · exact (List.append_nil _).trans
      (printHeader_macroStart (hheader.ne_nil name List.mem_cons_self))
  · dsimp only [parseDirective]
    unfold parseMacroStart
    rw [macroWords] at hagain
    rw [hagain]
    exact Except.bind_eq_ok.2 ⟨(), checkName_eq_ok_iff.2 hname,
      Except.bind_eq_ok.2 ⟨(), forM_checkName hparameters, rfl⟩⟩

/-- **Directives are read again.** -/
theorem exists_rereadsDirective (h : parseDirective { line := n, label := label' } k s = .ok d)
    (hself : ∀ o ∈ operandList d.a d.b, o.IsSelfReading) (hlabel : ∀ x ∈ label', ';' ∉ x) :
    ∃ r, RereadsDirective n k d s r := by
  cases k with
  | enter p =>
      obtain ⟨⟨a, b⟩, hread, h⟩ := Except.bind_eq_ok.1 h
      cases h
      obtain ⟨hrelists, hagain⟩ := rephrases_fields hread hself
      exact ⟨_, hrelists.rephrases, rfl, hrelists.print, Except.bind_eq_ok.2 ⟨_, hagain, rfl⟩⟩
  | data p =>
      obtain ⟨⟨a, b⟩, hread, h⟩ := Except.bind_eq_ok.1 h
      cases h
      obtain ⟨hrelists, hagain⟩ := rephrases_fields hread hself
      exact ⟨_, hrelists.rephrases, rfl, hrelists.print, Except.bind_eq_ok.2 ⟨_, hagain, rfl⟩⟩
  | equate =>
      obtain ⟨⟨a, b⟩, hread, h⟩ := Except.bind_eq_ok.1 h
      dsimp only at h
      split at h
      · cases h
        obtain ⟨hrelists, hagain⟩ := relists_equate hread hself (hlabel _ rfl)
        exact ⟨_, hrelists.rephrases, rfl, hrelists.print, Except.bind_eq_ok.2 ⟨_, hagain, rfl⟩⟩
      · rename_i hkeep
        cases h
        obtain ⟨hrelists, hagain⟩ := rephrases_fields hread hself
        refine ⟨_, hrelists.rephrases, rfl, hrelists.print, Except.bind_eq_ok.2 ⟨_, hagain, ?_⟩⟩
        dsimp only
        split
        · rename_i x
          exact absurd rfl (hkeep x rfl)
        · rfl
  | setting p => exact rereads_setting h
  | macroStart => exact rereads_macroStart h
  | macroEnd =>
      dsimp only [parseDirective] at h
      split_ifs at h with hempty
      cases h
      obtain rfl := List.isEmpty_iff.1 hempty
      exact ⟨[], ⟨isTrimmed_nil, fun _ hs => hs, id⟩, rfl, rfl, rfl⟩

/-- **Every operation is read again.**  A label could be looked for in its word only where it could
be in the original one. -/
theorem exists_rereads (h : parseOperation { line := n, label := label' } s = .ok d)
    (hs : IsOperation (firstWord s) (afterWord s))
    (hself : ∀ o ∈ operandList d.a d.b, o.IsSelfReading) (hlabel : ∀ x ∈ label', ';' ∉ x) :
    ∃ w r, Rereads n d w r ∧ (':' ∉ w ∨ w = (firstWord s).upper ∧ d.label = label') := by
  rcases parseOperation_cases h with ⟨-, k, hk, h⟩ | ⟨hpoint, a, b, hoperands, rfl⟩
  · obtain ⟨r, hr⟩ := exists_rereadsDirective h hself hlabel
    exact ⟨_, r, hr.rereads hs (Directive.name_of_ofName? hk).symm, .inl (isDirectiveName k).colon⟩
  · exact ⟨_, _, rereads_instruction hs hpoint hoperands hself n label', .inr ⟨rfl, rfl⟩⟩

/-! ### Labels -/

/-- The word in which a label is looked for: of all white space, the space and the tab end it. -/
def frontWord (s : Text) : Text := s.takeWhile fun x => x != ' ' && x != '\t'

theorem frontWord_eq_firstWord (h : ∀ x ∈ s, isBlank x → x = ' ' ∨ x = '\t') :
    frontWord s = firstWord s := by
  induction s with
  | nil => rfl
  | cons x s ih =>
      obtain ⟨hx, hs⟩ := List.forall_mem_cons.1 h
      have hsame : (x != ' ' && x != '\t') = !isBlank x := by
        cases hblank : isBlank x with
        | true => rcases hx hblank with rfl | rfl <;> rfl
        | false =>
            rw [Bool.and_eq_true_iff.2]
            · rfl
            · exact ⟨bne_iff_ne.2 (ne_of_isBlank rfl hblank).symm,
                bne_iff_ne.2 (ne_of_isBlank rfl hblank).symm⟩
      rw [frontWord, firstWord, List.takeWhile_cons, List.takeWhile_cons, hsame]
      exact congrArg (fun u => if !isBlank x then x :: u else []) (ih hs)

theorem frontWord_append (hw : ∀ x ∈ w, isBlank x = false) (ht : ∀ x ∈ t.head?, x = ' ') :
    frontWord (w ++ t) = w := by
  refine takeWhile_append_of_head ?_ ?_
  · intro x hx
    rw [Bool.and_eq_true_iff, bne_iff_ne, bne_iff_ne]
    exact ⟨(ne_of_isBlank rfl (hw x hx)).symm, (ne_of_isBlank rfl (hw x hx)).symm⟩
  · intro x hx
    rw [ht x hx]
    rfl

theorem takeLabel_of_frontWord (h : ':' ∈ frontWord s → '"' ∈ frontWord s) :
    takeLabel s = .ok (none, s) := by
  unfold takeLabel
  rw [frontWord] at h
  dsimp only
  rw [if_neg]
  · rfl
  · simpa using h

theorem quote_mem_of_takeLabel (h : takeLabel s = .ok (none, rest)) (hcolon : ':' ∈ frontWord s) :
    '"' ∈ frontWord s := by
  rw [frontWord] at hcolon ⊢
  unfold takeLabel at h
  dsimp only at h
  split_ifs at h with hcut
  · cases h
  · obtain ⟨_, -, h⟩ := Except.bind_eq_ok.1 h
    cases h
  · simpa [hcolon] using hcut

theorem exists_eq_takeWhile_append {x : Char} (h : x ∈ s) :
    ∃ t : Text, s = s.takeWhile (· != x) ++ x :: t := by
  induction s with
  | nil => cases h
  | cons y s ih =>
      by_cases hy : y = x
      · subst hy
        exact ⟨s, by simp⟩
      · obtain ⟨t, ht⟩ := ih ((List.mem_cons.1 h).resolve_left (Ne.symm hy))
        refine ⟨t, ?_⟩
        rw [List.takeWhile_cons_of_pos (by simpa using hy), List.cons_append, ← ht]

/-- A label and what follows it. -/
theorem takeLabel_eq_some (h : takeLabel s = .ok (some label, rest)) :
    (∀ x ∈ label, x ≠ ' ' ∧ x ≠ '\t') ∧ ∃ t : Text, s = label ++ ':' :: t ∧ rest = t.trim := by
  unfold takeLabel at h
  dsimp only at h
  split_ifs at h with hcut
  · cases h
  · obtain ⟨_, -, h⟩ := Except.bind_eq_ok.1 h
    cases h
    have hcolon : ':' ∈ frontWord s := List.contains_iff_mem.1 (Bool.and_eq_true_iff.1 hcut).1
    obtain ⟨t, ht⟩ := exists_eq_takeWhile_append hcolon
    obtain ⟨u, hu⟩ : frontWord s <+: s := List.takeWhile_prefix _
    have hs : s = (frontWord s).takeWhile (· != ':') ++ ':' :: (t ++ u) := by
      conv_lhs => rw [← hu, ht]
      rw [List.append_assoc, List.cons_append]
    refine ⟨?_, t ++ u, hs, ?_⟩
    · intro x hx
      have hfront : x ∈ frontWord s := List.takeWhile_subset _ hx
      simpa using List.mem_takeWhile_imp hfront
    · have hdrop : s.drop (((frontWord s).takeWhile (· != ':')).length + 1) = t ++ u := by
        generalize (frontWord s).takeWhile (· != ':') = name at hs
        rw [hs, List.append_cons]
        exact List.drop_left' (List.length_append ..)
      exact congrArg Text.trim hdrop
  · cases h

/-- A label, a colon and white space are split from the front of a line. -/
theorem takeLabel_append (hname : IsName label) (hblank : ∀ x ∈ label, isBlank x = false)
    (ht : ∀ x ∈ t.head?, x = ' ') :
    takeLabel (label ++ ':' :: t) = .ok (some label, Text.trim t) := by
  have hword : frontWord (label ++ ':' :: t) = label ++ [':'] := by
    rw [List.append_cons]
    refine frontWord_append ?_ ht
    exact List.forall_mem_append.2 ⟨hblank, List.forall_mem_singleton.2 rfl⟩
  have hquote := Operand.quote_not_mem_of_parse hname.reading
  have hlabel : (label ++ [':']).takeWhile (· != ':') = label :=
    takeWhile_bne_append hname.colon []
  have hcut : (label ++ [':']).contains ':' && !(label ++ [':']).contains '"' := by
    simpa using hquote
  have hne : ¬label.isEmpty := by simpa using Operand.ne_nil_of_parse hname.reading
  have hrest : (label ++ ':' :: t).drop (label.length + 1) = t := by
    rw [List.append_cons]
    exact List.drop_left' (List.length_append ..)
  unfold takeLabel
  rw [frontWord] at hword
  dsimp only
  rw [hword, hlabel, if_pos hcut, if_neg hne, hrest]
  exact Except.bind_eq_ok.2 ⟨(), checkName_eq_ok_iff.2 hname, rfl⟩

/-! ### Lines -/

theorem gist_eq_trim (h : Uncommented false s) : s.gist = s.trim := by
  rw [gist, stripComment, h]

theorem parse_eq (n : Nat) (s : Text) :
    parse n s =
      if s.gist.isEmpty then .ok { line := n }
      else (do
        let (label, rest) ← takeLabel s.gist
        if rest.isEmpty then return { line := n, label }
        parseOperation { line := n, label } rest) :=
  rfl

/-- **A line without a label** is read as an operation. -/
theorem parse_unlabelled (hs : s.IsTrimmed) (hne : s ≠ []) (hcomment : Uncommented false s)
    (hfront : ':' ∈ frontWord s → '"' ∈ frontWord s) (n : Nat) :
    parse n s = parseOperation { line := n } s := by
  have hempty : ¬s.isEmpty := by simpa using hne
  rw [parse_eq, gist_eq_trim hcomment, hs.trim_eq, if_neg hempty, takeLabel_of_frontWord hfront]
  exact if_neg hempty

/-- **A line with a label** is read as what follows the label. -/
theorem parse_labelled (hname : IsName label) (hblank : ∀ x ∈ label, isBlank x = false)
    (hsemicolon : ';' ∉ label) (hs : s.IsTrimmed) (hcomment : Uncommented false s) (n : Nat) :
    parse n (label ++ [':', ' '] ++ s) =
      if s.isEmpty then .ok { line := n, label := some label }
      else parseOperation { line := n, label := some label } s := by
  have hquote := Operand.quote_not_mem_of_parse hname.reading
  have hline : Uncommented false (label ++ [':', ' '] ++ s) := by
    rw [uncommented_append, uncommented_append, quotedAfter_append,
      quotedAfter_of_not_mem hquote, quotedAfter_of_not_mem (by decide)]
    exact ⟨⟨uncommented_of_not_mem hsemicolon, uncommented_of_not_mem (by decide)⟩, hcomment⟩
  have htrim : Text.trim (label ++ [':', ' '] ++ s) = label ++ ':' :: spaced s := by
    have hfront : (label ++ [':']).IsTrimmed :=
      isTrimmed_of_notBlank (List.forall_mem_append.2 ⟨hblank, List.forall_mem_singleton.2 rfl⟩)
    rcases spaced_cases s with ⟨hnil, hspaced⟩ | ⟨hne, hspaced⟩
    · have hend : label ++ [':', ' '] ++ s = label ++ [':'] ++ [' '] := by simp [hnil]
      rw [hspaced, hend, trim_append (List.forall_mem_singleton.2 rfl), hfront.trim_eq]
    · have hend : label ++ [':', ' '] ++ s = label ++ [':'] ++ ' ' :: s := by simp
      rw [hspaced, hend, List.append_cons label ':' (' ' :: s)]
      refine IsTrimmed.trim_eq ⟨?_, ?_⟩
      · intro x hx
        rw [List.head?_append_of_ne_nil _ (by simp)] at hx
        exact hfront.head x hx
      · intro x hx
        rw [List.getLast?_append_of_ne_nil _ (List.cons_ne_nil _ _),
          List.getLast?_cons_of_ne_nil hne] at hx
        exact hs.last x hx
  rw [parse_eq, gist_eq_trim hline, htrim, if_neg (by simp),
    takeLabel_append hname hblank (head_spaced s), trim_spaced hs]
  rfl

/-! ### Commands -/

/-- An operation that is read again makes up a line without a label. -/
theorem Rereads.parse_printBody (h : Rereads n c w r) (hlabel : c.label = none)
    (hfront : ':' ∈ w → '"' ∈ w) : Command.parse n c.printBody = .ok c := by
  have hprint : c.printBody = w ++ spaced r := by
    rw [printBody_eq, printLabel, hlabel, h.print]
    rfl
  have hparse := h.parse
  rw [hlabel] at hparse
  rw [hprint, parse_unlabelled h.operation.text_isTrimmed h.operation.text_ne_nil
    h.operation.text_uncommented ?_ n, hparse]
  rwa [frontWord_append h.operation.notBlank (head_spaced r)]

/-- What makes a name a label that is read again. -/
structure IsLabel (label : Text) : Prop extends IsName label where
  notBlank : ∀ x ∈ label, isBlank x = false
  semicolon : ';' ∉ label

/-- An operation that is read again follows the label in a line. -/
theorem Rereads.parse_printBody_label (h : Rereads n c w r) (hlabel : c.label = some label)
    (hname : IsLabel label) : Command.parse n c.printBody = .ok c := by
  have hprint : c.printBody = label ++ [':', ' '] ++ (w ++ spaced r) := by
    rw [printBody_eq, printLabel, hlabel, h.print]
  have hparse := h.parse
  rw [hlabel] at hparse
  have hempty : ¬(w ++ spaced r).isEmpty := by
    rw [List.isEmpty_iff]
    exact h.operation.text_ne_nil
  rw [hprint, parse_labelled hname.toIsName hname.notBlank hname.semicolon
    h.operation.text_isTrimmed h.operation.text_uncommented n, if_neg hempty, hparse]

theorem parse_printBody_label (hname : IsLabel label) (n : Nat) :
    parse n (printBody { line := n, label := some label }) =
      .ok { line := n, label := some label } := by
  have hprint : printBody { line := n, label := some label } = label ++ [':', ' '] ++ [] := by
    simp [printBody, printLabel, printHeader, Operation.name, Operand.printPair]
  rw [hprint, parse_labelled hname.toIsName hname.notBlank hname.semicolon isTrimmed_nil rfl]
  rfl

theorem isSource_gist (h : ∀ x ∈ s, isBlank x → x = ' ' ∨ x = '\t') : IsSource s.gist :=
  ⟨fun x hx => h x (mem_of_mem_cutComment (mem_of_mem_trim hx)),
    (uncommented_cutComment false s).trim⟩

/-- A label that is split from a line, and the rest of that line. -/
theorem IsSource.isLabel (hs : IsSource s) (h : takeLabel s = .ok (some label, rest)) :
    IsLabel label ∧ IsSource rest ∧ rest.IsTrimmed := by
  have hname := isName_of_takeLabel h
  obtain ⟨hchars, t, rfl, rfl⟩ := takeLabel_eq_some h
  have hquote := Operand.quote_not_mem_of_parse hname.reading
  obtain ⟨hlabel, hrest⟩ := uncommented_append.1 hs.uncommented
  rw [quotedAfter_of_not_mem hquote, uncommented_cons] at hrest
  refine ⟨⟨hname, ?_, ?_⟩, ⟨?_, hrest.2.trim⟩, isTrimmed_trim t⟩
  · intro x hx
    by_contra hblank
    rw [Bool.not_eq_false] at hblank
    rcases hs.blank x (List.mem_append_left _ hx) hblank with heq | heq
    · exact (hchars x hx).1 heq
    · exact (hchars x hx).2 heq
  · exact ((uncommented_iff_of_not_mem hquote).1 hlabel).resolve_left Bool.false_ne_true
  · exact fun x hx =>
      hs.blank x (List.mem_append_right _ (List.mem_cons_of_mem _ (mem_of_mem_trim hx)))

/-- What is read without a label is printed so that no label is split from it. -/
theorem parse_printBody_of_unlabelled (hs : IsSource s)
    (hoperation : IsOperation (firstWord s) (afterWord s))
    (htake : takeLabel s = .ok (none, s)) (h : parseOperation { line := n } s = .ok c)
    (hself : ∀ o ∈ operandList c.a c.b, o.IsSelfReading) : parse n c.printBody = .ok c := by
  obtain ⟨w, r, hw, hfront⟩ := exists_rereads h hoperation hself nofun
  have hnone : c.label = none := (line_label_of_parseOperation h).2.elim id id
  refine hw.parse_printBody hnone ?_
  rcases hfront with hcolon | ⟨rfl, -⟩
  · exact fun hmem => absurd hmem hcolon
  · rw [mem_upper_iff (by decide), mem_upper_iff (by decide), ← frontWord_eq_firstWord hs.blank]
    exact quote_mem_of_takeLabel htake

/-- The name of a number is a label that becomes an operand, and is printed as such. -/
theorem parse_printBody_of_labelled (hlabel : IsLabel label)
    (hoperation : IsOperation (firstWord s) (afterWord s))
    (h : parseOperation { line := n, label := some label } s = .ok c)
    (hself : ∀ o ∈ operandList c.a c.b, o.IsSelfReading) : parse n c.printBody = .ok c := by
  obtain ⟨w, r, hw, hfront⟩ := exists_rereads h hoperation hself
    (by rintro x ⟨⟩; exact hlabel.semicolon)
  rcases (line_label_of_parseOperation h).2 with hsame | hnone
  · exact hw.parse_printBody_label hsame hlabel
  · refine hw.parse_printBody hnone ?_
    rcases hfront with hcolon | ⟨-, hsame⟩
    · exact fun hmem => absurd hmem hcolon
    · exact nomatch hnone.symm.trans hsame

/-- **A printed command is read as the same command**, if of all white space its line holds only
spaces and tabs, and if its labels read as themselves. -/
theorem parse_body_of_print (h : parse n s = .ok c)
    (hspace : ∀ x ∈ s, isBlank x → x = ' ' ∨ x = '\t')
    (hlabels : ∀ t, c.a = some (.label t) ∨ c.b = some (.label t) →
      Operand.parse t = .ok (.label t)) :
    ∃ body, c.print = "line ".toList ++ Numeral.decimal n ++ [':', ' '] ++ body ++ ['\n'] ∧
      parse n body = .ok c := by
  refine ⟨c.printBody, line_of_parse h ▸ rfl, ?_⟩
  have hself : ∀ o ∈ operandList c.a c.b, o.IsSelfReading := by
    intro o ho t ht
    subst ht
    exact hlabels t ((List.mem_append.1 ho).imp Option.mem_toList.1 Option.mem_toList.1)
  have hsource := isSource_gist hspace
  rcases parse_cases h with rfl | ⟨label, rest, htake, hrest⟩
  · rfl
  cases label with
  | none =>
      obtain rfl := eq_of_takeLabel htake
      rcases hrest with ⟨-, rfl⟩ | ⟨hne, hoperation⟩
      · rfl
      · exact parse_printBody_of_unlabelled hsource
          (hsource.isOperation (isTrimmed_trim _) hne) htake hoperation hself
  | some label =>
      obtain ⟨hlabel, hsource', htrim⟩ := hsource.isLabel htake
      rcases hrest with ⟨-, rfl⟩ | ⟨hne, hoperation⟩
      · exact parse_printBody_label hlabel n
      · exact parse_printBody_of_labelled hlabel (hsource'.isOperation htrim hne) hoperation hself

/-- A label, a string that holds a comma and a semicolon, and a comment behind it. -/
theorem parse_body_of_print_mixed :
    ∃ c body, parse 7 "L1:\tout \"a; b, c\"  msg ; remark".toList = .ok c ∧
      c.print = "line 7: L1: OUT \"a; b, c\", msg\n".toList ∧
      c.print = "line ".toList ++ Numeral.decimal 7 ++ [':', ' '] ++ body ++ ['\n'] ∧
      parse 7 body = .ok c := by
  have hparse : parse 7 "L1:\tout \"a; b, c\"  msg ; remark".toList =
      .ok ⟨7, some "L1".toList, .instruction "OUT".toList, some (.quoted "a; b, c".toList),
        some (.label "msg".toList)⟩ := by
    decide +kernel
  have hspace : "L1:\tout \"a; b, c\"  msg ; remark".toList.all
      (fun x => !isBlank x || x == ' ' || x == '\t') := by
    decide +kernel
  have hlabel : Operand.parse "msg".toList = .ok (.label "msg".toList) := by decide +kernel
  obtain ⟨body, hbody, hagain⟩ := parse_body_of_print hparse
    (by
      intro x hx hblank
      simpa [hblank] using List.all_eq_true.1 hspace x hx)
    (by
      rintro t (h | h)
      · cases h
      · cases h
        exact hlabel)
  exact ⟨_, body, hparse, by decide +kernel, hbody, hagain⟩

end Command

end WordMachine
