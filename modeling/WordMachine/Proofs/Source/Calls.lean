/-
**Calling the macros of a source program.**

A macro is named by an operand, and called by the word of an operation.  The two agree on a name
without white space: such a name holds no colon and no quote, and, since the line that starts the
macro has been cut at its comment, no semicolon either.  A line of this name alone is therefore not
cut, and its word is the name.  A name that starts with a point is the exception, for a word that
starts with a point is a directive.

Main definitions:

* `Command.IsCallName` — a name that a line is not cut at;
* `Macro.Answers` — a call is replaced by the body of a macro, or is reported.

Main results:

* `Text.not_mem_takeWhile_stripComment` — no semicolon stands before the first quote of a line;
* `Command.isCallName_of_start` — the name in the line that starts a macro;
* `Command.parse_callName`, `Command.directive?_of_parse_callName` — the line of a name alone;
* `Source.answers_of_name` — **every macro is called by its name**, if it has no white space and
  does not start with a point;
* `Source.not_called_pointed` — a macro that its name does not call.
-/

import WordMachine.Proofs.Source.Expansion
import WordMachine.Proofs.Source.Lines
import WordMachine.Proofs.Source.Names
import WordMachine.Proofs.Source.Reading
import WordMachine.Proofs.Text.LetterCase
import Mathlib.Data.List.TakeWhile

set_option relaxedAutoImplicit false
set_option autoImplicit false

namespace WordMachine

/-! ### What is left of a line -/

namespace Text

variable {s u : Text} {c : Char}

/-- **No semicolon stands before the first quote** of a line without its comment. -/
theorem not_mem_takeWhile_stripComment (s : Text) :
    ';' ∉ s.stripComment.takeWhile (· != '"') := by
  rw [stripComment]
  induction s with
  | nil => simp [cutComment]
  | cons c s ih =>
      rw [cutComment]
      by_cases hquote : c = '"'
      · simp [hquote]
      · by_cases hsemicolon : c = ';'
        · simp [hsemicolon]
        · simpa [hquote, hsemicolon, Ne.symm hsemicolon] using ih

/-- What a text visibly starts with stands before its first quote, if it holds none. -/
theorem mem_takeWhile_of_visible (h : u <+: visible s) (hquote : '"' ∉ u) (hc : c ∈ u) :
    c ∈ s.takeWhile (· != '"') := by
  obtain ⟨v, hv⟩ := h
  have hmem : c ∈ (visible s).takeWhile (· != '"') := by
    rw [← hv, List.takeWhile_append_of_pos ?_]
    · exact List.mem_append_left _ hc
    · intro d hd
      simp only [bne_iff_ne, ne_eq]
      rintro rfl
      exact hquote hd
  -- A quote is visible, so that leaving out the rest does not move it.
  have hsame : (fun d => !(!isBlank d && d != ',') || d != '"') = (· != '"') := by
    funext d
    by_cases hd : d = '"'
    · subst hd
      rfl
    · simp [hd]
  rw [visible, List.takeWhile_filter, hsame] at hmem
  exact (List.mem_filter.1 hmem).1

end Text

namespace Command

variable {n : Nat} {l s name : Text} {c : Command} {parameters : List Text}

/-! ### The line that starts a macro -/

/-- A name that a line is **not cut** at, apart from white space. -/
structure IsCallName (name : Text) : Prop extends IsName name where
  semicolon : ';' ∉ name

/-- The word of an operation and what follows it are what a text visibly starts with. -/
theorem visible_afterWord (s : Text) :
    Text.visible (firstWord s) ++ Text.visible (afterWord s) <+: Text.visible s := by
  have hsplit : firstWord s ++ s.drop (firstWord s).length = s := by
    have hword : firstWord s <+: s := List.takeWhile_prefix _
    exact List.prefix_iff_eq_append.1 hword
  have hrest : Text.visible (afterWord s) <+: Text.visible (s.drop (firstWord s).length) := by
    rw [afterWord, Text.visible_trim]
    exact (List.takeWhile_prefix _).filter _
  conv_rhs => rw [← hsplit, Text.visible_append]
  exact (List.prefix_append_right_inj _).2 hrest

/-- No quote stands in the name of a directive, whatever its letter case. -/
theorem quote_not_mem_of_lower (h : s.lower = Directive.macroStart.name) : '"' ∉ s := by
  intro hmem
  have hlower : '"'.toLower ∈ s.lower := List.mem_map_of_mem hmem
  rw [h] at hlower
  exact absurd hlower (by decide)

/-- The line that starts a macro and has no label: its words are the name and the parameters. -/
theorem start_cases (h : parse n l = .ok c) (hstart : c.operation = .macroStart name parameters)
    (hlabel : c.label = none) :
    (firstWord l.gist).lower = Directive.macroStart.name ∧
      (Text.splitFields ',' (afterWord l.gist)).flatMap Text.splitWords = name :: parameters ∧
      IsName name := by
  rcases parse_cases h with rfl | ⟨label, rest, htake, ⟨-, rfl⟩ | ⟨-, hrest⟩⟩
  · cases hstart
  · cases hstart
  · obtain ⟨hword, hmacro⟩ := parseOperation_macroStart hrest hstart
    obtain ⟨_, _, hwords, hnames, rfl⟩ := parseMacroStart_eq_ok hmacro
    cases hstart
    obtain rfl : label = none := hlabel
    obtain rfl := eq_of_takeLabel htake
    exact ⟨hword, hwords, hnames name List.mem_cons_self⟩

/-- **The name in the line that starts a macro** holds no semicolon.  Before the name stand only the
word of the directive, white space and commas. -/
theorem isCallName_of_start (h : parse n l = .ok c)
    (hstart : c.operation = .macroStart name parameters) (hlabel : c.label = none) :
    IsCallName name := by
  obtain ⟨hword, hwords, hname⟩ := start_cases h hstart hlabel
  refine ⟨hname, ?_⟩
  intro hmem
  -- Neither the word nor the name holds a quote, so that the semicolon would stand before the first
  -- quote of the line, where the comment has been cut off.
  have hfront : Text.visible (firstWord l.gist ++ name) <+: Text.visible l.stripComment := by
    have hafter := visible_afterWord l.gist
    rw [← Text.visible_words (afterWord l.gist), hwords, List.flatMap_cons, ← List.append_assoc,
      ← Text.visible_append, Text.gist, Text.visible_trim] at hafter
    exact (List.prefix_append _ _).trans hafter
  have hquote : '"' ∉ Text.visible (firstWord l.gist ++ name) := by
    intro hquote
    rcases List.mem_append.1 (List.mem_filter.1 hquote).1 with hquote | hquote
    · exact quote_not_mem_of_lower hword hquote
    · exact Operand.quote_not_mem_of_parse hname.reading hquote
  have hvisible : ';' ∈ Text.visible (firstWord l.gist ++ name) :=
    List.mem_filter.2 ⟨List.mem_append_right _ hmem, rfl⟩
  exact Text.not_mem_takeWhile_stripComment l
    (Text.mem_takeWhile_of_visible hfront hquote hvisible)

/-! ### The line of a name alone -/

theorem IsCallName.gist_eq (h : IsCallName name) (hblank : name.hasBlank = false) :
    name.gist = name := by
  rw [Text.gist, Text.stripComment_eq_self h.semicolon]
  exact Text.trim_of_notBlank (Text.notBlank_of_hasBlank hblank)

/-- Such a line has no label, and is all about its operation. -/
theorem IsCallName.parse_eq (h : IsCallName name) (hblank : name.hasBlank = false) (n : Nat) :
    parse n name = parseOperation { line := n } name := by
  have hne : ¬ name.isEmpty := by simpa using Operand.ne_nil_of_parse h.reading
  have hgist : name.stripComment.trim = name := h.gist_eq hblank
  rw [parse, hgist, if_neg hne, takeLabel_of_not_mem h.colon]
  show (if name.isEmpty then _ else _) = _
  rw [if_neg hne]

/-- **The line of a name alone is a call**, if the name does not start with a point. -/
theorem parse_callName (h : IsCallName name) (hblank : name.hasBlank = false)
    (hpoint : name.head? ≠ some '.') (n : Nat) :
    parse n name = .ok ⟨n, none, .instruction name.upper, none, none⟩ := by
  have hword := parseOperation_append (Text.notBlank_of_hasBlank hblank) hpoint isTail_nil
    { line := n }
  rw [List.append_nil] at hword
  rw [h.parse_eq hblank, hword]
  rfl

/-- **The line of a name that starts with a point is a directive**, if it is read. -/
theorem directive?_of_parse_callName (h : IsCallName name) (hblank : name.hasBlank = false)
    (hpoint : name.head? = some '.') (hparse : parse n name = .ok c) :
    ∃ k, c.operation.directive? = some k := by
  have hword : firstWord name = name :=
    List.takeWhile_eq_self_iff.2 (by simpa using Text.notBlank_of_hasBlank hblank)
  rw [h.parse_eq hblank] at hparse
  rcases parseOperation_cases hparse with ⟨-, k, -, hdirective⟩ | ⟨hother, -⟩
  · exact ⟨k, (directs_of_parseDirective hdirective).directive⟩
  · rw [hword] at hother
    exact absurd hpoint hother

/-- A directive calls no macro. -/
theorem macro?_of_directive? {k : Directive} (h : c.operation.directive? = some k)
    (macros : List Macro) : c.macro? macros = none := by
  unfold macro?
  split
  · rename_i hcall
    rw [hcall] at h
    cases h
  · rfl

end Command

/-! ### The macros of a source program -/

/-- A command is one of the commands of a text, and so it is read from a line of it. -/
theorem Text.Reads.exists_line {s : Text} {cs : List Command} {c : Command} (h : s.Reads cs)
    (hc : c ∈ cs) : ∃ n l, Command.parse n l = .ok c := by
  unfold Reads at h
  generalize s.lines.zipIdx 1 = lines at h
  induction h with
  | nil => cases hc
  | cons hline _ ih =>
      rcases List.mem_cons.1 hc with rfl | hc
      · exact ⟨_, _, hline⟩
      · exact ih hc

/-- **A call of a macro is answered**: it is replaced by the body, if it gives what the macro asks
for, and reported otherwise. -/
structure Macro.Answers (m : Macro) (p : Source) (call : Command) : Prop where
  found : call.macro? p.macros = some m
  replaced : m.Accepts call → call.expand p.macros macroDepth =
    call.marker.map .ok ++ (m.instantiate call).flatMap (Command.expand p.macros (macroDepth - 1))
  reported : ¬ m.Accepts call → Expanded.problems (call.expand p.macros macroDepth) ≠ []

namespace Source

variable {s : Text} {p : Source} {m : Macro} {c : Command}

theorem answers_of_macro? (h : c.macro? p.macros = some m) : m.Answers p c where
  found := h
  replaced haccepts := expand_of_accepts h haccepts _
  reported hnot := problems_of_not_accepts h hnot _

/-- The name of a macro stands in the line that starts it. -/
theorem isCallName_of_mem (h : Source.parse s = .ok p) (hm : m ∈ p.macros) :
    Command.IsCallName m.name := by
  obtain ⟨ps, hreads, -, rfl⟩ := parse_eq_ok_iff.1 h
  obtain ⟨x, hx, hmx⟩ := List.mem_flatMap.1 hm
  cases x with
  | line => cases hmx
  | block b =>
      obtain rfl := List.mem_singleton.1 hmx
      have hstart : b.start ∈ ps.flatMap Passage.commands :=
        List.mem_flatMap.2 ⟨_, hx, List.mem_append_left _ List.mem_cons_self⟩
      obtain ⟨n, l, hline⟩ := hreads.exists_line hstart
      exact Command.isCallName_of_start hline b.starts b.unlabelled

/-- **Every macro is called by its name.**  Let the name of a macro hold no white space.  If it does
not start with a point, the line of this name alone is a call that the macro answers.  If it does,
this line is a directive, or is not read, and calls no macro. -/
theorem answers_of_name (h : Source.parse s = .ok p) (hm : m ∈ p.macros)
    (hblank : m.name.hasBlank = false) (n : Nat) :
    (m.name.head? ≠ some '.' →
      ∃ c, Command.parse n m.name = .ok c ∧ c.operation = .instruction m.key ∧ m.Answers p c) ∧
    (m.name.head? = some '.' → ∀ c, Command.parse n m.name = .ok c →
      (∃ k, c.operation.directive? = some k) ∧ c.macro? p.macros = none) := by
  have hname := isCallName_of_mem h hm
  constructor
  · intro hpoint
    refine ⟨_, Command.parse_callName hname hblank hpoint n, rfl, answers_of_macro? ?_⟩
    exact (macro?_eq_some_iff (nodup_keys h)).2 ⟨hm, m.key, rfl, (Text.upper_upper _).symm⟩
  · intro hpoint c hparse
    obtain ⟨k, hk⟩ := Command.directive?_of_parse_callName hname hblank hpoint hparse
    exact ⟨⟨k, hk⟩, Command.macro?_of_directive? hk _⟩

/-- A source with a macro whose name is in brackets, and one that is named like a directive. -/
def oddNames : Text :=
  ".macro [x,y]\nINC AX\n.endmacro\n.macro .word\nHALT\n.endmacro\n".toList

/-- The name in brackets calls its macro, and the other one does not. -/
theorem answers_oddNames :
    ∃ p m m', Source.parse oddNames = .ok p ∧
      m ∈ p.macros ∧ m.name = "[x,y]".toList ∧ m.name.hasBlank = false ∧
      (∃ c, Command.parse 7 m.name = .ok c ∧ c.operation = .instruction "[X,Y]".toList ∧
        m.Answers p c) ∧
      m' ∈ p.macros ∧ m'.name = ".word".toList ∧ m'.name.hasBlank = false ∧
      ∃ c, Command.parse 7 m'.name = .ok c ∧ c.macro? p.macros = none := by
  have hparse : Source.parse oddNames = .ok ⟨[],
      [⟨"[x,y]".toList, [], [⟨2, none, .instruction "INC".toList, some (.register .ax), none⟩], 1⟩,
        ⟨".word".toList, [], [⟨5, none, .instruction "HALT".toList, none, none⟩], 4⟩]⟩ := by
    decide +kernel
  have hword : Command.parse 7 ".word".toList = .ok ⟨7, none, .data .word, none, none⟩ := by
    decide +kernel
  have hbracketed := answers_of_name hparse List.mem_cons_self (by decide) 7
  have hpointed := answers_of_name hparse (List.mem_cons_of_mem _ List.mem_cons_self) (by decide) 7
  exact ⟨_, _, _, hparse, List.mem_cons_self, rfl, by decide, hbracketed.1 (by decide),
    List.mem_cons_of_mem _ List.mem_cons_self, rfl, by decide,
    _, hword, (hpointed.2 rfl _ hword).2⟩

/-- **A macro that its name does not call**: the line of the name is not read. -/
theorem not_called_pointed :
    ∃ p m, Source.parse ".macro .m\nHALT\n.endmacro\n".toList = .ok p ∧ m ∈ p.macros ∧
      m.name = ".m".toList ∧ Command.parse 4 m.name = .error (.unknownDirective ".m".toList) := by
  have hparse : Source.parse ".macro .m\nHALT\n.endmacro\n".toList = .ok ⟨[],
      [⟨".m".toList, [], [⟨2, none, .instruction "HALT".toList, none, none⟩], 1⟩]⟩ := by
    decide +kernel
  exact ⟨_, _, hparse, List.mem_cons_self, rfl, by decide +kernel⟩

end Source

end WordMachine
