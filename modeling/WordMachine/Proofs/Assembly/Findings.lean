/-
**Every mistake is reported on its own.**

The second walk goes on after a mistake, with fewer words and bytes than the first walk had counted.
That has no effect on what it reports later.  Whether a command has words or bytes depends on its
operands and on the values of the names, and not on how many bytes come before it: the offset
decides only how many zeros an alignment stands for.  The section is never affected by a mistake.
And what could be wrong with the operands of a data directive, or with its section, was found by the
first walk.

So the mistakes of a walk are those of its commands, each taken alone.  The induction is on the
commands, the last one being taken off; what carries it is that the section is the one in force.

Main definitions:

* `Command.Faulty` — why a command has no words or bytes, when the names have the given values;
* `Command.diagnostic?` — what is to be reported of a command;
* `Command.Settled` — the first walk found nothing wrong with a command;
* `Program.Reports` — **what is reported of a program** that the first walk admits.

Main results:

* `Datum.bytes_eq_error_iff` — no offset decides whether a datum has bytes;
* `Emission.problems_step`, `Emission.problems_ofCommands` — the mistakes of a step and of a walk;
* `Program.reports_of_layout` — every mistake is reported, once and on its own.
-/

import WordMachine.Proofs.Assembly.Placement

set_option relaxedAutoImplicit false
set_option autoImplicit false

namespace WordMachine

variable {symbols : SymbolTable} {c : Command} {cs : List Command} {k : DataKind}

/-! ### Data without bytes -/

namespace Datum

/-- Why a datum has no bytes, wherever it stands. -/
def fault? (symbols : SymbolTable) : Datum → Option ValueError
  | word q =>
    match value symbols q with
    | .error cause => some cause
    | .ok _ => none
  | byte q =>
    match value symbols q with
    | .error cause => some cause
    | .ok v => if 0xFF < v.toNat then some (.byteTooWide v) else none
  | string _ | zeros _ | align _ => none

/-- **No offset decides** whether a datum has bytes. -/
theorem bytes_eq_error_iff {offset : Nat} {d : Datum} {cause : ValueError} :
    d.bytes symbols offset = .error cause ↔ d.fault? symbols = some cause := by
  cases d with
  | word q =>
      cases hq : value symbols q with
      | error cause' => simp [bytes, fault?, hq, bind, Except.bind]
      | ok v => simp [bytes, fault?, hq, bind, Except.bind, pure, Except.pure]
  | byte q =>
      cases hq : value symbols q with
      | error cause' => simp [bytes, fault?, hq, bind, Except.bind]
      | ok v =>
          by_cases hv : 0xFF < v.toNat
          · simp [bytes, fault?, hq, hv, bind, Except.bind, throw, throwThe, MonadExceptOf.throw]
          · simp [bytes, fault?, hq, hv, bind, Except.bind, pure, Except.pure]
  | string content | zeros n | align boundary => simp [bytes, fault?, pure, Except.pure]

/-- All directives but the room for indices have one operand. -/
theorem ofOperands_ok {a b : Option Operand} {d : Datum} (h : ofOperands k a b = .ok d)
    (hk : k ≠ .indices) : ∃ x, a = some x ∧ b = none ∧ ofOperand k x = .ok d := by
  cases k with
  | indices => exact absurd rfl hk
  | word | byte | string | space | align =>
      cases a with
      | none => exact nomatch h
      | some x =>
          cases b with
          | none => exact ⟨x, rfl, rfl, h⟩
          | some y => exact nomatch h

theorem fault?_word {q : Quantity} {cause : ValueError} :
    (word q).fault? symbols = some cause ↔ value symbols q = .error cause := by
  cases hq : value symbols q with
  | error cause' => simp [fault?, hq]
  | ok v => simp [fault?, hq]

theorem fault?_byte {q : Quantity} {cause : ValueError} :
    (byte q).fault? symbols = some cause ↔ value symbols q = .error cause ∨
      ∃ v, value symbols q = .ok v ∧ 0xFF < v.toNat ∧ cause = .byteTooWide v := by
  cases hq : value symbols q with
  | error cause' => simp [fault?, hq]
  | ok v => simp [fault?, hq, eq_comm]

/-- Directives other than those for a word and for a byte always have bytes. -/
theorem fault?_of_ofOperands {a b : Option Operand} {d : Datum} (h : ofOperands k a b = .ok d)
    (hword : k ≠ .word) (hbyte : k ≠ .byte) : d.fault? symbols = none := by
  cases k with
  | word => exact absurd rfl hword
  | byte => exact absurd rfl hbyte
  | string =>
      obtain ⟨x, rfl, rfl, hx⟩ := ofOperands_ok h nofun
      cases x with
      | quoted content =>
          obtain rfl := Except.ok.inj hx
          rfl
      | register | indirect | immediate | address | flag | label => exact nomatch hx
  | space =>
      obtain ⟨x, rfl, rfl, hx⟩ := ofOperands_ok h nofun
      cases x with
      | immediate n =>
          obtain rfl := Except.ok.inj hx
          rfl
      | register | indirect | address | flag | label | quoted => exact nomatch hx
  | align =>
      obtain ⟨x, rfl, rfl, hx⟩ := ofOperands_ok h nofun
      cases x with
      | immediate n =>
          simp only [ofOperand] at hx
          split at hx
          · obtain rfl := Except.ok.inj hx
            rfl
          · exact nomatch hx
      | register | indirect | address | flag | label | quoted => exact nomatch hx
  | indices =>
      simp only [ofOperands, ofRange] at h
      split at h
      · exact nomatch h
      · obtain ⟨first, -, h⟩ := Except.bind_eq_ok.1 h
        obtain ⟨last, -, h⟩ := Except.bind_eq_ok.1 h
        split at h
        · exact nomatch h
        · obtain rfl := Except.ok.inj h
          rfl

/-- The number that an operand stands for, as itself or by its name. -/
def amount? (symbols : SymbolTable) : Option Operand → Option UInt32
  | some (.immediate v) => some v
  | some (.label name) => symbols.value? name
  | _ => none

variable {a : Operand} {q : Quantity}

/-- The operand of a word or of a byte stands for a number when it has a value. -/
theorem value_eq_ok_iff (h : quantity k a = .ok q) {v : UInt32} :
    value symbols q = .ok v ↔ amount? symbols (some a) = some v := by
  cases a with
  | immediate n =>
      obtain rfl := Except.ok.inj h
      simp [value, amount?]
  | label name =>
      obtain rfl := Except.ok.inj h
      cases hv : symbols.value? name with
      | none => simp [value, amount?, hv]
      | some n => simp [value, amount?, hv]
  | register | indirect | address | flag | quoted => exact nomatch h

/-- The operand of a word or of a byte has no value only if it is a name without one. -/
theorem value_eq_error_iff (h : quantity k a = .ok q) {cause : ValueError} :
    value symbols q = .error cause ↔
      ∃ name, a = .label name ∧ symbols.value? name = none ∧ cause = .unknownLabel name := by
  cases a with
  | immediate n =>
      obtain rfl := Except.ok.inj h
      simp [value]
  | label name =>
      obtain rfl := Except.ok.inj h
      cases hv : symbols.value? name with
      | none => simp [value, hv, eq_comm]
      | some n => simp [value, hv]
  | register | indirect | address | flag | quoted => exact nomatch h

end Datum

/-! ### Commands without words or bytes -/

namespace Command

/-- **A command has no words or bytes**, when the names have the given values: an instruction that
has no word, a word or a byte with a name that has no value, or a byte of more than eight bits. -/
inductive Faulty (symbols : SymbolTable) (c : Command) : EmissionError → Prop
  | instruction {mnemonic : Text} {cause : EncodingError}
      (hop : c.operation = .instruction mnemonic)
      (h : Instruction.encodeNamed symbols mnemonic c.a c.b = .error cause) :
      Faulty symbols c (.instruction cause)
  | unknownLabel {k : DataKind} {name : Text} (hop : c.operation = .data k)
      (hk : k = .word ∨ k = .byte) (ha : c.a = some (.label name))
      (h : symbols.value? name = none) : Faulty symbols c (.value (.unknownLabel name))
  | byteTooWide {v : UInt32} (hop : c.operation = .data .byte) (ha : Datum.amount? symbols c.a = some v)
      (h : 0xFF < v.toNat) : Faulty symbols c (.value (.byteTooWide v))

/-- Why a command has no words or bytes. -/
def cause? (symbols : SymbolTable) (c : Command) : Option EmissionError :=
  match c.operation with
  | .instruction mnemonic =>
    match Instruction.encodeNamed symbols mnemonic c.a c.b with
    | .error cause => some (.instruction cause)
    | .ok _ => none
  | .data k =>
    match Datum.ofOperands k c.a c.b with
    | .error _ => none
    | .ok d => (d.fault? symbols).map .value
  | _ => none

/-- **What is to be reported of a command**: why it has no words or bytes, on its line. -/
def diagnostic? (symbols : SymbolTable) (c : Command) : Option (Diagnostic EmissionError) :=
  (c.cause? symbols).map (⟨c.line, ·⟩)

/-- **Nothing is wrong with a data directive** but perhaps its value: its operands are those of its
kind, and it stands in the data, or is an alignment. -/
structure Settled (current : Section) (c : Command) : Prop where
  operands : ∀ k, c.operation = .data k → ∃ d, Datum.ofOperands k c.a c.b = .ok d
  inData : ∀ k, c.operation = .data k → current = .text → k = .align

/-- What is wrong with the value of a data directive. -/
theorem faulty_value_iff {d : Datum} {cause : Datum.ValueError} (hop : c.operation = .data k)
    (hd : Datum.ofOperands k c.a c.b = .ok d) :
    c.Faulty symbols (.value cause) ↔ d.fault? symbols = some cause := by
  cases k with
  | word =>
      obtain ⟨x, hx, -, hread⟩ := Datum.ofOperands_ok hd nofun
      obtain ⟨q, hq, hword⟩ := Except.bind_eq_ok.1 hread
      obtain rfl := Except.ok.inj hword
      rw [Datum.fault?_word, Datum.value_eq_error_iff hq]
      constructor
      · intro h
        cases h with
        | unknownLabel hop' hk ha hnone => exact ⟨_, Option.some.inj (hx.symm.trans ha), hnone, rfl⟩
        | byteTooWide hop' => exact nomatch hop.symm.trans hop'
      · rintro ⟨name, rfl, hnone, rfl⟩
        exact .unknownLabel hop (Or.inl rfl) hx hnone
  | byte =>
      obtain ⟨x, hx, -, hread⟩ := Datum.ofOperands_ok hd nofun
      obtain ⟨q, hq, hbyte⟩ := Except.bind_eq_ok.1 hread
      obtain rfl := Except.ok.inj hbyte
      rw [Datum.fault?_byte, Datum.value_eq_error_iff hq]
      constructor
      · intro h
        cases h with
        | unknownLabel hop' hk ha hnone =>
            exact Or.inl ⟨_, Option.some.inj (hx.symm.trans ha), hnone, rfl⟩
        | byteTooWide hop' ha hwide =>
            exact Or.inr ⟨_, (Datum.value_eq_ok_iff hq).2 (hx ▸ ha), hwide, rfl⟩
      · rintro (⟨name, rfl, hnone, rfl⟩ | ⟨v, hv, hwide, rfl⟩)
        · exact .unknownLabel hop (Or.inr rfl) hx hnone
        · exact .byteTooWide hop (hx ▸ (Datum.value_eq_ok_iff hq).1 hv) hwide
  | string | space | align | indices =>
      rw [Datum.fault?_of_ofOperands hd nofun nofun]
      constructor
      · intro h
        cases h with
        | unknownLabel hop' hk => rcases hk with rfl | rfl <;> exact nomatch hop.symm.trans hop'
        | byteTooWide hop' => exact nomatch hop.symm.trans hop'
      · intro h
        exact nomatch h

/-- **The cause is the reason why there are no words or bytes**, for a command whose operands the
first walk has admitted. -/
theorem cause?_eq_some_iff
    (hc : ∀ k, c.operation = .data k → ∃ d, Datum.ofOperands k c.a c.b = .ok d)
    {cause : EmissionError} : c.cause? symbols = some cause ↔ c.Faulty symbols cause := by
  constructor
  · intro h
    unfold cause? at h
    split at h
    · rename_i mnemonic hop
      cases hw : Instruction.encodeNamed symbols mnemonic c.a c.b with
      | ok w =>
          rw [hw] at h
          exact nomatch h
      | error cause' =>
          rw [hw] at h
          obtain rfl := Option.some.inj h
          exact .instruction hop hw
    · rename_i k hop
      obtain ⟨d, hd⟩ := hc k hop
      simp only [hd] at h
      obtain ⟨cause', hfault, rfl⟩ := Option.map_eq_some_iff.1 h
      exact (faulty_value_iff hop hd).2 hfault
    · exact nomatch h
  · intro h
    have hvalue : ∀ {k cause'}, c.operation = .data k → c.Faulty symbols (.value cause') →
        c.cause? symbols = some (.value cause') := by
      intro k cause' hop h
      obtain ⟨d, hd⟩ := hc k hop
      simp [cause?, hop, hd, (faulty_value_iff hop hd).1 h]
    cases h with
    | instruction hop hw => simp [cause?, hop, hw]
    | unknownLabel hop hk ha hnone => exact hvalue hop (.unknownLabel hop hk ha hnone)
    | byteTooWide hop ha hwide => exact hvalue hop (.byteTooWide hop ha hwide)

/-- A command is reported on its line, for the reason why it has no words or bytes. -/
theorem diagnostic?_eq_some
    (hc : ∀ k, c.operation = .data k → ∃ d, Datum.ofOperands k c.a c.b = .ok d) {line : Nat}
    {cause : EmissionError} : c.diagnostic? symbols = some ⟨line, cause⟩ ↔
      line = c.line ∧ c.Faulty symbols cause := by
  rw [← cause?_eq_some_iff hc, diagnostic?]
  cases c.cause? symbols with
  | none => simp
  | some cause' => simp [eq_comm]

end Command

/-! ### The mistakes of a step and of a walk -/

namespace Emission

variable {e : Emission}

/-- The bytes of a data directive are missing for the reason that the command has by itself. -/
theorem dataBytes_eq_error_iff {offset : Nat} {d : Datum} {cause : EmissionError}
    (hop : c.operation = .data k) (hd : Datum.ofOperands k c.a c.b = .ok d) :
    dataBytes symbols offset k c = .error cause ↔ c.cause? symbols = some cause := by
  have hbytes : dataBytes symbols offset k c = (d.bytes symbols offset).mapError .value := by
    rw [dataBytes, hd]
    rfl
  have hcause : c.cause? symbols = (d.fault? symbols).map .value := by
    simp only [Command.cause?, hop, hd]
  rw [hbytes, hcause, Except.mapError_eq_error, Option.map_eq_some_iff]
  simp only [Datum.bytes_eq_error_iff]

/-- The section and the operands of a command that the first walk has admitted. -/
theorem settled_of_concat (h : (Survey.ofCommands (cs ++ [c])).problems = #[]) :
    c.Settled (Section.inForce cs) := by
  have hvisited := Survey.visited_of_concat h
  have hcurrent := Survey.current_ofCommands (Survey.problems_of_append h)
  exact ⟨hvisited.operands, fun k hop htext => hvisited.inData k hop (hcurrent.trans htext)⟩

theorem problems_addData (hc : c.Settled e.current) (hop : c.operation = .data k) :
    (addData symbols e c k).problems.toList =
      e.problems.toList ++ (c.diagnostic? symbols).toList := by
  obtain ⟨d, hd⟩ := hc.operands k hop
  unfold addData
  rcases e.current.eq_text_or_eq_data with htext | hdata
  · -- Only an alignment stands in the text, and an alignment has no value that could be wrong.
    obtain rfl := hc.inData k hop htext
    have hnone : c.diagnostic? symbols = none := by
      simp [Command.diagnostic?, Command.cause?, hop, hd, Datum.fault?_of_ofOperands hd]
    simp [htext, hnone]
  · cases hbytes : dataBytes symbols e.data.size k c with
    | error cause =>
        have hcause := (dataBytes_eq_error_iff hop hd).1 hbytes
        simp [hdata, report, Command.diagnostic?, hcause]
    | ok bytes =>
        have hnone : c.cause? symbols = none := by
          refine Option.eq_none_iff_forall_ne_some.2 fun cause hcause => ?_
          have herror := hbytes.symm.trans ((dataBytes_eq_error_iff hop hd).2 hcause)
          contradiction
        simp [hdata, Command.diagnostic?, hnone]

theorem problems_addInstruction {mnemonic : Text} (hop : c.operation = .instruction mnemonic) :
    (addInstruction symbols e c mnemonic).problems.toList =
      e.problems.toList ++ (c.diagnostic? symbols).toList := by
  unfold addInstruction
  cases hw : Instruction.encodeNamed symbols mnemonic c.a c.b with
  | error cause => simp [report, Command.diagnostic?, Command.cause?, hop, hw]
  | ok w => simp [Command.diagnostic?, Command.cause?, hop, hw]

/-- **A step reports what is to be reported of its command**, whatever happened before it. -/
theorem problems_step (hc : c.Settled e.current) :
    (step symbols e c).problems.toList =
      e.problems.toList ++ (c.diagnostic? symbols).toList := by
  unfold step
  cases hop : c.operation with
  | data k => exact problems_addData hc hop
  | instruction mnemonic => exact problems_addInstruction hop
  | enter | blank | equate | setting | macroStart | macroEnd =>
      simp [Command.diagnostic?, Command.cause?, hop]

/-- **A walk reports what is to be reported of each of its commands**, in their order. -/
theorem problems_ofCommands (h : (Survey.ofCommands cs).problems = #[]) :
    (ofCommands symbols cs).problems.toList = cs.filterMap (Command.diagnostic? symbols) := by
  induction cs using List.reverseRecOn with
  | nil => rfl
  | append_singleton cs c ih =>
      have hsettled : c.Settled (ofCommands symbols cs).current := by
        rw [current_ofCommands]
        exact settled_of_concat h
      rw [ofCommands_concat, problems_step hsettled, ih (Survey.problems_of_append h),
        List.filterMap_append]
      cases hd : c.diagnostic? symbols with
      | none => simp [hd]
      | some d => simp [hd]

end Emission

/-! ### What is reported of a program -/

namespace Program

variable {memory : MemorySize} {source : Text} {l : Layout}

/-- A program is refused exactly if its second walk finds mistakes, and with these. -/
theorem ofLayout_eq_error_iff {e : AssemblyError} :
    ofLayout l cs = .error e ↔
      (Emission.ofCommands l.symbols cs).problems.toList ≠ [] ∧
        e = .emission (Emission.ofCommands l.symbols cs).problems.toList := by
  unfold ofLayout
  cases hproblems : (Emission.ofCommands l.symbols cs).problems.toList with
  | nil => simp [hproblems]
  | cons d ds => simp [hproblems, eq_comm]

/-- **What is reported of a program** with the commands `cs` and the layout `l`. -/
structure Reports (memory : MemorySize) (source : Text) (cs : List Command) (l : Layout) :
    Prop where
  /-- The program is refused exactly if a command has no words or bytes. -/
  refused_iff : (∃ e, assemble memory source = .error e) ↔
    ∃ c ∈ cs, ∃ cause, c.Faulty l.symbols cause
  /-- Then these commands are reported, in their order, and nothing else. -/
  refused : ∀ e, assemble memory source = .error e →
    e = .emission (cs.filterMap (Command.diagnostic? l.symbols))
  /-- Each of them is reported once, with its line and the reason. -/
  diagnostic?_eq_some_iff : ∀ c ∈ cs, ∀ line cause,
    c.diagnostic? l.symbols = some ⟨line, cause⟩ ↔ line = c.line ∧ c.Faulty l.symbols cause
  /-- What is said of a command is the wording of its reason. -/
  diagnostics : ∀ e, assemble memory source = .error e →
    e.diagnostics = cs.filterMap fun c =>
      (c.cause? l.symbols).map fun cause => ⟨c.line, cause.message⟩
  /-- A command is reported on its own, whatever was emitted and reported before it. -/
  alone : ∀ before c after, cs = before ++ c :: after →
    ∀ e : Emission, e.current = Section.inForce before →
      (e.step l.symbols c).problems.toList =
        e.problems.toList ++ (c.diagnostic? l.symbols).toList
  /-- The operands and the section of a data directive are no matter of the second walk. -/
  settled : ∀ before c after, cs = before ++ c :: after → c.Settled (Section.inForce before)
  /-- Whatever comes before a data directive, nothing is wrong with its operands. -/
  operands : ∀ c ∈ cs, ∀ k, c.operation = .data k → ∀ offset cause,
    Emission.dataBytes l.symbols offset k c ≠ .error (.operands cause)

/-- The section and the operands of every command of a program with a layout. -/
theorem settled_of_layout (hl : Layout.ofCommands memory cs = .ok l) {before after : List Command}
    (h : cs = before ++ c :: after) : c.Settled (Section.inForce before) := by
  obtain ⟨hsurveyed, -, -⟩ := layout_ok hl
  rw [h, List.append_cons] at hsurveyed
  exact Emission.settled_of_concat (Survey.problems_of_append hsurveyed)

theorem operands_of_layout (hl : Layout.ofCommands memory cs = .ok l) (hc : c ∈ cs) :
    ∀ k, c.operation = .data k → ∃ d, Datum.ofOperands k c.a c.b = .ok d := by
  obtain ⟨before, after, h⟩ := List.append_of_mem hc
  exact (settled_of_layout hl h).operands

/-- A program with a layout is refused for what is to be reported of its commands. -/
theorem assemble_eq_error_iff (hcs : commands source = .ok cs)
    (hl : Layout.ofCommands memory cs = .ok l) {e : AssemblyError} :
    assemble memory source = .error e ↔
      cs.filterMap (Command.diagnostic? l.symbols) ≠ [] ∧
        e = .emission (cs.filterMap (Command.diagnostic? l.symbols)) := by
  have hassemble : assemble memory source = ofLayout l cs := by
    rw [assemble, hcs]
    show ((Layout.ofCommands memory cs).mapError .layout >>= fun l => ofLayout l cs) = _
    rw [hl]
    rfl
  obtain ⟨hsurveyed, -, -⟩ := layout_ok hl
  rw [hassemble, ofLayout_eq_error_iff, Emission.problems_ofCommands hsurveyed]

/-- **Every mistake is reported, once and on its own**, in a program that the first walk admits. -/
theorem reports_of_layout (hcs : commands source = .ok cs)
    (hl : Layout.ofCommands memory cs = .ok l) : Reports memory source cs l := by
  refine ⟨⟨?_, ?_⟩, ?_, ?_, ?_, ?_, ?_, ?_⟩
  · rintro ⟨e, he⟩
    obtain ⟨hne, -⟩ := (assemble_eq_error_iff hcs hl).1 he
    obtain ⟨⟨line, cause⟩, hmem⟩ := List.exists_mem_of_ne_nil _ hne
    obtain ⟨c, hc, hd⟩ := List.mem_filterMap.1 hmem
    exact ⟨c, hc, cause, ((Command.diagnostic?_eq_some (operands_of_layout hl hc)).1 hd).2⟩
  · rintro ⟨c, hc, cause, hfaulty⟩
    have hd := (Command.diagnostic?_eq_some (operands_of_layout hl hc)).2 ⟨rfl, hfaulty⟩
    have hne := List.ne_nil_of_mem (List.mem_filterMap.2 ⟨c, hc, hd⟩)
    exact ⟨_, (assemble_eq_error_iff hcs hl).2 ⟨hne, rfl⟩⟩
  · intro e he
    exact ((assemble_eq_error_iff hcs hl).1 he).2
  · intro c hc line cause
    exact Command.diagnostic?_eq_some (operands_of_layout hl hc)
  · intro e he
    obtain ⟨-, rfl⟩ := (assemble_eq_error_iff hcs hl).1 he
    rw [AssemblyError.diagnostics, List.map_filterMap]
    simp only [Command.diagnostic?, Option.map_map]
    rfl
  · intro before c after hsplit e he
    exact Emission.problems_step (he ▸ settled_of_layout hl hsplit)
  · intro before c after hsplit
    exact settled_of_layout hl hsplit
  · intro c hc k hop offset cause h
    obtain ⟨d, hd⟩ := operands_of_layout hl hc k hop
    have hcause := (Emission.dataBytes_eq_error_iff hop hd).1 h
    exact nomatch (Command.cause?_eq_some_iff (operands_of_layout hl hc)).1 hcause

/-- A source with four mistakes, of which two stand in front of an alignment. -/
def mistakenSource : Text :=
  "JMP up\nINC AX\n.data\n.byte 256\n.word down\nx: .byte 1\n.align 4\n.byte x".toList

/-- The four mistakes are reported, with the value that the first walk gave to the label. -/
theorem reports_mistakenSource :
    ∃ cs l, commands mistakenSource = .ok cs ∧ Layout.ofCommands .standard cs = .ok l ∧
      Reports .standard mistakenSource cs l ∧
      cs.filterMap (Command.diagnostic? l.symbols) =
        [⟨1, .instruction (.misfit .jmp (.unknownLabel "up".toList))⟩,
          ⟨4, .value (.byteTooWide 256)⟩, ⟨5, .value (.unknownLabel "down".toList)⟩,
          ⟨8, .value (.byteTooWide 61436)⟩] := by
  have hassemble : assemble .standard mistakenSource = .error (.emission
      [⟨1, .instruction (.misfit .jmp (.unknownLabel "up".toList))⟩,
        ⟨4, .value (.byteTooWide 256)⟩, ⟨5, .value (.unknownLabel "down".toList)⟩,
        ⟨8, .value (.byteTooWide 61436)⟩]) := by
    decide +kernel
  have hadmitted : ((commands mistakenSource).toOption.bind fun cs =>
      (Layout.ofCommands .standard cs).toOption).isSome := by
    decide +kernel
  cases hcs : commands mistakenSource with
  | error e =>
      rw [hcs] at hadmitted
      exact nomatch hadmitted
  | ok cs =>
      cases hl : Layout.ofCommands .standard cs with
      | error ds =>
          rw [hcs] at hadmitted
          simp [Except.toOption, hl] at hadmitted
      | ok l =>
          have hreports := reports_of_layout hcs hl
          refine ⟨cs, l, rfl, hl, hreports, ?_⟩
          exact (AssemblyError.emission.inj (hreports.refused _ hassemble)).symm

end Program

end WordMachine
