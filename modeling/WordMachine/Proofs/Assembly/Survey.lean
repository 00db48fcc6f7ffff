/-
**What the first walk finds.**

A visit of the first walk either fails or does a few definite things: it defines the names of the
command, counts the bytes that the command stands for, and moves to the section that the command
enters.  `Survey.Visited` lists them all, and `Survey.visited_of_visit` says that a visit that does
not fail does just that.  What a whole walk without mistakes finds follows by induction on its
commands, the last one being taken off.

Main definitions:

* `Survey.definitionsOf`, `Survey.extend` — the definitions of a command;
* `Survey.Admits` — the definitions are of new names, and their values have 32 bits;
* `Survey.Visited` — everything that a visit without a mistake does.

Main results:

* `Survey.visited_of_visit` — a visit without a mistake does what `Survey.Visited` says;
* `Survey.current_ofCommands`, `Survey.textSize_ofCommands` — the section and the size of the text
  after a walk without mistakes;
* `Survey.names_ofCommands`, `Survey.nodup_names` — every name is defined exactly once;
* `Survey.sheltered_ofCommands` — no label lies beyond the end of its segment.
-/

import WordMachine.Assembly.Layout
import WordMachine.Proofs.Except
import WordMachine.Proofs.Assembly.Commands
import Mathlib.Data.List.Induction

set_option relaxedAutoImplicit false
set_option autoImplicit false

namespace WordMachine

namespace Survey

variable {s t : Survey} {c : Command}

/-! ### Definitions -/

/-- The names that have been defined. -/
def names (s : Survey) : List Text := s.definitions.toList.map Definition.name

/-- The survey with further definitions. -/
def extend (s : Survey) (ds : List Definition) : Survey :=
  { s with definitions := s.definitions ++ ds.toArray }

@[simp] theorem extend_nil (s : Survey) : s.extend [] = s := by simp [extend]

@[simp] theorem extend_extend (s : Survey) (ds es : List Definition) :
    (s.extend ds).extend es = s.extend (ds ++ es) := by simp [extend, Array.append_assoc]

@[simp] theorem names_extend (s : Survey) (ds : List Definition) :
    (s.extend ds).names = s.names ++ ds.map Definition.name := by simp [names, extend]

/-- The definition of the label of a command. -/
def labelDefinitions (s : Survey) (c : Command) : List Definition :=
  match c.label with
  | some name => [⟨name, s.current.origin, s.offset, c.line⟩]
  | none => []

/-- The definition of the name that a command gives to a number. -/
def numberDefinitions (c : Command) : List Definition :=
  match c.operation, c.a, c.b with
  | .equate, some (.label name), some (.immediate v) => [⟨name, .absolute, v.toNat, c.line⟩]
  | _, _, _ => []

/-- The definitions of a command. -/
def definitionsOf (s : Survey) (c : Command) : List Definition :=
  s.labelDefinitions c ++ numberDefinitions c

/-- The definitions can be added: their names are new and differ from each other, and their values
have 32 bits. -/
structure Admits (s : Survey) (ds : List Definition) : Prop where
  nodup : (ds.map Definition.name).Nodup
  fresh : ∀ d ∈ ds, d.name ∉ s.names
  narrow : ∀ d ∈ ds, d.value < 2 ^ 32

theorem Admits.nil (s : Survey) : s.Admits [] := ⟨by simp, by simp, by simp⟩

theorem Admits.append {ds es : List Definition} (hd : s.Admits ds)
    (he : (s.extend ds).Admits es) : s.Admits (ds ++ es) := by
  have hfresh : ∀ e ∈ es, e.name ∉ s.names ∧ e.name ∉ ds.map Definition.name := by
    intro e hmem
    simpa using he.fresh e hmem
  refine ⟨?_, ?_, ?_⟩
  · rw [List.map_append, List.nodup_append]
    refine ⟨hd.nodup, he.nodup, ?_⟩
    intro n hn m hm hnm
    obtain ⟨e, hmem, rfl⟩ := List.mem_map.1 hm
    exact (hfresh e hmem).2 (hnm ▸ hn)
  · intro d hmem
    rcases List.mem_append.1 hmem with h | h
    · exact hd.fresh d h
    · exact (hfresh d h).1
  · intro d hmem
    rcases List.mem_append.1 hmem with h | h
    · exact hd.narrow d h
    · exact he.narrow d h

theorem not_mem_names_of_find? {name : Text} (h : s.find? name = none) : name ∉ s.names := by
  intro hn
  obtain ⟨d, hd, rfl⟩ := List.mem_map.1 hn
  have := Array.find?_eq_none.1 h d (by simpa using hd)
  simp at this

/-- A definition that does not fail adds one admissible name. -/
theorem define_ok {d : Definition} (h : s.define d = .ok t) :
    t = s.extend [d] ∧ s.Admits [d] := by
  unfold define at h
  split at h
  · contradiction
  · rename_i hnone
    split at h
    · contradiction
    · rename_i hlt
      cases h
      refine ⟨by simp [extend], ?_, ?_, ?_⟩
      · simp
      · simpa using not_mem_names_of_find? hnone
      · simpa using hlt

theorem defineLabel_ok (h : s.defineLabel c = .ok t) :
    t = s.extend (s.labelDefinitions c) ∧ s.Admits (s.labelDefinitions c) := by
  unfold defineLabel at h
  unfold labelDefinitions
  cases hl : c.label with
  | none =>
      rw [hl] at h
      cases h
      exact ⟨(extend_nil s).symm, Admits.nil s⟩
  | some name =>
      rw [hl] at h
      exact define_ok h

/-! ### One visit -/

/-- **Everything that a visit without a mistake does**, and what it requires of the command. -/
structure Visited (s : Survey) (c : Command) (t : Survey) : Prop where
  current : t.current = s.current.after c
  textSize : t.textSize = s.textSize + if c.isInstruction then 4 else 0
  dataSize : t.dataSize = s.dataSize + c.dataBytes s.current s.dataSize
  definitions : t.definitions.toList = s.definitions.toList ++ s.definitionsOf c
  admits : s.Admits (s.definitionsOf c)
  problems : t.problems = s.problems
  equate : c.operation = .equate → ∃ name v, c.a = some (.label name) ∧ c.b = some (.immediate v)
  operands : ∀ k, c.operation = .data k → ∃ d, Datum.ofOperands k c.a c.b = .ok d
  inData : ∀ k, c.operation = .data k → s.current = .text → k = .align
  inText : c.isInstruction → s.current = .text

/-- Entering a section does nothing else. -/
theorem enter_ok {target : Section} (h : s.enter c target = .ok t) :
    t = { s with current := target } := by
  unfold enter at h
  split at h
  · contradiction
  · cases h; rfl

/-- Placing a segment touches neither the section nor the names nor the counts. -/
theorem place_ok {setting : Setting} {v : UInt32} (h : s.place setting v = .ok t) :
    t.current = s.current ∧ t.textSize = s.textSize ∧ t.dataSize = s.dataSize ∧
      t.definitions = s.definitions ∧ t.problems = s.problems := by
  unfold place at h
  cases setting with
  | textStart =>
      simp only at h
      split at h
      · contradiction
      · cases h; exact ⟨rfl, rfl, rfl, rfl, rfl⟩
  | stackStart =>
      simp only at h
      split at h
      · contradiction
      · cases h; exact ⟨rfl, rfl, rfl, rfl, rfl⟩
  | stackSize =>
      simp only at h
      split at h
      · contradiction
      · cases h; exact ⟨rfl, rfl, rfl, rfl, rfl⟩

theorem addData_ok {k : DataKind} (hk : c.operation = .data k) (h : s.addData c k = .ok t) :
    t = { s with dataSize := s.dataSize + c.dataBytes s.current s.dataSize } ∧
      (∃ d, Datum.ofOperands k c.a c.b = .ok d) ∧ (s.current = .text → k = .align) := by
  unfold addData at h
  split at h
  · contradiction
  · rename_i hsection
    cases hd : Datum.ofOperands k c.a c.b with
    | error e => rw [hd] at h; contradiction
    | ok d =>
        rw [hd] at h
        refine ⟨?_, ⟨d, rfl⟩, fun hc => by simpa [hc] using hsection⟩
        rcases s.current.eq_text_or_eq_data with hc | hc
        · have hbytes : c.dataBytes s.current s.dataSize = 0 := by simp [Command.dataBytes, hc]
          simp only [hc] at h
          cases h
          simp [hbytes]
        · have hbytes : c.dataBytes s.current s.dataSize = d.size s.dataSize := by
            simp [Command.dataBytes, hc, hk, hd]
          simp only [hc] at h
          cases h
          rw [hbytes, hc]

theorem addInstruction_ok {mnemonic : Text} (h : s.addInstruction mnemonic = .ok t) :
    t = { s with textSize := s.textSize + 4 } ∧ s.current = .text := by
  unfold addInstruction at h
  cases hc : s.current with
  | text =>
      simp only [hc] at h
      cases h
      exact ⟨rfl, rfl⟩
  | data =>
      simp only [hc] at h
      contradiction

theorem equate_ok (hop : c.operation = .equate) (h : s.equate c = .ok t) :
    t = s.extend (s.definitionsOf c) ∧ s.Admits (s.definitionsOf c) ∧
      ∃ name v, c.a = some (.label name) ∧ c.b = some (.immediate v) := by
  unfold equate at h
  split at h
  · rename_i name v ha hb
    obtain ⟨u, hu, ht⟩ := Except.bind_eq_ok.1 h
    obtain ⟨rfl, hlabel⟩ := defineLabel_ok hu
    obtain ⟨rfl, hname⟩ := define_ok ht
    have hdefs : s.definitionsOf c =
        s.labelDefinitions c ++ [⟨name, .absolute, v.toNat, c.line⟩] := by
      simp [definitionsOf, numberDefinitions, hop, ha, hb]
    rw [hdefs]
    exact ⟨extend_extend _ _ _, hlabel.append hname, name, v, ha, hb⟩
  · contradiction
  · contradiction

/-- A command that names no number defines its label only. -/
theorem definitionsOf_of_ne (hop : c.operation ≠ .equate) :
    s.definitionsOf c = s.labelDefinitions c := by
  unfold definitionsOf numberDefinitions
  split
  · contradiction
  · exact List.append_nil _

/-- A command that names no number defines its label, and then does what its operation asks for. -/
theorem visited_of_label {u : Survey} (hop : c.operation ≠ .equate)
    (hu : s.defineLabel c = .ok u) (hdefinitions : t.definitions = u.definitions)
    (hproblems : t.problems = u.problems)
    (hcurrent : t.current = u.current.after c)
    (htextSize : t.textSize = u.textSize + if c.isInstruction then 4 else 0)
    (hdataSize : t.dataSize = u.dataSize + c.dataBytes u.current u.dataSize)
    (hoperands : ∀ k, c.operation = .data k → ∃ d, Datum.ofOperands k c.a c.b = .ok d)
    (hinData : ∀ k, c.operation = .data k → u.current = .text → k = .align)
    (hinText : c.isInstruction → u.current = .text) : s.Visited c t := by
  obtain ⟨rfl, hadmits⟩ := defineLabel_ok hu
  have hdefs : s.definitionsOf c = s.labelDefinitions c := definitionsOf_of_ne hop
  refine ⟨hcurrent, htextSize, hdataSize, ?_, ?_, hproblems, fun h => absurd h hop, hoperands,
    hinData, hinText⟩
  · rw [hdefinitions, hdefs]
    simp [extend]
  · rw [hdefs]
    exact hadmits

/-- A command that is neither a data directive nor an instruction counts nothing. -/
theorem visited_of_silent {u : Survey} (hop : c.operation ≠ .equate)
    (hinstruction : ∀ mnemonic, c.operation ≠ .instruction mnemonic)
    (hdirective : ∀ k, c.operation ≠ .data k) (hu : s.defineLabel c = .ok u)
    (hdefinitions : t.definitions = u.definitions) (hproblems : t.problems = u.problems)
    (hcurrent : t.current = u.current.after c) (htextSize : t.textSize = u.textSize)
    (hdataSize : t.dataSize = u.dataSize) : s.Visited c t := by
  have hfalse : c.isInstruction = false := Command.isInstruction_of_ne hinstruction
  refine visited_of_label hop hu hdefinitions hproblems hcurrent ?_ ?_ ?_ ?_ ?_
  · rw [htextSize, hfalse]
    rfl
  · rw [hdataSize, Command.dataBytes_of_ne hdirective, Nat.add_zero]
  · exact fun k hk => absurd hk (hdirective k)
  · exact fun k hk => absurd hk (hdirective k)
  · exact fun h => absurd (hfalse.symm.trans h) Bool.false_ne_true

/-- **A visit without a mistake does what it should**, whatever the command. -/
theorem visited_of_visit (h : s.visit c = .ok t) : s.Visited c t := by
  unfold visit at h
  cases hop : c.operation with
  | equate =>
      simp only [hop] at h
      obtain ⟨rfl, hadmits, hequate⟩ := equate_ok hop h
      refine ⟨?_, ?_, ?_, ?_, hadmits, rfl, fun _ => hequate, ?_, ?_, ?_⟩
      · simp [extend, Section.after, hop]
      · simp [extend, Command.isInstruction, hop]
      · simp [extend, Command.dataBytes, hop]
      · simp [extend]
      · simp [hop]
      · simp [hop]
      · simp [Command.isInstruction, hop]
  | blank =>
      simp only [hop] at h
      refine visited_of_silent ?_ ?_ ?_ h rfl rfl ?_ rfl rfl
      · simp [hop]
      · simp [hop]
      · simp [hop]
      · simp [Section.after, hop]
  | enter target =>
      simp only [hop] at h
      obtain ⟨u, hu, ht⟩ := Except.bind_eq_ok.1 h
      obtain rfl := enter_ok ht
      refine visited_of_silent ?_ ?_ ?_ hu rfl rfl ?_ rfl rfl
      · simp [hop]
      · simp [hop]
      · simp [hop]
      · simp [Section.after, hop]
  | setting setting v =>
      simp only [hop] at h
      obtain ⟨u, hu, ht⟩ := Except.bind_eq_ok.1 h
      obtain ⟨hcurrent, htext, hdata, hdefinitions, hproblems⟩ := place_ok ht
      refine visited_of_silent ?_ ?_ ?_ hu hdefinitions hproblems ?_ htext hdata
      · simp [hop]
      · simp [hop]
      · simp [hop]
      · simp [hcurrent, Section.after, hop]
  | data k =>
      simp only [hop] at h
      obtain ⟨u, hu, ht⟩ := Except.bind_eq_ok.1 h
      obtain ⟨rfl, hoperands, halign⟩ := addData_ok hop ht
      refine visited_of_label (by simp [hop]) hu rfl rfl ?_ ?_ rfl ?_ ?_ ?_
      · simp [Section.after, hop]
      · simp [Command.isInstruction, hop]
      · intro k' hk'
        cases hop.symm.trans hk'
        exact hoperands
      · intro k' hk' hcurrent
        cases hop.symm.trans hk'
        exact halign hcurrent
      · simp [Command.isInstruction, hop]
  | instruction mnemonic =>
      simp only [hop] at h
      obtain ⟨u, hu, ht⟩ := Except.bind_eq_ok.1 h
      obtain ⟨rfl, hcurrent⟩ := addInstruction_ok ht
      refine visited_of_label (by simp [hop]) hu rfl rfl ?_ ?_ ?_ ?_ ?_ ?_
      · simp [Section.after, hop]
      · simp [Command.isInstruction, hop]
      · simp [Command.dataBytes, hop]
      · simp [hop]
      · simp [hop]
      · exact fun _ => hcurrent
  | macroStart | macroEnd =>
      simp only [hop] at h
      obtain ⟨u, _, ht⟩ := Except.bind_eq_ok.1 h
      cases ht

/-- A visit without a mistake defines the names of its command. -/
theorem Visited.map_name (h : s.Visited c t) :
    (s.definitionsOf c).map Definition.name = c.names := by
  have hlabel : (s.labelDefinitions c).map Definition.name = c.label.toList := by
    unfold labelDefinitions
    cases c.label with
    | none => rfl
    | some name => rfl
  have hnumber : (numberDefinitions c).map Definition.name = c.equated?.toList := by
    by_cases hop : c.operation = .equate
    · obtain ⟨name, v, ha, hb⟩ := h.equate hop
      simp [numberDefinitions, Command.equated?, hop, ha, hb]
    · simp [numberDefinitions, Command.equated?, hop]
  rw [definitionsOf, List.map_append, hlabel, hnumber, Command.names]

/-! ### A walk without mistakes -/

variable {cs ds : List Command}

/-- A step without a mistake is a visit that does not fail. -/
theorem visit_of_step (h : (s.step c).problems = #[]) : s.visit c = .ok (s.step c) := by
  unfold step at h ⊢
  cases hv : s.visit c with
  | ok t => rfl
  | error e =>
      rw [hv] at h
      simp at h

theorem ofCommands_concat (cs : List Command) (c : Command) :
    ofCommands (cs ++ [c]) = (ofCommands cs).step c := by
  simp [ofCommands]

/-- The last step of a walk without mistakes. -/
theorem visited_of_concat (h : (ofCommands (cs ++ [c])).problems = #[]) :
    (ofCommands cs).Visited c (ofCommands (cs ++ [c])) := by
  rw [ofCommands_concat] at h ⊢
  exact visited_of_visit (visit_of_step h)

/-- Mistakes are never forgotten. -/
theorem problems_of_append (h : (ofCommands (cs ++ ds)).problems = #[]) :
    (ofCommands cs).problems = #[] := by
  induction ds using List.reverseRecOn with
  | nil => rwa [List.append_nil] at h
  | append_singleton ds d ih =>
      rw [← List.append_assoc] at h
      exact ih ((visited_of_concat h).problems ▸ h)

/-- The section after a walk without mistakes is the one in force. -/
theorem current_ofCommands (h : (ofCommands cs).problems = #[]) :
    (ofCommands cs).current = Section.inForce cs := by
  induction cs using List.reverseRecOn with
  | nil => rfl
  | append_singleton cs c ih =>
      rw [(visited_of_concat h).current, ih (problems_of_append h), Section.inForce_concat]

/-- Every instruction is counted with four bytes. -/
theorem textSize_ofCommands (h : (ofCommands cs).problems = #[]) :
    (ofCommands cs).textSize = 4 * cs.countP Command.isInstruction := by
  induction cs using List.reverseRecOn with
  | nil => rfl
  | append_singleton cs c ih =>
      rw [(visited_of_concat h).textSize, ih (problems_of_append h), List.countP_append,
        List.countP_singleton]
      split <;> omega

/-- The names defined in a walk without mistakes are those of its commands, in their order. -/
theorem names_ofCommands (h : (ofCommands cs).problems = #[]) :
    (ofCommands cs).names = cs.flatMap Command.names := by
  induction cs using List.reverseRecOn with
  | nil => rfl
  | append_singleton cs c ih =>
      have hv := visited_of_concat h
      have ih := ih (problems_of_append h)
      rw [names] at ih ⊢
      rw [hv.definitions, List.map_append, ih, hv.map_name]
      simp

/-- **In a walk without mistakes no name is defined twice.** -/
theorem nodup_names (h : (ofCommands cs).problems = #[]) : (ofCommands cs).names.Nodup := by
  induction cs using List.reverseRecOn with
  | nil => exact List.nodup_nil
  | append_singleton cs c ih =>
      have hv := visited_of_concat h
      rw [names, hv.definitions, List.map_append, List.nodup_append]
      refine ⟨ih (problems_of_append h), hv.admits.nodup, ?_⟩
      intro n hn m hm hnm
      obtain ⟨d, hd, rfl⟩ := List.mem_map.1 hm
      exact hv.admits.fresh d hd (hnm ▸ hn)

/-- A definition is kept for the rest of the walk. -/
theorem definitions_subset (h : (ofCommands (cs ++ ds)).problems = #[]) {d : Definition}
    (hd : d ∈ (ofCommands cs).definitions.toList) :
    d ∈ (ofCommands (cs ++ ds)).definitions.toList := by
  induction ds using List.reverseRecOn with
  | nil => rwa [List.append_nil]
  | append_singleton ds e ih =>
      rw [← List.append_assoc] at h ⊢
      rw [(visited_of_concat h).definitions]
      exact List.mem_append_left _ (ih (problems_of_append h))

/-- A command of a walk without mistakes has left its definitions. -/
theorem mem_definitions (h : (ofCommands (cs ++ c :: ds)).problems = #[]) {d : Definition}
    (hd : d ∈ (ofCommands cs).definitionsOf c) :
    d ∈ (ofCommands (cs ++ c :: ds)).definitions.toList := by
  rw [List.append_cons] at h ⊢
  refine definitions_subset h ?_
  rw [(visited_of_concat (problems_of_append h)).definitions]
  exact List.mem_append_right _ hd

/-! ### The ends of the segments -/

/-- A definition is **sheltered**: a place lies no further than the end of its segment, and a number
has 32 bits. -/
def Sheltered (s : Survey) (d : Definition) : Prop :=
  match d.origin with
  | .text => d.value ≤ s.textSize
  | .data => d.value ≤ s.dataSize
  | .absolute => d.value < 2 ^ 32

theorem Sheltered.mono {d : Definition} (h : s.Sheltered d) (htext : s.textSize ≤ t.textSize)
    (hdata : s.dataSize ≤ t.dataSize) : t.Sheltered d := by
  unfold Sheltered at h ⊢
  cases hd : d.origin with
  | text => rw [hd] at h; exact Nat.le_trans h htext
  | data => rw [hd] at h; exact Nat.le_trans h hdata
  | absolute => rw [hd] at h; exact h

/-- The definitions of a command are sheltered where the command stands. -/
theorem sheltered_of_mem_definitionsOf {d : Definition} (hd : d ∈ s.definitionsOf c) :
    s.Sheltered d := by
  rcases List.mem_append.1 hd with hd | hd
  · unfold labelDefinitions at hd
    split at hd
    · obtain rfl := List.mem_singleton.1 hd
      rcases s.current.eq_text_or_eq_data with hc | hc
      · simp [Sheltered, Section.origin, offset, hc]
      · simp [Sheltered, Section.origin, offset, hc]
    · contradiction
  · unfold numberDefinitions at hd
    split at hd
    · obtain rfl := List.mem_singleton.1 hd
      exact UInt32.toNat_lt _
    · contradiction

/-- **No label of a walk without mistakes lies beyond the end of its segment.** -/
theorem sheltered_ofCommands (h : (ofCommands cs).problems = #[]) {d : Definition}
    (hd : d ∈ (ofCommands cs).definitions.toList) : (ofCommands cs).Sheltered d := by
  induction cs using List.reverseRecOn with
  | nil => contradiction
  | append_singleton cs c ih =>
      have hv := visited_of_concat h
      have hbefore : (ofCommands cs).Sheltered d := by
        rw [hv.definitions] at hd
        rcases List.mem_append.1 hd with hd | hd
        · exact ih (problems_of_append h) hd
        · exact sheltered_of_mem_definitionsOf hd
      refine hbefore.mono ?_ ?_
      · rw [hv.textSize]; omega
      · rw [hv.dataSize]; omega

end Survey

end WordMachine
