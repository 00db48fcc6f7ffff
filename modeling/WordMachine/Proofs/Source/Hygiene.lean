/-
**Macros are hygienic.**

The commands of a call do not depend on what its operands look like.  There is a template with holes
for the operands of the call, the same for all operands, and filling the holes gives the commands.
In particular an operand that is the name of a parameter, of the macro called or of one that it is
passed on to, ends up where any other operand would.

Main definitions:

* `Slot`, `Template` — an operand and a command with holes.

Main results:

* `Source.Expands.template` — the commands of a call are a template with its operands filled in;
* `Source.expand_of_parse` — **when a source program can be expanded, and to what**.
-/

import WordMachine.Proofs.Source.Expansion
import Mathlib.Tactic.Choose

set_option relaxedAutoImplicit false
set_option autoImplicit false

namespace WordMachine

/-! ### Templates -/

/-- An operand of a template. -/
inductive Slot
  /-- A hole for the operand in the given place. -/
  | hole (i : Nat)
  /-- An operand that is the same for all calls. -/
  | fixed (x : Option Operand)

/-- **A command with holes** for the operands of a call. -/
structure Template where
  label : Option Text
  operation : Operation
  a : Slot
  b : Slot

/-- The operand of a call that fills a slot. -/
def Slot.fill (call : Command) : Slot → Option Operand
  | hole i => call.operand? i
  | fixed x => x

/-- The command for a call. -/
def Template.fill (call : Command) (t : Template) : Command :=
  ⟨call.line, t.label, t.operation, t.a.fill call, t.b.fill call⟩

/-- The label of a call, as a template. -/
def Template.marker (c : Command) : List Template :=
  match c.label with
  | some label => [⟨some label, .blank, .fixed none, .fixed none⟩]
  | none => []

theorem Template.map_fill_marker {c call : Command} (h : call.label = c.label) :
    (marker c).map (fill call) = call.marker := by
  unfold marker Command.marker
  rw [h]
  cases c.label <;> rfl

namespace Macro

variable {m : Macro} {call c : Command}

/-- An operand of a body, with a hole for a parameter. -/
def slot (m : Macro) (x : Option Operand) : Slot :=
  match m.place? x with
  | some i => .hole i
  | none => .fixed x

/-- A slot for the operands of a command of the body, as a slot for those of the call. -/
def passSlot (m : Macro) (c : Command) : Slot → Slot
  | .hole i => m.slot (c.operand? i)
  | .fixed x => .fixed x

/-- A template for the operands of a command of the body, as one for those of the call. -/
def pass (m : Macro) (c : Command) (t : Template) : Template :=
  { t with a := m.passSlot c t.a, b := m.passSlot c t.b }

theorem operand?_copy (m : Macro) (call c : Command) (i : Nat) :
    (m.copy call c).operand? i = (m.slot (c.operand? i)).fill call := by
  have hslot : ∀ x, m.substitute call x = (m.slot x).fill call := by
    intro x
    unfold substitute slot
    cases m.place? x <;> rfl
  match i with
  | 0 => exact hslot c.a
  | 1 => exact hslot c.b
  | _ + 2 => rfl

theorem fill_passSlot (s : Slot) : (m.passSlot c s).fill call = s.fill (m.copy call c) := by
  cases s with
  | hole i => exact (operand?_copy m call c i).symm
  | fixed x => rfl

/-- Passing a template on and filling it is filling it for the command of the body. -/
theorem map_fill_pass (ts : List Template) :
    (ts.map (m.pass c)).map (Template.fill call) = ts.map (Template.fill (m.copy call c)) := by
  rw [List.map_map]
  refine List.map_congr_left ?_
  intro t _
  simp only [Function.comp_apply, Template.fill, pass, fill_passSlot]
  rfl

end Macro

namespace Source

variable {s : Text} {p : Source} {c : Command} {m : Macro} {cs : List Command}

/-- A call stands for its label and what the copies of the commands of the body stand for. -/
theorem Expands.of_body (hkeys : (p.macros.map Macro.key).Nodup) (h : p.Calls c m)
    {g : Command → List Command} (hg : ∀ b ∈ m.body, p.Expands (m.copy c b) (g b)) :
    p.Expands c (c.marker ++ m.body.flatMap g) := by
  have hsome : ∀ d ∈ m.instantiate c, ∃ ds, p.Expands d ds := by
    intro d hd
    obtain ⟨b, hb, rfl⟩ := List.mem_map.1 hd
    exact ⟨g b, hg b hb⟩
  choose! f hf using hsome
  -- Equal copies of different commands stand for the same.
  have hbody : m.body.flatMap g = (m.instantiate c).flatMap f := by
    rw [Macro.instantiate_eq_map, List.flatMap_map]
    refine List.flatMap_congr ?_
    intro b hb
    exact (hg b hb).unique hkeys (hf _ (List.mem_map_of_mem hb))
  rw [hbody]
  exact .call h (Macro.forall₂_copies_iff.2 rfl) hf

/-- **The commands of a call are a template with its operands filled in**, the same template for all
operands. -/
theorem Expands.template (hkeys : (p.macros.map Macro.key).Nodup) (h : p.Expands c cs) :
    ∃ ts : List Template, ∀ c' : Command, c'.label = c.label → c'.operation = c.operation →
      p.Expands c' (ts.map (·.fill c')) := by
  induction h with
  | @plain c hc =>
      refine ⟨[⟨c.label, c.operation, .hole 0, .hole 1⟩], ?_⟩
      intro c' hlabel hoperation
      have hfill : Template.fill c' ⟨c.label, c.operation, .hole 0, .hole 1⟩ = c' := by
        rw [← hlabel, ← hoperation]
        rfl
      rw [List.map_singleton, hfill]
      exact .plain fun m hm => hc m (hm.congr hoperation.symm)
  | @call c m body f hc hbody hf ih =>
      obtain rfl := Macro.forall₂_copies_iff.1 hbody
      choose! T hT using ih
      refine ⟨Template.marker c ++
        m.body.flatMap fun b => (T (m.copy c b)).map (m.pass b), ?_⟩
      intro c' hlabel hoperation
      -- The commands of both bodies have the same labels and operations, so one template does.
      have hcopy : ∀ b ∈ m.body,
          p.Expands (m.copy c' b) ((T (m.copy c b)).map (Template.fill (m.copy c' b))) :=
        fun b hb => hT _ (List.mem_map_of_mem hb) (m.copy c' b) rfl rfl
      simp only [List.map_append, List.map_flatMap, Template.map_fill_marker hlabel,
        Macro.map_fill_pass]
      exact of_body hkeys (hc.congr hoperation) hcopy

/-- **When a source program can be expanded, and to what.**  The trees of calls below its commands
must not be deeper than sixteen calls, and every call in them must give what its macro asks for.
The program then becomes what its commands stand for, one after the other.  What a command stands
for is determined, has the line of the command, does not depend on what operands look like, and
holds no call. -/
theorem expand_of_parse (h : Source.parse s = .ok p) :
    ((∃ cs, p.expand = .ok cs) ↔
      ∀ c ∈ p.commands, ∀ n d m, p.Nested n c d m → n ≤ 16 ∧ m.Accepts d) ∧
      ∀ cs, p.expand = .ok cs →
        (∃ f : Command → List Command, cs = p.commands.flatMap f ∧
          ∀ c ∈ p.commands, (∀ ds, p.Expands c ds ↔ ds = f c) ∧
            (∃ ts : List Template, ∀ c', c'.label = c.label → c'.operation = c.operation →
              p.Expands c' (ts.map (·.fill c'))) ∧
            ∀ d ∈ f c, d.line = c.line) ∧
        ∀ d ∈ cs, ∀ m, ¬ p.Calls d m := by
  have hkeys := nodup_keys h
  constructor
  · simp only [expand_eq_ok_iff, problems_eq_nil_iff hkeys, exists_and_left, exists_eq, and_true]
    rfl
  · intro cs hcs
    obtain ⟨hproblems, rfl⟩ := expand_eq_ok_iff.1 hcs
    have hexpands : ∀ c ∈ p.commands,
        p.Expands c (Expanded.commands (c.expand p.macros macroDepth)) :=
      fun c hc => expands_of_problems hkeys (hproblems c hc)
    refine ⟨⟨_, rfl, ?_⟩, ?_⟩
    · intro c hc
      refine ⟨?_, (hexpands c hc).template hkeys, (hexpands c hc).line_eq⟩
      intro ds
      constructor
      · intro hds
        exact hds.unique hkeys (hexpands c hc)
      · rintro rfl
        exact hexpands c hc
    · intro d hd
      obtain ⟨c, hc, hd⟩ := List.mem_flatMap.1 hd
      exact (hexpands c hc).not_calls d hd

/-- A source in which an operand is the name of a parameter, of the macro called and of the one that
it is passed on to. -/
def clashingSource : Text :=
  (".macro twice x\nINC x\nINC x\n.endmacro\n.macro both y, x\ntwice y\nINC x\n.endmacro\n" ++
    "start: both x, AX").toList

/-- The operand `x` stays what it is, and is not taken for the parameter `x`. -/
theorem expand_clashingSource :
    ∃ p, Source.parse clashingSource = .ok p ∧
      (∀ c ∈ p.commands, ∀ n d m, p.Nested n c d m → n ≤ 16 ∧ m.Accepts d) ∧
      ∃ cs, p.expand = .ok cs ∧ (∀ d ∈ cs, ∀ m, ¬ p.Calls d m) ∧
        cs = [⟨9, some "start".toList, .blank, none, none⟩,
          ⟨9, none, .instruction "INC".toList, some (.label ['x']), none⟩,
          ⟨9, none, .instruction "INC".toList, some (.label ['x']), none⟩,
          ⟨9, none, .instruction "INC".toList, some (.register .ax), none⟩] := by
  have hparse : Source.parse clashingSource = .ok
      ⟨[⟨9, some "start".toList, .instruction "BOTH".toList, some (.label ['x']),
          some (.register .ax)⟩],
        [⟨"twice".toList, [['x']],
            [⟨2, none, .instruction "INC".toList, some (.label ['x']), none⟩,
              ⟨3, none, .instruction "INC".toList, some (.label ['x']), none⟩], 1⟩,
          ⟨"both".toList, [['y'], ['x']],
            [⟨6, none, .instruction "TWICE".toList, some (.label ['y']), none⟩,
              ⟨7, none, .instruction "INC".toList, some (.label ['x']), none⟩], 5⟩]⟩ := by
    decide +kernel
  obtain ⟨hiff, hall⟩ := expand_of_parse hparse
  suffices hexpand : Source.expand _ = .ok _ from
    ⟨_, hparse, hiff.1 ⟨_, hexpand⟩, _, hexpand, (hall _ hexpand).2, rfl⟩
  decide +kernel

end Source

end WordMachine
