/-
**The body of a macro for a call.**

Every operand of the body that is a parameter becomes the operand of the call in the place of the
parameter.  A name that stands for several parameters is the first of them.  All replacements happen
at once: each operand of the body is looked at once, and what replaces it is not looked at.

Main definitions:

* `Macro.IsPlace` — the place of a parameter;
* `Macro.Replaces`, `Macro.Copies` — an operand and a command of a body, and what becomes of them;
* `Macro.Accepts` — a call gives what the macro asks for.

Main results:

* `Macro.forall₂_copies_iff` — the body for a call is its body, command by command;
* `Macro.accepts_iff` — what is checked of a call is what the macro asks for.
-/

import WordMachine.Source.Expansion
import Mathlib.Data.List.Forall2

set_option relaxedAutoImplicit false
set_option autoImplicit false

namespace WordMachine.Macro

variable {m : Macro} {call c d : Command} {name : Text} {x y : Option Operand} {i : Nat}

/-! ### Parameters -/

/-- The name is the parameter in a place, and in no place before it. -/
def IsPlace (m : Macro) (name : Text) (i : Nat) : Prop :=
  m.parameters[i]? = some name ∧ ∀ j < i, m.parameters[j]? ≠ some name

theorem findIdx?_eq_some_iff : m.parameters.findIdx? (· == name) = some i ↔ m.IsPlace name i := by
  rw [List.findIdx?_eq_some_iff_getElem, IsPlace]
  constructor
  · rintro ⟨hlt, hi, hbefore⟩
    refine ⟨by simpa [hlt] using hi, ?_⟩
    intro j hj hsome
    obtain ⟨hjlt, rfl⟩ := List.getElem?_eq_some_iff.1 hsome
    exact hbefore j hj (beq_self_eq_true _)
  · rintro ⟨hi, hbefore⟩
    obtain ⟨hlt, rfl⟩ := List.getElem?_eq_some_iff.1 hi
    refine ⟨hlt, beq_self_eq_true _, ?_⟩
    intro j hj hname
    exact hbefore j hj (List.getElem?_eq_some_iff.2 ⟨by omega, by simpa using hname⟩)

theorem place?_eq_some_iff :
    m.place? x = some i ↔ ∃ name, x = some (.label name) ∧ m.IsPlace name i := by
  unfold place?
  split
  · simp [findIdx?_eq_some_iff]
  · rename_i hx
    refine iff_of_false nofun ?_
    rintro ⟨name, hname, -⟩
    exact hx name hname

theorem place?_eq_none_iff :
    m.place? x = none ↔ ∀ name ∈ m.parameters, x ≠ some (.label name) := by
  unfold place?
  split
  · rename_i name
    rw [List.findIdx?_eq_none_iff]
    constructor
    · rintro h name' hmem hx
      cases hx
      simpa using h name hmem
    · intro h name' hmem
      rw [beq_eq_false_iff_ne]
      rintro rfl
      exact h name' hmem rfl
  · rename_i hx
    exact iff_of_true rfl fun name _ => hx name

/-! ### Operands and commands of a body -/

/-- **What becomes of an operand of a body.**  A parameter becomes the operand of the call in its
place, whatever that is; everything else stays as it is. -/
inductive Replaces (m : Macro) (call : Command) : Option Operand → Option Operand → Prop
  /-- A parameter. -/
  | parameter {name : Text} {i : Nat} (h : m.IsPlace name i) :
      Replaces m call (some (.label name)) (call.operand? i)
  /-- Everything else. -/
  | other {x : Option Operand} (h : ∀ name ∈ m.parameters, x ≠ some (.label name)) :
      Replaces m call x x

/-- What becomes of a command of a body. -/
structure Copies (m : Macro) (call c d : Command) : Prop where
  line : d.line = call.line
  label : d.label = c.label
  operation : d.operation = c.operation
  a : m.Replaces call c.a d.a
  b : m.Replaces call c.b d.b

theorem replaces_iff : m.Replaces call x y ↔ y = m.substitute call x := by
  unfold substitute
  constructor
  · intro h
    cases h with
    | parameter h => rw [place?_eq_some_iff.2 ⟨_, rfl, h⟩]
    | other h => rw [place?_eq_none_iff.2 h]
  · rintro rfl
    cases hplace : m.place? x with
    | none => exact .other (place?_eq_none_iff.1 hplace)
    | some i =>
        obtain ⟨name, rfl, hi⟩ := place?_eq_some_iff.1 hplace
        exact .parameter hi

/-- A command of the body for a call. -/
def copy (m : Macro) (call c : Command) : Command :=
  { c with line := call.line, a := m.substitute call c.a, b := m.substitute call c.b }

theorem instantiate_eq_map (m : Macro) (call : Command) :
    m.instantiate call = m.body.map (m.copy call) := rfl

theorem copies_iff : m.Copies call c d ↔ d = m.copy call c := by
  constructor
  · rintro ⟨hline, hlabel, hoperation, ha, hb⟩
    obtain ⟨line, label, operation, a, b⟩ := d
    rw [replaces_iff] at ha hb
    subst hline hlabel hoperation ha hb
    rfl
  · rintro rfl
    exact ⟨rfl, rfl, rfl, replaces_iff.2 rfl, replaces_iff.2 rfl⟩

/-- **The body for a call is its body, command by command.** -/
theorem forall₂_copies_iff {body : List Command} :
    List.Forall₂ (m.Copies call) m.body body ↔ body = m.instantiate call := by
  have hcopies : m.Copies call = fun c d => m.copy call c = d := by
    funext c d
    exact propext (copies_iff.trans eq_comm)
  rw [hcopies, ← List.forall₂_map_left_iff, List.forall₂_eq_eq_eq, instantiate_eq_map, eq_comm]

/-! ### Calls -/

/-- The call gives no more operands than there are parameters, and one for every parameter that the
body uses.  With a second operand it gives two. -/
structure Accepts (m : Macro) (call : Command) : Prop where
  few : (call.a.isSome → 1 ≤ m.parameters.length) ∧ (call.b.isSome → 2 ≤ m.parameters.length)
  supplied : ∀ c ∈ m.body, ∀ name i, c.a = some (.label name) ∨ c.b = some (.label name) →
    m.IsPlace name i → (call.operand? i).isSome

theorem missingIn_eq_nil_iff : m.missingIn call x = [] ↔
    ∀ name i, x = some (.label name) → m.IsPlace name i → (call.operand? i).isSome := by
  unfold missingIn
  split
  · rename_i name i hplace
    obtain ⟨_, hx, hi⟩ := place?_eq_some_iff.1 hplace
    cases hx
    constructor
    · rintro h name' j hx hj
      cases hx
      obtain rfl : j = i := by
        simpa [findIdx?_eq_some_iff.2 hi] using (findIdx?_eq_some_iff.2 hj).symm
      simpa [Option.isSome_iff_ne_none] using h
    · intro h
      simpa [Option.isSome_iff_ne_none] using h name i rfl hi
  · rename_i hx
    refine iff_of_true rfl ?_
    rintro name i rfl hi
    exact absurd (place?_eq_some_iff.2 ⟨name, rfl, hi⟩) (hx name i rfl)

/-- What the expander counts, told of the two operands. -/
theorem given_le_iff {n : Nat} :
    call.given ≤ n ↔ (call.a.isSome → 1 ≤ n) ∧ (call.b.isSome → 2 ≤ n) := by
  unfold Command.given
  cases call.a with
  | none => cases call.b <;> simp
  | some a =>
      cases call.b with
      | none => simp
      | some b =>
          simp only [Option.isSome_some, if_true, forall_const]
          omega

/-- **What is checked of a call is what the macro asks for.** -/
theorem accepts_iff :
    m.Accepts call ↔ call.given ≤ m.parameters.length ∧ m.missing call = [] := by
  have hsupplied : m.missing call = [] ↔ ∀ c ∈ m.body, ∀ name i,
      c.a = some (.label name) ∨ c.b = some (.label name) →
        m.IsPlace name i → (call.operand? i).isSome := by
    simp only [missing, List.flatMap_eq_nil_iff, List.append_eq_nil_iff, missingIn_eq_nil_iff]
    refine forall₂_congr fun c _ => ?_
    constructor
    · rintro ⟨ha, hb⟩ name i (hx | hx) hi
      · exact ha name i hx hi
      · exact hb name i hx hi
    · intro h
      exact ⟨fun name i hx => h name i (.inl hx), fun name i hx => h name i (.inr hx)⟩
  rw [hsupplied, given_le_iff]
  exact ⟨fun ⟨hfew, hall⟩ => ⟨hfew, hall⟩, fun ⟨hfew, hall⟩ => ⟨hfew, hall⟩⟩

end WordMachine.Macro
