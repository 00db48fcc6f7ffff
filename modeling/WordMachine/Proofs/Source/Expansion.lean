/-
**Expanding macros.**

The calls of a program form trees: below a call stand the calls in the body that replaces it.  A
tree goes down forever where a macro calls itself.  A command can be expanded when its tree is not
too deep and every call in it gives what its macro asks for.  The command then stands for the
commands at the leaves of its tree, in the order of the bodies, with the label of every call in
front of what replaces it.

Main definitions:

* `Source.Nested` — the calls below a command, and how deep they are nested;
* `Source.Shallow` — the calls below a command can all be replaced;
* `Source.Expands` — the commands that a command stands for.

Main results:

* `Source.problems_eq_nil_iff` — when a command can be expanded;
* `Source.expands_of_problems` — what comes out;
* `Source.Expands.unique` — a command stands for one list of commands at most;
* `Source.Expands.line_eq` — its line is that of all of them;
* `Source.Expands.not_calls` — no call is left.
-/

import WordMachine.Proofs.Source.Macros
import WordMachine.Proofs.Source.Substitution

set_option relaxedAutoImplicit false
set_option autoImplicit false

namespace WordMachine

/-! ### Lists of commands and mistakes -/

namespace Expanded

variable {xs ys : List Expanded}

@[simp] theorem problems_append : problems (xs ++ ys) = problems xs ++ problems ys :=
  List.filterMap_append

@[simp] theorem commands_append : commands (xs ++ ys) = commands xs ++ commands ys :=
  List.filterMap_append

@[simp] theorem problems_flatMap {α : Type} (f : α → List Expanded) (l : List α) :
    problems (l.flatMap f) = l.flatMap fun a => problems (f a) :=
  List.filterMap_flatMap

@[simp] theorem commands_flatMap {α : Type} (f : α → List Expanded) (l : List α) :
    commands (l.flatMap f) = l.flatMap fun a => commands (f a) :=
  List.filterMap_flatMap

@[simp] theorem problems_map_ok (cs : List Command) : problems (cs.map .ok) = [] := by
  simp [problems, List.filterMap_map]

@[simp] theorem commands_map_ok (cs : List Command) : commands (cs.map .ok) = cs := by
  simp [commands, List.filterMap_map]

end Expanded

namespace Source

variable {s : Text} {p : Source} {c d : Command} {m : Macro} {n k : Nat} {cs : List Command}

/-! ### One call -/

theorem expand_of_macro?_eq_none (h : c.macro? p.macros = none) (n : Nat) :
    c.expand p.macros n = [.ok c] := by
  rw [Command.expand, h]

theorem expand_zero (h : c.macro? p.macros = some m) :
    c.expand p.macros 0 = [.error ⟨c.line, .tooDeep m.name⟩] := by
  rw [Command.expand, h]

theorem expand_of_accepts (h : c.macro? p.macros = some m) (haccepts : m.Accepts c) (n : Nat) :
    c.expand p.macros (n + 1) =
      c.marker.map .ok ++ (m.instantiate c).flatMap (Command.expand p.macros n) := by
  obtain ⟨hfew, hmissing⟩ := Macro.accepts_iff.1 haccepts
  rw [Command.expand, h]
  dsimp only
  rw [if_neg (by omega), hmissing]

/-- A call that does not give what its macro asks for is a mistake. -/
theorem problems_of_not_accepts (h : c.macro? p.macros = some m) (hnot : ¬ m.Accepts c) (n : Nat) :
    Expanded.problems (c.expand p.macros (n + 1)) ≠ [] := by
  rw [Command.expand, h]
  dsimp only
  split_ifs with hmany
  · simp [Expanded.problems]
  · cases hmissing : m.missing c with
    | nil => exact absurd (Macro.accepts_iff.2 ⟨by omega, hmissing⟩) hnot
    | cons name names => simp [Expanded.problems]

/-! ### The trees of calls -/

/-- **The calls below a command**, and how deep they are nested: `p.Nested n c d m` if `d` is a call
of `m` and stands `n` calls deep in the tree of `c`. -/
inductive Nested (p : Source) : Nat → Command → Command → Macro → Prop
  /-- The command itself. -/
  | root {c : Command} {m : Macro} (h : p.Calls c m) : Nested p 1 c c m
  /-- A call in the body that replaces the command. -/
  | inner {c b d : Command} {m m' : Macro} {n : Nat} {body : List Command} (h : p.Calls c m)
      (hbody : List.Forall₂ (m.Copies c) m.body body) (hb : b ∈ body) (hd : Nested p n b d m') :
      Nested p (n + 1) c d m'

/-- The tree of a command has `n` levels at most, and its calls give what their macros ask for. -/
def Shallow (p : Source) (n : Nat) (c : Command) : Prop :=
  ∀ k d m, p.Nested k c d m → k ≤ n ∧ m.Accepts d

theorem shallow_of_not_calls (h : ∀ m, ¬ p.Calls c m) (n : Nat) : p.Shallow n c := by
  intro k d m hd
  cases hd with
  | root hc => exact absurd hc (h _)
  | inner hc => exact absurd hc (h _)

theorem not_shallow_zero (h : p.Calls c m) : ¬ p.Shallow 0 c := by
  intro hshallow
  have := (hshallow 1 c m (.root h)).1
  omega

/-- A name calls one macro, so that only its body can stand below a call. -/
theorem shallow_succ_iff (hkeys : (p.macros.map Macro.key).Nodup) (h : p.Calls c m) :
    p.Shallow (n + 1) c ↔ m.Accepts c ∧ ∀ b ∈ m.instantiate c, p.Shallow n b := by
  constructor
  · intro hshallow
    refine ⟨(hshallow 1 c m (.root h)).2, ?_⟩
    intro b hb k d m' hd
    obtain ⟨hk, haccepts⟩ :=
      hshallow (k + 1) d m' (.inner h (Macro.forall₂_copies_iff.2 rfl) hb hd)
    exact ⟨by omega, haccepts⟩
  · rintro ⟨haccepts, hbody⟩ k d m' hd
    cases hd with
    | root hc =>
        obtain rfl := h.unique hkeys hc
        exact ⟨by omega, haccepts⟩
    | @inner _ b _ m₁ _ k body hc hcopies hb hd =>
        obtain rfl := h.unique hkeys hc
        rw [Macro.forall₂_copies_iff.1 hcopies] at hb
        obtain ⟨hk, haccepts'⟩ := hbody b hb k d m' hd
        exact ⟨by omega, haccepts'⟩

/-- **A command can be expanded when its tree is not too deep and its calls give what their macros
ask for.** -/
theorem problems_eq_nil_iff (hkeys : (p.macros.map Macro.key).Nodup) :
    Expanded.problems (c.expand p.macros n) = [] ↔ p.Shallow n c := by
  induction n generalizing c with
  | zero =>
      cases hmacro : c.macro? p.macros with
      | none =>
          rw [expand_of_macro?_eq_none hmacro]
          exact iff_of_true rfl (shallow_of_not_calls ((macro?_eq_none_iff hkeys).1 hmacro) 0)
      | some m =>
          rw [expand_zero hmacro]
          exact iff_of_false nofun (not_shallow_zero ((macro?_eq_some_iff hkeys).1 hmacro))
  | succ n ih =>
      cases hmacro : c.macro? p.macros with
      | none =>
          rw [expand_of_macro?_eq_none hmacro]
          exact iff_of_true rfl (shallow_of_not_calls ((macro?_eq_none_iff hkeys).1 hmacro) _)
      | some m =>
          rw [shallow_succ_iff hkeys ((macro?_eq_some_iff hkeys).1 hmacro)]
          by_cases haccepts : m.Accepts c
          · rw [expand_of_accepts hmacro haccepts]
            simp [List.flatMap_eq_nil_iff, ih, haccepts]
          · exact iff_of_false (problems_of_not_accepts hmacro haccepts n) fun h => haccepts h.1

/-! ### What a command stands for -/

/-- **The commands that a command stands for.**  A command that calls nothing stands for itself.  A
call stands for its label, on a command of its own, and for what the commands of the body for it
stand for. -/
inductive Expands (p : Source) : Command → List Command → Prop
  /-- A command that calls nothing. -/
  | plain {c : Command} (h : ∀ m, ¬ p.Calls c m) : Expands p c [c]
  /-- A call. -/
  | call {c : Command} {m : Macro} {body : List Command} {f : Command → List Command}
      (h : p.Calls c m) (hbody : List.Forall₂ (m.Copies c) m.body body)
      (hf : ∀ b ∈ body, Expands p b (f b)) : Expands p c (c.marker ++ body.flatMap f)

theorem expands_of_problems (hkeys : (p.macros.map Macro.key).Nodup)
    (h : Expanded.problems (c.expand p.macros n) = []) :
    p.Expands c (Expanded.commands (c.expand p.macros n)) := by
  induction n generalizing c with
  | zero =>
      cases hmacro : c.macro? p.macros with
      | none =>
          rw [expand_of_macro?_eq_none hmacro]
          exact .plain ((macro?_eq_none_iff hkeys).1 hmacro)
      | some m =>
          rw [expand_zero hmacro] at h
          exact nomatch h
  | succ n ih =>
      cases hmacro : c.macro? p.macros with
      | none =>
          rw [expand_of_macro?_eq_none hmacro]
          exact .plain ((macro?_eq_none_iff hkeys).1 hmacro)
      | some m =>
          by_cases haccepts : m.Accepts c
          · rw [expand_of_accepts hmacro haccepts] at h ⊢
            rw [Expanded.commands_append, Expanded.commands_map_ok, Expanded.commands_flatMap]
            refine .call ((macro?_eq_some_iff hkeys).1 hmacro) (Macro.forall₂_copies_iff.2 rfl) ?_
            intro b hb
            refine ih ?_
            simp only [Expanded.problems_append, Expanded.problems_map_ok,
              Expanded.problems_flatMap, List.nil_append, List.flatMap_eq_nil_iff] at h
            exact h b hb
          · exact absurd h (problems_of_not_accepts hmacro haccepts n)

namespace Expands

/-- A command stands for one list of commands at most. -/
theorem unique (hkeys : (p.macros.map Macro.key).Nodup) {ds : List Command}
    (h : p.Expands c cs) (h' : p.Expands c ds) : cs = ds := by
  induction h generalizing ds with
  | plain hc =>
      cases h' with
      | plain => rfl
      | call hc' => exact absurd hc' (hc _)
  | call hc hbody hf ih =>
      cases h' with
      | plain hc' => exact absurd hc (hc' _)
      | @call _ m' body' f' hc' hbody' hf' =>
          obtain rfl := hc.unique hkeys hc'
          rw [Macro.forall₂_copies_iff] at hbody hbody'
          subst hbody hbody'
          congr 1
          refine List.flatMap_congr ?_
          intro b hb
          exact ih b hb (hf' b hb)

/-- What stands in front of the body has the line of the call, and calls nothing. -/
theorem of_mem_marker (h : d ∈ c.marker) : d.line = c.line ∧ d.operation = .blank := by
  unfold Command.marker at h
  cases hlabel : c.label with
  | none => simp [hlabel] at h
  | some label =>
      rw [hlabel] at h
      rw [List.mem_singleton.1 h]
      exact ⟨rfl, rfl⟩

/-- The commands of a call have its line, however deep they come from. -/
theorem line_eq (h : p.Expands c cs) : ∀ d ∈ cs, d.line = c.line := by
  induction h with
  | plain => simp
  | @call c m body f hc hbody hf ih =>
      intro d hd
      rcases List.mem_append.1 hd with hd | hd
      · exact (of_mem_marker hd).1
      · obtain ⟨b, hb, hd⟩ := List.mem_flatMap.1 hd
        obtain rfl := Macro.forall₂_copies_iff.1 hbody
        obtain ⟨b₀, -, rfl⟩ := List.mem_map.1 hb
        exact ih _ hb d hd

/-- No call is left. -/
theorem not_calls (h : p.Expands c cs) : ∀ d ∈ cs, ∀ m, ¬ p.Calls d m := by
  induction h with
  | plain hc =>
      intro d hd
      rwa [List.mem_singleton.1 hd]
  | @call c m body f hc hbody hf ih =>
      intro d hd
      rcases List.mem_append.1 hd with hd | hd
      · rintro m' ⟨-, mnemonic, hoperation, -⟩
        rw [(of_mem_marker hd).2] at hoperation
        cases hoperation
      · obtain ⟨b, hb, hd⟩ := List.mem_flatMap.1 hd
        exact ih b hb d hd

end Expands

/-! ### Source programs -/

theorem expand_eq_ok_iff : p.expand = .ok cs ↔
    (∀ c ∈ p.commands, Expanded.problems (c.expand p.macros macroDepth) = []) ∧
      cs = p.commands.flatMap fun c => Expanded.commands (c.expand p.macros macroDepth) := by
  rw [← List.flatMap_eq_nil_iff, ← Expanded.problems_flatMap, ← Expanded.commands_flatMap, expand]
  split
  · rename_i hproblems
    simp [hproblems, eq_comm]
  · rename_i hproblems
    exact iff_of_false nofun fun h => hproblems h.1

end Source

end WordMachine
