/-
**Sequences of instructions.**

Instructions are executed one after the other, up to the first that faults.  The program counter has
no part in it: a sequence is what a program has passed through, and not the program.

Main definitions:

* `Machine.executeAll` — executing instructions one after the other.

Main results:

* `Machine.executeAll_append` — a sequence that goes on after another.
-/

import WordMachine.Machine.Execute

set_option relaxedAutoImplicit false
set_option autoImplicit false

namespace WordMachine.Machine

/-- Executes instructions one after the other, up to the first that faults. -/
def executeAll (m : Machine) : List Instruction → Outcome
  | [] => .done m
  | i :: is =>
    match m.execute i with
    | .done m' => m'.executeAll is
    | .faulted cause m' => .faulted cause m'

variable {m m₁ m' : Machine} {i : Instruction} {is js : List Instruction}

@[simp] theorem executeAll_nil (m : Machine) : m.executeAll [] = .done m := rfl

theorem executeAll_cons (h : m.execute i = .done m₁) (is : List Instruction) :
    m.executeAll (i :: is) = m₁.executeAll is := by
  rw [executeAll, h]

theorem executeAll_append (h : m.executeAll is = .done m₁) (js : List Instruction) :
    m.executeAll (is ++ js) = m₁.executeAll js := by
  induction is generalizing m with
  | nil =>
      cases h
      rfl
  | cons i is ih =>
      cases hi : m.execute i with
      | done m₂ =>
          rw [executeAll_cons hi] at h
          rw [List.cons_append, executeAll_cons hi, ih h]
      | faulted cause m₂ =>
          rw [executeAll, hi] at h
          exact nomatch h

end WordMachine.Machine
