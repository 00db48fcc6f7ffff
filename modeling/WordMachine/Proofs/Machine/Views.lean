/-
**What instructions keep.**

A property of computations that holds of all that look and of the effects, and that a sequence
inherits from its parts, is a property of every instruction.

A view is anything that can be read off a machine.  A computation keeps a view when the machine
shows the same there afterwards, whether the computation faults or not.  Every instruction keeps the
size of memory.

Main definitions:

* `Exec.Compositional` — a property of looking and of the effects that sequences inherit;
* `Exec.after`, `Exec.Keeps` — the machine after a computation, and a view that stays the same.

Main results:

* `Exec.Compositional.instruction` — **a compositional property holds of every instruction**;
* `Exec.keepsSize_instruction` — no instruction changes the size of memory.
-/

import WordMachine.Proofs.Machine.Atomicity
import WordMachine.Proofs.Machine.Stepwise

set_option relaxedAutoImplicit false
set_option autoImplicit false

namespace WordMachine.Exec

/-! ### More effects that look -/

theorem looks_pendingInput : Looks pendingInput :=
  fun m => .inl ⟨m.console.pending, rfl⟩

theorem looks_memorySize : Looks memorySize :=
  fun m => .inl ⟨m.memory.size, rfl⟩

theorem looks_checkRange (a : UInt32) (width : Nat) : Looks (checkRange a width) :=
  looks_inspect _

/-! ### Compositional properties -/

/-- A property of computations is **compositional** if the effects have it and sequences inherit it
from their parts. -/
structure Compositional (P : {α : Type} → Exec α → Prop) : Prop where
  looks : ∀ {α : Type} {x : Exec α}, Looks x → P x
  throws : ∀ {α : Type} (cause : Fault), P (throw cause : Exec α)
  bind : ∀ {α β : Type} {x : Exec α} {f : α → Exec β}, P x → (∀ a, P (f a)) → P (x >>= f)
  writeRegister : ∀ r v, P (writeRegister r v)
  writeFlags : ∀ states, P (writeFlags states)
  storeBytes : ∀ a bytes, P (storeBytes a bytes)
  readBytes : ∀ n, P (readBytes n)
  nextInteger : P nextInteger
  print : ∀ bytes, P (print bytes)
  halt : P halt

namespace Compositional

variable {P : {α : Type} → Exec α → Prop} (hP : Compositional P)

include hP

/-- Looking first does no harm. -/
theorem after_looks {α β : Type} {x : Exec α} {f : α → Exec β} (hx : Looks x)
    (hf : ∀ a, P (f a)) : P (x >>= f) :=
  hP.bind (hP.looks hx) hf

theorem input (a : UInt32) : P (input a) := by
  refine hP.after_looks looks_pendingInput fun n => ?_
  refine hP.after_looks looks_memorySize fun size => ?_
  split
  · exact hP.throws _
  · refine hP.bind ?_ fun bytes => hP.storeBytes a _
    exact hP.after_looks looks_pendingInput fun n => hP.readBytes n

/-- The steps of the instructions look or are effects. -/
theorem stepwise : Stepwise P where
  pure a := hP.looks (looks_pure a)
  throws := hP.throws
  bind := hP.bind
  readRegister r := hP.looks (looks_readRegister r)
  readFlag f := hP.looks (looks_readFlag f)
  registers _ hf := hP.after_looks looks_get fun m => hf m.registers
  writeRegister := hP.writeRegister
  writeFlags := hP.writeFlags
  checkRange a width := hP.looks (looks_checkRange a width)
  load a := hP.looks (looks_load a)
  loadString a := hP.looks (looks_loadString a)
  storeBytes := hP.storeBytes
  readBytes := hP.readBytes
  nextInteger := hP.nextInteger
  input := hP.input
  print := hP.print
  halt := hP.halt

/-- **A compositional property holds of every instruction.** -/
theorem instruction (i : Instruction) : P (instruction i) :=
  hP.stepwise.instruction i

end Compositional

/-! ### Views -/

section Views

variable {α β γ : Type} {view : Machine → γ}

/-- The machine after a computation, whether it faults or not. -/
def after (x : Exec α) (m : Machine) : Machine :=
  match x m with
  | .ok _ m' => m'
  | .error _ m' => m'

/-- A computation **keeps** a view if the machine shows the same there afterwards. -/
def Keeps (view : Machine → γ) (x : Exec α) : Prop :=
  ∀ m, view (after x m) = view m

variable {x : Exec α} {f : α → Exec β} {m m' : Machine}

theorem after_of_ok {a : α} (h : x m = .ok a m') : after x m = m' := by
  rw [after, h]

theorem after_of_error {cause : Fault} (h : x m = .error cause m') : after x m = m' := by
  rw [after, h]

theorem Looks.keeps (hx : Looks x) : Keeps view x := by
  intro m
  rcases hx m with ⟨a, hok⟩ | ⟨cause, _, herror⟩
  · rw [after_of_ok hok]
  · rw [after_of_error herror]

theorem Keeps.bind (hx : Keeps view x) (hf : ∀ a, Keeps view (f a)) : Keeps view (x >>= f) := by
  intro m
  have hfirst := hx m
  cases hm : x m with
  | ok a m₁ =>
      rw [after_of_ok hm] at hfirst
      have hrest : view (after (f a) m₁) = view m₁ := hf a m₁
      have hseq : after (x >>= f) m = after (f a) m₁ := by rw [after, bind_of_ok hm, after]
      rw [hseq, hrest, hfirst]
  | error cause m₁ =>
      rw [after_of_error hm] at hfirst
      rw [after_of_error (bind_of_error hm), hfirst]

end Views

/-! ### The size of memory -/

/-- Keeping the number of bytes that memory has is compositional. -/
theorem compositional_keepsSize :
    Compositional fun {α : Type} (x : Exec α) => Keeps (·.memory.size) x where
  looks := Looks.keeps
  throws _ := fun _ => rfl
  bind := Keeps.bind
  writeRegister _ _ := fun _ => rfl
  writeFlags _ := fun _ => rfl
  storeBytes a bytes := by
    intro m
    by_cases hfits : m.memory.InRange a bytes.length
    · rw [after_of_ok (storeBytes_of_inRange hfits)]
      exact Memory.size_put _ _ _
    · rw [after_of_error (storeBytes_of_not_inRange hfits)]
  readBytes _ := fun _ => rfl
  nextInteger := fun _ => rfl
  print _ := fun _ => rfl
  halt := fun _ => rfl

/-- **No instruction changes the size of memory**, whether it faults or not. -/
theorem keepsSize_instruction (i : Instruction) : Keeps (·.memory.size) (instruction i) :=
  compositional_keepsSize.instruction i

end WordMachine.Exec
