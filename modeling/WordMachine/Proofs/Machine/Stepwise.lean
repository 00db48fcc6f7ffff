/-
**Properties of the steps.**

An instruction is made of a few steps, one after the other: it reads and writes registers, tests
addresses, loads and stores, takes from the input and adds to the output.  A property of
computations that these steps have, and that a sequence inherits from its parts, is a property of
every instruction.  The cases of the instructions are gone through once, here, for all such
properties.

The steps are as fine as the instructions use them.  No instruction but the one that moves all input
to memory learns how large memory is, and none learns anything else about the machine as a whole
than its registers.  So neither reading the size nor reading the machine is among the steps, and a
property need not hold of them.

Main definitions:

* `Exec.Stepwise` — a property of the steps that sequences inherit.

Main results:

* `Exec.Stepwise.instruction` — **a property of the steps holds of every instruction**.
-/

import WordMachine.Machine.Execute

set_option relaxedAutoImplicit false
set_option autoImplicit false

namespace WordMachine.Exec

/-- A property of computations is **stepwise** if the steps of the instructions have it and
sequences inherit it from their parts. -/
structure Stepwise (P : {α : Type} → Exec α → Prop) : Prop where
  pure : ∀ {α : Type} (a : α), P (pure a : Exec α)
  throws : ∀ {α : Type} (cause : Fault), P (throw cause : Exec α)
  bind : ∀ {α β : Type} {x : Exec α} {f : α → Exec β}, P x → (∀ a, P (f a)) → P (x >>= f)
  readRegister : ∀ r, P (readRegister r)
  readFlag : ∀ f, P (readFlag f)
  /-- Going on with the registers. -/
  registers : ∀ {α : Type} (f : RegisterFile → Exec α), (∀ rs, P (f rs)) →
    P (get >>= fun m => f m.registers)
  writeRegister : ∀ r v, P (writeRegister r v)
  writeFlags : ∀ states, P (writeFlags states)
  checkRange : ∀ a width, P (checkRange a width)
  load : ∀ a, P (load a)
  loadString : ∀ a, P (loadString a)
  storeBytes : ∀ a bytes, P (storeBytes a bytes)
  readBytes : ∀ n, P (readBytes n)
  nextInteger : P nextInteger
  /-- All input, moved to memory. -/
  input : ∀ a, P (input a)
  print : ∀ bytes, P (print bytes)
  halt : P halt

namespace Stepwise

variable {P : {α : Type} → Exec α → Prop} (hP : Stepwise P)

include hP

/-! ### Operands -/

section Operands

variable (op : Opcode) (o : Option Operand)

theorem registerOperand : P (registerOperand op o) := by
  unfold Exec.registerOperand
  split
  · exact hP.pure _
  · exact hP.throws _

theorem immediateOperand : P (immediateOperand op o) := by
  unfold Exec.immediateOperand
  split
  · exact hP.pure _
  · exact hP.throws _

theorem wordOperand : P (wordOperand op o) := by
  unfold Exec.wordOperand
  split
  · exact hP.readRegister _
  · exact hP.pure _
  · exact hP.throws _

theorem realOperand : P (realOperand op o) := by
  unfold Exec.realOperand
  split
  · exact hP.readRegister _
  · exact hP.pure _
  · exact hP.throws _

theorem addressOperand : P (addressOperand op o) := by
  unfold Exec.addressOperand
  split
  · exact hP.pure _
  · exact hP.readRegister _
  · exact hP.readRegister _
  · exact hP.throws _

theorem flagOperand : P (flagOperand op o) := by
  unfold Exec.flagOperand
  split
  · split
    · exact hP.pure _
    · exact hP.throws _
  · exact hP.throws _

end Operands

/-! ### Memory and the stack -/

theorem store (a v : UInt32) : P (store a v) :=
  hP.storeBytes a _

theorem pushWord (v : UInt32) : P (pushWord v) := by
  refine hP.bind (hP.readRegister .sp) fun sp => ?_
  refine hP.bind (hP.readFlag .stackDir) fun up => ?_
  cases up with
  | true => exact hP.bind (hP.store sp v) fun _ => hP.writeRegister .sp _
  | false => exact hP.bind (hP.store (sp - 4) v) fun _ => hP.writeRegister .sp _

theorem popWord : P popWord := by
  refine hP.bind (hP.readRegister .sp) fun sp => ?_
  refine hP.bind (hP.readFlag .stackDir) fun up => ?_
  have moves : ∀ v sp', P (do Exec.writeRegister .sp sp'; return v : Exec UInt32) :=
    fun v sp' => hP.bind (hP.writeRegister .sp sp') fun _ => hP.pure v
  cases up with
  | true => exact hP.bind (hP.load (sp - 4)) fun v => moves v _
  | false => exact hP.bind (hP.load sp) fun v => moves v _

/-! ### Families of instructions -/

/-- A result is written before the flags that tell about it. -/
theorem result (r : Register) (v : UInt32) (states : List (Flag × Bool)) :
    P (do Exec.writeRegister r v; Exec.writeFlags states) :=
  hP.bind (hP.writeRegister r v) fun _ => hP.writeFlags states

section Families

variable (i : Instruction)

theorem realBinary (f : UInt32 → UInt32 → UInt32) : P (realBinary f i) := by
  refine hP.bind (hP.registerOperand _ _) fun r => ?_
  refine hP.bind (hP.readRegister r) fun a => ?_
  exact hP.bind (hP.realOperand _ _) fun b => hP.result r _ _

theorem realUnary (f : UInt32 → UInt32) : P (realUnary f i) := by
  refine hP.bind (hP.registerOperand _ _) fun r => ?_
  exact hP.bind (hP.readRegister r) fun a => hP.result r _ _

theorem bitwise (f : UInt32 → UInt32 → UInt32) : P (bitwise f i) := by
  refine hP.bind (hP.registerOperand _ _) fun r => ?_
  refine hP.bind (hP.readRegister r) fun a => ?_
  exact hP.bind (hP.wordOperand _ _) fun b => hP.result r _ _

theorem shift (f : UInt32 → UInt32 → UInt32 × Bool) : P (shift f i) := by
  refine hP.bind (hP.registerOperand _ _) fun r => ?_
  refine hP.bind (hP.readRegister r) fun a => ?_
  exact hP.bind (hP.wordOperand _ _) fun n => hP.result r _ _

theorem jump : P (jump i) := by
  refine hP.bind (hP.addressOperand _ _) fun target => ?_
  refine hP.registers (fun rs => if taken rs i.opcode then _ else _) fun rs => ?_
  split
  · exact hP.writeRegister .pc target
  · exact hP.pure _

theorem switch (on : Bool) : P (switch on i) :=
  hP.bind (hP.flagOperand _ _) fun _ => hP.writeFlags _

end Families

section Input

variable (a : UInt32)

theorem inputInteger : P (inputInteger a) := by
  refine hP.bind (hP.checkRange a 4) fun _ => ?_
  refine hP.bind hP.nextInteger fun v => ?_
  cases v with
  | some v => exact hP.store a v
  | none => exact hP.throws _

theorem inputWord : P (inputWord a) := by
  refine hP.bind (hP.checkRange a 4) fun _ => ?_
  exact hP.bind (hP.readBytes 4) fun bytes => hP.store a _

end Input

/-! ### Instructions -/

/-- **A property of the steps holds of every instruction.** -/
theorem instruction (i : Instruction) : P (instruction i) := by
  obtain ⟨op, a, b⟩ := i
  cases op with
  | movi | lodi =>
      refine hP.bind (hP.immediateOperand _ b) fun v => ?_
      exact hP.bind (hP.registerOperand _ a) fun r => hP.writeRegister r v
  | movw =>
      refine hP.bind (hP.wordOperand _ b) fun v => ?_
      exact hP.bind (hP.registerOperand _ a) fun r => hP.writeRegister r v
  | lodw =>
      refine hP.bind (hP.registerOperand _ a) fun r => ?_
      refine hP.bind (hP.addressOperand _ b) fun p => ?_
      exact hP.bind (hP.load p) fun v => hP.writeRegister r v
  | stri =>
      refine hP.bind (hP.immediateOperand _ b) fun v => ?_
      exact hP.bind (hP.addressOperand _ a) fun p => hP.store p v
  | strw =>
      refine hP.bind (hP.wordOperand _ b) fun v => ?_
      exact hP.bind (hP.addressOperand _ a) fun p => hP.store p v
  | xcgh =>
      refine hP.bind (hP.registerOperand _ a) fun r => ?_
      refine hP.bind (hP.registerOperand _ b) fun s => ?_
      refine hP.bind (hP.readRegister r) fun v => ?_
      refine hP.bind (hP.readRegister s) fun w => ?_
      exact hP.bind (hP.writeRegister r w) fun _ => hP.writeRegister s v
  | push => exact hP.bind (hP.wordOperand _ a) fun v => hP.pushWord v
  | pop =>
      refine hP.bind (hP.registerOperand _ a) fun r => ?_
      exact hP.bind hP.popWord fun v => hP.writeRegister r v
  | addw | subw | mul => exact hP.realBinary _ _
  | inc | dec | neg => exact hP.realUnary _ _
  | not =>
      refine hP.bind (hP.registerOperand _ a) fun r => ?_
      exact hP.bind (hP.readRegister r) fun v => hP.result r _ _
  | and | or | xor => exact hP.bitwise _ _
  | shl | shr => exact hP.shift _ _
  | cmpw =>
      refine hP.bind (hP.registerOperand _ a) fun r => ?_
      refine hP.bind (hP.readRegister r) fun v => ?_
      exact hP.bind (hP.wordOperand _ b) fun w => hP.writeFlags _
  | jmp | je | jne | jgt | jge | jlt | jle | js | jco => exact hP.jump _
  | call =>
      refine hP.bind (hP.addressOperand _ a) fun p => ?_
      refine hP.bind (hP.readRegister .sp) fun sp => ?_
      refine hP.bind (hP.readRegister .pc) fun pc => ?_
      refine hP.bind (hP.store (sp - 4) pc) fun _ => ?_
      exact hP.bind (hP.writeRegister .sp _) fun _ => hP.writeRegister .pc p
  | ret =>
      refine hP.bind (hP.readRegister .sp) fun sp => ?_
      refine hP.bind (hP.load sp) fun p => ?_
      exact hP.bind (hP.writeRegister .sp _) fun _ => hP.writeRegister .pc p
  | inp => exact hP.bind (hP.addressOperand _ a) fun p => hP.input p
  | out =>
      refine hP.bind (hP.addressOperand _ a) fun p => ?_
      exact hP.bind (hP.loadString p) fun bytes => hP.print bytes
  | insi => exact hP.bind (hP.addressOperand _ a) fun p => hP.inputInteger p
  | outi => exact hP.bind (hP.wordOperand _ a) fun v => hP.print _
  | insw => exact hP.bind (hP.addressOperand _ a) fun p => hP.inputWord p
  | outw =>
      refine hP.bind (hP.addressOperand _ a) fun p => ?_
      exact hP.bind (hP.load p) fun v => hP.print _
  | setf | clrf => exact hP.switch _ _
  | halt => exact hP.halt

end Stepwise

end WordMachine.Exec
