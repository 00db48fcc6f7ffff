/-
**Executing an instruction.**

An instruction examines its operands, reads what it needs, tests addresses and changes the machine,
each in the order of its own steps.  The program counter already points to the next instruction by
then.

A move or a store examines its value before the place for it; the other instructions examine their
operands from the left.

Main definitions:

* `Exec.registerOperand`, `Exec.wordOperand`, `Exec.addressOperand`, … — operands;
* `Exec.pushWord`, `Exec.popWord` — the stack;
* `Exec.instruction` — the steps of an instruction;
* `Outcome`, `Machine.execute` — the machine after an instruction.

Main results:

* `Machine.execute_eq_done` — when an instruction is executed.
-/

import WordMachine.Machine.Effects
import WordMachine.Arithmetic

set_option relaxedAutoImplicit false
set_option autoImplicit false

namespace WordMachine

namespace Exec

/-! ### Operands -/

/-- The register that an operand must be. -/
def registerOperand (op : Opcode) : Option Operand → Exec Register
  | some (.register r) => return r
  | got => throw (.wrongOperand op .register got)

/-- The number that an operand must be. -/
def immediateOperand (op : Opcode) : Option Operand → Exec UInt32
  | some (.immediate v) => return v
  | got => throw (.wrongOperand op .immediate got)

/-- The word of an operand that must be a register or a number. -/
def wordOperand (op : Opcode) : Option Operand → Exec UInt32
  | some (.register r) => readRegister r
  | some (.immediate v) => return v
  | got => throw (.wrongOperand op .registerOrImmediate got)

/-- The binary32 number of an operand that must be a register, which holds one, or a number. -/
def realOperand (op : Opcode) : Option Operand → Exec UInt32
  | some (.register r) => readRegister r
  | some (.immediate v) => return Arithmetic.ofNumber v
  | got => throw (.wrongOperand op .registerOrImmediate got)

/-- The address that an operand must be, or that its register holds. -/
def addressOperand (op : Opcode) : Option Operand → Exec UInt32
  | some (.address a) => return a
  | some (.indirect r) => readRegister r
  | some (.register r) => readRegister r
  | got => throw (.wrongOperand op .address got)

/-- The flag that an operand must be. -/
def flagOperand (op : Opcode) : Option Operand → Exec Flag
  | some (.flag n) =>
    match Flag.ofId? n.toNat with
    | some f => return f
    | none => throw (.invalidFlag op n)
  | got => throw (.wrongOperand op .flag got)

/-! ### The stack -/

/-- Pushes a word.  With the stack-direction flag set the stack grows upwards and its pointer is the
first free address; else it grows downwards and its pointer is the last word. -/
def pushWord (v : UInt32) : Exec Unit := do
  let sp ← readRegister .sp
  if ← readFlag .stackDir then
    store sp v
    writeRegister .sp (sp + 4)
  else
    store (sp - 4) v
    writeRegister .sp (sp - 4)

/-- Pops a word, on the stack in the direction of the stack-direction flag. -/
def popWord : Exec UInt32 := do
  let sp ← readRegister .sp
  if ← readFlag .stackDir then
    let v ← load (sp - 4)
    writeRegister .sp (sp - 4)
    return v
  else
    let v ← load sp
    writeRegister .sp (sp + 4)
    return v

/-! ### Families of instructions -/

/-- A binary32 operation on a register and a source.  The flags tell the sign of the result. -/
def realBinary (f : UInt32 → UInt32 → UInt32) (i : Instruction) : Exec Unit := do
  let r ← registerOperand i.opcode i.a
  let a ← readRegister r
  let b ← realOperand i.opcode i.b
  writeRegister r (f a b)
  writeFlags (Arithmetic.realFlags (f a b))

/-- A binary32 operation on a register. -/
def realUnary (f : UInt32 → UInt32) (i : Instruction) : Exec Unit := do
  let r ← registerOperand i.opcode i.a
  let a ← readRegister r
  writeRegister r (f a)
  writeFlags (Arithmetic.realFlags (f a))

/-- A bitwise operation on a register and a source. -/
def bitwise (f : UInt32 → UInt32 → UInt32) (i : Instruction) : Exec Unit := do
  let r ← registerOperand i.opcode i.a
  let a ← readRegister r
  let b ← wordOperand i.opcode i.b
  writeRegister r (f a b)
  writeFlags (Arithmetic.sumFlags (f a b) a b)

/-- A shift of a register, by a source. -/
def shift (f : UInt32 → UInt32 → UInt32 × Bool) (i : Instruction) : Exec Unit := do
  let r ← registerOperand i.opcode i.a
  let a ← readRegister r
  let n ← wordOperand i.opcode i.b
  let (v, carry) := f a n
  writeRegister r v
  writeFlags (Arithmetic.shiftFlags v carry)

/-- A jump is taken in the given state of the registers. -/
def taken (rs : RegisterFile) : Opcode → Bool :=
  let zero := rs.flag .zero
  let sign := rs.flag .sign
  fun
  | .jmp => true
  | .je => zero
  | .jne => !zero
  | .jgt => !zero && !sign
  | .jge => !sign
  | .jlt => !zero && sign
  | .jle => zero || sign
  | .js => sign
  | .jco => rs.flag .carry || rs.flag .overflow
  | _ => false

/-- A jump, taken or not.  The address is examined in any case. -/
def jump (i : Instruction) : Exec Unit := do
  let target ← addressOperand i.opcode i.a
  if taken (← get).registers i.opcode then writeRegister .pc target

/-- Sets or clears a flag. -/
def switch (on : Bool) (i : Instruction) : Exec Unit := do
  let f ← flagOperand i.opcode i.a
  writeFlags [(f, on)]

/-! ### Input and output -/

/-- The word `v` as a line of output: `0x` and eight digits. -/
def hexLine (v : UInt32) : List UInt8 :=
  (Numeral.word v.toNat ++ ['\n']).toBytes

/-- The number `v` as a line of output, in decimal. -/
def decimalLine (v : UInt32) : List UInt8 :=
  (Numeral.decimal v.toNat ++ ['\n']).toBytes

/-- Moves all input and a zero to an address. -/
def input (a : UInt32) : Exec Unit := do
  let n ← pendingInput
  if a.toNat + n + 1 > (← memorySize) then throw (.inputTooLong n a)
  else
    let bytes ← readAll
    storeBytes a (bytes ++ [0])

/-- Moves the next number of the input to an address, which is tested before any input is read. -/
def inputInteger (a : UInt32) : Exec Unit := do
  checkRange a 4
  match ← nextInteger with
  | some v => store a v
  | none => throw .noInteger

/-- Moves the next four bytes of the input to an address, which is tested before any input is read.
Bytes that are missing are zero. -/
def inputWord (a : UInt32) : Exec Unit := do
  checkRange a 4
  let bytes ← readBytes 4
  store a (LittleEndian.combine bytes).toUInt32

/-! ### Instructions -/

/-- The steps of an **instruction**. -/
def instruction (i : Instruction) : Exec Unit :=
  match i.opcode with
  | .movi | .lodi => do
    let v ← immediateOperand i.opcode i.b
    let r ← registerOperand i.opcode i.a
    writeRegister r v
  | .movw => do
    let v ← wordOperand i.opcode i.b
    let r ← registerOperand i.opcode i.a
    writeRegister r v
  | .lodw => do
    let r ← registerOperand i.opcode i.a
    let a ← addressOperand i.opcode i.b
    writeRegister r (← load a)
  | .stri => do
    let v ← immediateOperand i.opcode i.b
    let a ← addressOperand i.opcode i.a
    store a v
  | .strw => do
    let v ← wordOperand i.opcode i.b
    let a ← addressOperand i.opcode i.a
    store a v
  | .xcgh => do
    let r ← registerOperand i.opcode i.a
    let s ← registerOperand i.opcode i.b
    let v ← readRegister r
    writeRegister r (← readRegister s)
    writeRegister s v
  | .push => do
    pushWord (← wordOperand i.opcode i.a)
  | .pop => do
    let r ← registerOperand i.opcode i.a
    writeRegister r (← popWord)
  | .addw => realBinary Arithmetic.add i
  | .subw => realBinary Arithmetic.sub i
  | .mul => realBinary Arithmetic.mul i
  | .inc => realUnary (Arithmetic.add · Arithmetic.one) i
  | .dec => realUnary (Arithmetic.sub · Arithmetic.one) i
  | .neg => realUnary Arithmetic.negate i
  | .not => do
    let r ← registerOperand i.opcode i.a
    let a ← readRegister r
    writeRegister r (~~~ a)
    writeFlags (Arithmetic.sumFlags (~~~ a) a 0)
  | .and => bitwise (· &&& ·) i
  | .or => bitwise (· ||| ·) i
  | .xor => bitwise (· ^^^ ·) i
  | .shl => shift Arithmetic.shiftLeft i
  | .shr => shift Arithmetic.shiftRight i
  | .cmpw => do
    let a ← readRegister (← registerOperand i.opcode i.a)
    let b ← wordOperand i.opcode i.b
    writeFlags (Arithmetic.differenceFlags (a - b) a b)
  | .jmp | .je | .jne | .jgt | .jge | .jlt | .jle | .js | .jco => jump i
  | .call => do
    let target ← addressOperand i.opcode i.a
    let sp ← readRegister .sp
    store (sp - 4) (← readRegister .pc)
    writeRegister .sp (sp - 4)
    writeRegister .pc target
  | .ret => do
    let sp ← readRegister .sp
    let target ← load sp
    writeRegister .sp (sp + 4)
    writeRegister .pc target
  | .inp => do
    input (← addressOperand i.opcode i.a)
  | .out => do
    let a ← addressOperand i.opcode i.a
    print (← loadString a)
  | .insi => do
    inputInteger (← addressOperand i.opcode i.a)
  | .outi => do
    print (decimalLine (← wordOperand i.opcode i.a))
  | .insw => do
    inputWord (← addressOperand i.opcode i.a)
  | .outw => do
    let a ← addressOperand i.opcode i.a
    print (hexLine (← load a))
  | .setf => switch true i
  | .clrf => switch false i
  | .halt => halt

end Exec

/-- What becomes of the machine in an instruction. -/
inductive Outcome
  /-- The instruction was executed. -/
  | done (m : Machine)
  /-- The instruction faulted. -/
  | faulted (cause : Fault) (m : Machine)
  deriving DecidableEq, Repr

/-- Executes an instruction. -/
def Machine.execute (m : Machine) (i : Instruction) : Outcome :=
  match Exec.instruction i m with
  | .ok () m => .done m
  | .error cause m => .faulted cause m

/-- An instruction is executed when all its steps succeed. -/
theorem Machine.execute_eq_done {m m' : Machine} {i : Instruction} :
    m.execute i = .done m' ↔ Exec.instruction i m = .ok () m' := by
  rw [Machine.execute]
  cases Exec.instruction i m <;> simp

end WordMachine
