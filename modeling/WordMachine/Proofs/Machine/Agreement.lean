/-
**Decoder and machine agree on operand kinds.**

What kinds of operands an instruction has is settled twice: by the form that its word is decoded by,
and by what its steps ask of their operands.  The two agree.  On operands of the kinds that words
hold, no step that examines an operand faults; most instructions then cannot fault at all, and the
others only where they access memory or look for a number in the input.

* `Exec.FaultsOnly` — all faults of a computation are of one kind;
* `Exec.commits_instruction` — an instruction that does not access memory never faults;
* `Exec.faultsOnly_instruction` — the faults of the others;
* `Fault.Arises` — **what can go wrong in a decoded instruction**, and on which machine;
* `Instruction.execute_of_decode` — nothing else goes wrong.
-/

import WordMachine.Proofs.Instruction.Kinds
import WordMachine.Proofs.Machine.Atomicity
import WordMachine.Proofs.Memory.Strings

set_option relaxedAutoImplicit false
set_option autoImplicit false

namespace WordMachine

/-! ### What can go wrong -/

/-- An access that is not inside memory, as memory reports it.  Addresses have 32 bits, so that a
memory of `2 ^ 32` bytes or more has no outside. -/
def Memory.OutOfBounds.Outside (e : OutOfBounds) (m : Memory) : Prop :=
  e.memorySize = m.size ∧ (m.size < 2 ^ 32 → ¬ m.InRange e.address e.width)

/-- The instructions that access memory. -/
def Opcode.accessesMemory : Opcode → Bool
  | lodw | stri | strw | push | pop | call | ret | inp | out | insi | insw | outw => true
  | _ => false

/-- **What can go wrong** in an instruction that was decoded, on the machine that executes it: an
access outside memory, if the instruction accesses memory at all; too much input; no number. -/
def Fault.Arises (op : Opcode) (m : Machine) : Fault → Prop
  | outOfBounds e => op.accessesMemory = true ∧ e.Outside m.memory
  | inputTooLong n a => op = .inp ∧ n = m.console.pending ∧ ¬ m.memory.InRange a (n + 1)
  | noInteger => op = .insi ∧ m.console.integer? = none
  | undecodable _ | wrongOperand _ _ _ | invalidFlag _ _ => False

/-- The fault of an access outside memory. -/
def Fault.Outside (m : Machine) : Fault → Prop
  | outOfBounds e => e.Outside m.memory
  | _ => False

theorem Fault.Outside.arises {op : Opcode} {m : Machine} {cause : Fault} (h : cause.Outside m)
    (hop : op.accessesMemory = true) : cause.Arises op m := by
  cases cause with
  | outOfBounds e => exact ⟨hop, h⟩
  | undecodable | inputTooLong | noInteger | wrongOperand | invalidFlag => exact False.elim h

/-! ### Accesses -/

namespace Memory

variable {m : Memory} {a : UInt32} {width : Nat} {e : OutOfBounds}

theorem outside_of_not_inRange (h : ¬ m.InRange a width) :
    OutOfBounds.Outside ⟨width, a, m.size⟩ m :=
  ⟨rfl, fun _ => h⟩

theorem outside_of_check (h : m.check a width = .error e) : e.Outside m := by
  unfold check at h
  split at h
  · exact nomatch h
  · rename_i hrange
    obtain rfl := Except.error.inj h
    exact outside_of_not_inRange hrange

theorem outside_of_read32 (h : m.read32 a = .error e) : e.Outside m := by
  unfold read32 read at h
  split at h
  · exact nomatch h
  · rename_i hrange
    obtain rfl := Except.error.inj h
    exact outside_of_not_inRange hrange

theorem outside_of_cString (h : m.cString a = .error e) : e.Outside m := by
  unfold cString at h
  simp only at h
  split at h
  · exact nomatch h
  · rename_i hstop
    obtain rfl := Except.error.inj h
    refine ⟨rfl, fun hsize hrange => hstop ?_⟩
    -- Neither the start of the search nor the end of memory wraps.
    have hle := m.firstZero_le a.toNat
    have ha := a.toNat_lt
    have hval : (m.firstZero a.toNat).toUInt32.toNat = m.firstZero a.toNat :=
      UInt32.toNat_ofNat_of_lt' (show _ < 2 ^ 32 by omega)
    unfold InRange at hrange
    rw [hval] at hrange
    exact hrange

end Memory

namespace Exec

/-! ### Computations with one kind of fault -/

section Kinds

variable {α β : Type} {F G : Machine → Fault → Prop} {x : Exec α} {f : α → Exec β}

/-- A computation **only faults** in the given way, which may depend on the machine where it
stops. -/
def FaultsOnly (F : Machine → Fault → Prop) (x : Exec α) : Prop :=
  ∀ m cause m', x m = .error cause m' → F m' cause

theorem Commits.faultsOnly (hx : Commits x) : FaultsOnly F x := by
  intro m cause m' h
  exact absurd h hx.ne_error

theorem FaultsOnly.mono (hx : FaultsOnly F x) (h : ∀ m cause, F m cause → G m cause) :
    FaultsOnly G x := by
  intro m cause m' herror
  exact h m' cause (hx m cause m' herror)

theorem FaultsOnly.bind (hx : FaultsOnly F x) (hf : ∀ a, FaultsOnly F (f a)) :
    FaultsOnly F (x >>= f) := by
  intro m cause m' h
  cases hm : x m with
  | ok a m₁ =>
      rw [bind_of_ok hm] at h
      exact hf a m₁ cause m' h
  | error c m₁ =>
      rw [bind_of_error hm] at h
      cases h
      exact hx m cause m' hm

/-- After steps that never fault, only the rest can. -/
theorem Commits.before (hx : Commits x) (hf : ∀ a, FaultsOnly F (f a)) : FaultsOnly F (x >>= f) :=
  hx.faultsOnly.bind hf

end Kinds

/-! ### Steps -/

theorem commits_readRegister (r : Register) : Commits (readRegister r) :=
  fun m => ⟨m.registers.get r, m, rfl⟩

theorem commits_readFlag (f : Flag) : Commits (readFlag f) :=
  fun m => ⟨m.registers.flag f, m, rfl⟩

theorem commits_get : Commits (get : Exec Machine) :=
  fun m => ⟨m, m, rfl⟩

theorem commits_readBytes (n : Nat) : Commits (readBytes n) :=
  fun _ => ⟨_, _, rfl⟩

theorem faultsOnly_inspect {α : Type} {read : Memory → Except Memory.OutOfBounds α}
    (h : ∀ m e, read m = .error e → e.Outside m) : FaultsOnly (fun m => (·.Outside m))
      (inspect read) := by
  intro m cause m' herror
  cases hread : read m.memory with
  | ok v => simp [inspect, hread] at herror
  | error e =>
      simp only [inspect, hread] at herror
      cases herror
      exact h _ _ hread

theorem faultsOnly_checkRange (a : UInt32) (width : Nat) :
    FaultsOnly (fun m => (·.Outside m)) (checkRange a width) :=
  faultsOnly_inspect fun _ _ => Memory.outside_of_check

theorem faultsOnly_load (a : UInt32) : FaultsOnly (fun m => (·.Outside m)) (load a) :=
  faultsOnly_inspect fun _ _ => Memory.outside_of_read32

theorem load_of_not_inRange {a : UInt32} {m : Machine} (h : ¬ m.memory.InRange a 4) :
    load a m = .error (.outOfBounds ⟨4, a, m.memory.size⟩) m := by
  simp [load, inspect, Memory.read32, Memory.read, h, Except.map]

theorem faultsOnly_loadString (a : UInt32) : FaultsOnly (fun m => (·.Outside m)) (loadString a) :=
  faultsOnly_inspect fun _ _ => Memory.outside_of_cString

theorem faultsOnly_store (a v : UInt32) : FaultsOnly (fun m => (·.Outside m)) (store a v) := by
  intro m cause m' h
  by_cases hfits : m.memory.InRange a 4
  · rw [store_of_inRange hfits] at h
    cases h
  · rw [store_of_not_inRange hfits] at h
    cases h
    exact Memory.outside_of_not_inRange hfits

theorem faultsOnly_pushWord (v : UInt32) : FaultsOnly (fun m => (·.Outside m)) (pushWord v) := by
  refine (commits_readRegister .sp).before fun sp => ?_
  refine (commits_readFlag .stackDir).before fun up => ?_
  cases up with
  | true => exact (faultsOnly_store sp v).bind fun _ => (commits_writeRegister .sp _).faultsOnly
  | false =>
      exact (faultsOnly_store (sp - 4) v).bind fun _ => (commits_writeRegister .sp _).faultsOnly

theorem faultsOnly_popWord : FaultsOnly (fun m => (·.Outside m)) popWord := by
  refine (commits_readRegister .sp).before fun sp => ?_
  refine (commits_readFlag .stackDir).before fun up => ?_
  have moves : ∀ v sp', Commits (do writeRegister .sp sp'; return v : Exec UInt32) :=
    fun v sp' => (commits_writeRegister .sp sp').bind fun _ => commits_pure v
  cases up with
  | true => exact (faultsOnly_load (sp - 4)).bind fun v => (moves v _).faultsOnly
  | false => exact (faultsOnly_load sp).bind fun v => (moves v _).faultsOnly

theorem faultsOnly_input (a : UInt32) : FaultsOnly (fun m => (·.Arises .inp m)) (input a) := by
  intro m cause m' h
  by_cases hfits : m.memory.InRange a (m.console.pending + 1)
  · rw [input_of_inRange hfits] at h
    exact nomatch h
  · rw [input_of_not_inRange hfits] at h
    cases h
    exact ⟨rfl, rfl, hfits⟩

theorem faultsOnly_inputInteger (a : UInt32) :
    FaultsOnly (fun m cause => cause = .noInteger ∨ cause.Outside m) (inputInteger a) := by
  intro m cause m' h
  by_cases hfits : m.memory.InRange a 4
  · -- With room for a number, none in the input is all that is left to go wrong.
    cases hnext : m.console.integer? with
    | some next =>
        obtain ⟨v, n⟩ := next
        rw [inputInteger_of_some hfits hnext] at h
        exact nomatch h
    | none =>
        rw [inputInteger_of_none hfits hnext] at h
        cases h
        exact .inl rfl
  · rw [inputInteger_of_not_inRange hfits] at h
    cases h
    exact .inr (Memory.outside_of_not_inRange hfits)

theorem faultsOnly_inputWord (a : UInt32) :
    FaultsOnly (fun m => (·.Outside m)) (inputWord a) := by
  refine (faultsOnly_checkRange a 4).bind fun _ => (commits_readBytes 4).before fun bytes => ?_
  exact faultsOnly_store a _

/-! ### Operands -/

section Operands

open Operand

variable {op : Opcode} {o : Option Operand}

theorem commits_registerOperand (h : IsRegister o) : Commits (registerOperand op o) := by
  obtain ⟨r, rfl⟩ := h
  exact commits_pure r

theorem commits_immediateOperand (h : IsNumber o) : Commits (immediateOperand op o) := by
  obtain ⟨v, rfl⟩ := h
  exact commits_pure v

theorem commits_wordOperand (h : IsWord o) : Commits (wordOperand op o) := by
  rcases h with ⟨r, rfl⟩ | ⟨v, rfl⟩
  · exact commits_readRegister r
  · exact commits_pure v

theorem commits_realOperand (h : IsWord o) : Commits (realOperand op o) := by
  rcases h with ⟨r, rfl⟩ | ⟨v, rfl⟩
  · exact commits_readRegister r
  · exact commits_pure (Arithmetic.ofNumber v)

theorem commits_addressOperand (h : IsPlace o) : Commits (addressOperand op o) := by
  rcases h with ⟨v, rfl⟩ | ⟨r, rfl⟩
  · exact commits_pure v
  · exact commits_readRegister r

theorem commits_flagOperand (op : Opcode) (f : Flag) :
    Commits (flagOperand op (some (ofFlag f))) := by
  cases f <;> exact commits_pure _

end Operands

/-! ### Instructions -/

section Instructions

variable {i : Instruction}

theorem commits_jump (h : Operand.IsPlace i.a) : Commits (jump i) := by
  refine (commits_addressOperand h).bind fun target => commits_get.bind fun m => ?_
  split
  · exact commits_writeRegister .pc target
  · exact commits_pure _

/-- **An instruction that does not access memory never faults**, when its operands are of the kinds
that words hold and its flag exists. -/
theorem commits_instruction (h : i.opcode.form.Kinds i.a i.b)
    (hflag : i.opcode.form = .flagId → ∃ f, i.a = some (Operand.ofFlag f))
    (hop : i.opcode.accessesMemory = false) : Commits (instruction i) := by
  obtain ⟨op, a, b⟩ := i
  cases op with
  | lodw | stri | strw | push | pop | call | ret | inp | out | insi | insw | outw =>
      exact nomatch hop
  | movi | lodi =>
      refine (commits_immediateOperand h.2).bind fun v => ?_
      exact (commits_registerOperand h.1).bind fun r => commits_writeRegister r v
  | movw =>
      refine (commits_wordOperand h.2).bind fun v => ?_
      exact (commits_registerOperand h.1).bind fun r => commits_writeRegister r v
  | xcgh =>
      refine (commits_registerOperand h.1).bind fun r => ?_
      refine (commits_registerOperand h.2).bind fun s => ?_
      refine (commits_readRegister r).bind fun v => (commits_readRegister s).bind fun w => ?_
      exact (commits_writeRegister r w).bind fun _ => commits_writeRegister s v
  | addw | subw | mul =>
      refine (commits_registerOperand h.1).bind fun r => (commits_readRegister r).bind fun v => ?_
      exact (commits_realOperand h.2).bind fun w => commits_result r _ _
  | inc | dec | neg | not =>
      refine (commits_registerOperand h.1).bind fun r => (commits_readRegister r).bind fun v => ?_
      exact commits_result r _ _
  | and | or | xor | shl | shr =>
      refine (commits_registerOperand h.1).bind fun r => (commits_readRegister r).bind fun v => ?_
      exact (commits_wordOperand h.2).bind fun w => commits_result r _ _
  | cmpw =>
      refine (commits_registerOperand h.1).bind fun r => (commits_readRegister r).bind fun v => ?_
      exact (commits_wordOperand h.2).bind fun w => commits_writeFlags _
  | jmp | je | jne | jgt | jge | jlt | jle | js | jco => exact commits_jump h.1
  | outi => exact (commits_wordOperand h.1).bind fun v => commits_print _
  | setf | clrf =>
      obtain ⟨f, rfl⟩ := hflag rfl
      exact (commits_flagOperand _ f).bind fun f => commits_writeFlags _
  | halt => exact commits_halt

/-- **An instruction that accesses memory faults nowhere else**, or does not find a number. -/
theorem faultsOnly_instruction (h : i.opcode.form.Kinds i.a i.b)
    (hop : i.opcode.accessesMemory = true) :
    FaultsOnly (fun m cause => cause = .noInteger ∨ cause.Arises i.opcode m) (instruction i) := by
  obtain ⟨op, a, b⟩ := i
  -- Most of these instructions have no other faults than those of one access.
  have access : FaultsOnly (fun m => (·.Outside m)) (instruction ⟨op, a, b⟩) →
      FaultsOnly (fun m cause => cause = .noInteger ∨ cause.Arises op m)
        (instruction ⟨op, a, b⟩) :=
    fun hx => hx.mono fun m cause hcause => .inr (hcause.arises hop)
  cases op with
  | movi | movw | lodi | xcgh | addw | subw | mul | inc | dec | neg | not | and | or | xor | shl
  | shr | cmpw | jmp | je | jne | jgt | jge | jlt | jle | js | jco | outi | setf | clrf | halt =>
      exact nomatch hop
  | lodw =>
      refine access <| (commits_registerOperand h.1).before fun r => ?_
      refine (commits_addressOperand (.inl h.2)).before fun p => ?_
      refine (faultsOnly_load p).bind fun v => ?_
      exact (commits_writeRegister r v).faultsOnly
  | stri =>
      refine access <| (commits_immediateOperand h.2).before fun v => ?_
      exact (commits_addressOperand h.1).before fun p => faultsOnly_store p v
  | strw =>
      refine access <| (commits_wordOperand h.2).before fun v => ?_
      exact (commits_addressOperand h.1).before fun p => faultsOnly_store p v
  | push => exact access <| (commits_wordOperand h.1).before fun v => faultsOnly_pushWord v
  | pop =>
      refine access <| (commits_registerOperand h.1).before fun r => ?_
      exact faultsOnly_popWord.bind fun v => (commits_writeRegister r v).faultsOnly
  | call =>
      refine access <| (commits_addressOperand h.1).before fun p => ?_
      refine (commits_readRegister .sp).before fun sp => ?_
      refine (commits_readRegister .pc).before fun pc => ?_
      refine (faultsOnly_store (sp - 4) pc).bind fun _ => Commits.faultsOnly ?_
      exact (commits_writeRegister .sp _).bind fun _ => commits_writeRegister .pc p
  | ret =>
      refine access <| (commits_readRegister .sp).before fun sp => ?_
      refine (faultsOnly_load sp).bind fun p => Commits.faultsOnly ?_
      exact (commits_writeRegister .sp _).bind fun _ => commits_writeRegister .pc p
  | inp =>
      refine (commits_addressOperand h.1).before fun p => (faultsOnly_input p).mono ?_
      exact fun m cause hcause => .inr hcause
  | out =>
      refine access <| (commits_addressOperand h.1).before fun p => ?_
      exact (faultsOnly_loadString p).bind fun bytes => (commits_print bytes).faultsOnly
  | insi =>
      refine (commits_addressOperand h.1).before fun p => (faultsOnly_inputInteger p).mono ?_
      intro m cause hcause
      exact hcause.imp_right fun houtside => houtside.arises hop
  | insw => exact access <| (commits_addressOperand h.1).before fun p => faultsOnly_inputWord p
  | outw =>
      refine access <| (commits_addressOperand h.1).before fun p => ?_
      exact (faultsOnly_load p).bind fun v => (commits_print _).faultsOnly

end Instructions

end Exec

/-! ### Words -/

namespace Instruction

open Exec

variable {w : UInt32} {i : Instruction} {m m' : Machine} {cause : Fault}

/-- **What goes wrong in a decoded instruction** arises from memory or from the input. -/
theorem arises_of_decode (hdecode : decode w = .ok i) (h : instruction i m = .error cause m') :
    cause.Arises i.opcode m := by
  have hkinds := kinds_of_decode hdecode
  rcases instruction_error h with ⟨rfl, hne⟩ | ⟨hop, rfl, hnone, _⟩
  · cases hop : i.opcode.accessesMemory with
    | false =>
        have hcommits := commits_instruction hkinds (exists_flag_of_decode hdecode) hop
        exact absurd h hcommits.ne_error
    | true => exact (faultsOnly_instruction hkinds hop m' cause m' h).resolve_left hne
  · exact ⟨hop, hnone⟩

theorem execute_of_decode (hdecode : decode w = .ok i) (m : Machine) :
    (∃ m', m.execute i = .done m') ∨
      ∃ cause m', m.execute i = .faulted cause m' ∧ cause.Arises i.opcode m := by
  cases h : instruction i m with
  | ok u m' => exact .inl ⟨m', by rw [Machine.execute, h]⟩
  | error cause m' =>
      exact .inr ⟨cause, m', by rw [Machine.execute, h], arises_of_decode hdecode h⟩

end Instruction

end WordMachine
