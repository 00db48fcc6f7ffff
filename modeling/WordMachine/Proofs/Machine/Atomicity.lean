/-
**Faulting instructions change nothing.**

The steps of an instruction fall into three kinds.  Some *look*: they may fault, and they change
nothing.  Some *commit*: they change the machine, and they never fault.  Writing to memory is
*atomic*: it tests the whole range first.  Every instruction looks, then does at most one atomic
step, and then commits, so that none is left half done.  Three instructions read input before they
write to memory; they have tested the address before, and the write succeeds.

Looking for a number in the input is the exception: it reads the white space even if no number
follows.

Main definitions:

* `Exec.Looks`, `Exec.Commits`, `Exec.Atomic` — the three kinds of computations.

Main results:

* `Exec.atomic_instruction` — every instruction but one is atomic;
* `Exec.instruction_error` — what a faulting instruction leaves behind.
-/

import WordMachine.Machine.Execute

set_option relaxedAutoImplicit false
set_option autoImplicit false

namespace WordMachine.Exec

/-! ### The three kinds -/

section Kinds

variable {α β : Type}

/-- A computation **looks** if it changes nothing, whether it faults or not.  Its faults are not
about the input. -/
def Looks (x : Exec α) : Prop :=
  ∀ m, (∃ a, x m = .ok a m) ∨ ∃ cause, cause ≠ .noInteger ∧ x m = .error cause m

/-- A computation **commits** if it never faults. -/
def Commits (x : Exec α) : Prop :=
  ∀ m, ∃ a m', x m = .ok a m'

/-- A computation is **atomic** if it changes nothing when it faults. -/
def Atomic (x : Exec α) : Prop :=
  ∀ m cause m', x m = .error cause m' → m' = m ∧ cause ≠ .noInteger

variable {x : Exec α} {f : α → Exec β} {m m' : Machine}

theorem bind_of_ok {a : α} (h : x m = .ok a m') : (x >>= f) m = f a m' := by
  show EStateM.bind x f m = _
  rw [EStateM.bind, h]

theorem bind_of_error {cause : Fault} (h : x m = .error cause m') :
    (x >>= f) m = .error cause m' := by
  show EStateM.bind x f m = _
  rw [EStateM.bind, h]

/-- A sequence succeeds when its first part does, and then the rest on its result. -/
theorem bind_eq_ok {b : β} :
    (x >>= f) m = .ok b m' ↔ ∃ a m₁, x m = .ok a m₁ ∧ f a m₁ = .ok b m' := by
  cases hx : x m with
  | ok a m₁ =>
      rw [bind_of_ok hx]
      constructor
      · intro h
        exact ⟨a, m₁, rfl, h⟩
      · rintro ⟨a', m₁', hok, h⟩
        cases hok
        exact h
  | error cause m₁ =>
      rw [bind_of_error hx]
      exact ⟨nofun, fun ⟨_, _, hok, _⟩ => nomatch hok⟩

theorem looks_pure (a : α) : Looks (pure a) :=
  fun _ => .inl ⟨a, rfl⟩

theorem looks_throw {cause : Fault} (h : cause ≠ .noInteger) : Looks (throw cause : Exec α) :=
  fun _ => .inr ⟨cause, h, rfl⟩

theorem Looks.atomic (hx : Looks x) : Atomic x := by
  intro m cause m' h
  rcases hx m with ⟨a, hok⟩ | ⟨c, hc, herror⟩
  · rw [hok] at h
    exact nomatch h
  · rw [herror] at h
    cases h
    exact ⟨rfl, hc⟩

theorem Commits.ne_error {cause : Fault} (hx : Commits x) : x m ≠ .error cause m' := by
  intro h
  obtain ⟨a, m₁, hok⟩ := hx m
  rw [hok] at h
  exact nomatch h

theorem Commits.atomic (hx : Commits x) : Atomic x :=
  fun _ _ _ h => absurd h hx.ne_error

/-- After looking, the machine is still the one that a fault should leave. -/
theorem Looks.bind (hx : Looks x) (hf : ∀ a, Atomic (f a)) : Atomic (x >>= f) := by
  intro m cause m' h
  rcases hx m with ⟨a, hok⟩ | ⟨c, hc, herror⟩
  · rw [bind_of_ok hok] at h
    exact hf a m cause m' h
  · rw [bind_of_error herror] at h
    cases h
    exact ⟨rfl, hc⟩

/-- After an atomic step nothing may fault any more. -/
theorem Atomic.bind (hx : Atomic x) (hf : ∀ a, Commits (f a)) : Atomic (x >>= f) := by
  intro m cause m' h
  cases hm : x m with
  | ok a m₁ =>
      rw [bind_of_ok hm] at h
      exact absurd h (hf a).ne_error
  | error c m₁ =>
      rw [bind_of_error hm] at h
      cases h
      exact hx m cause m' hm

theorem Commits.bind (hx : Commits x) (hf : ∀ a, Commits (f a)) : Commits (x >>= f) := by
  intro m
  obtain ⟨a, m₁, ha⟩ := hx m
  obtain ⟨b, m₂, hb⟩ := hf a m₁
  exact ⟨b, m₂, by rw [bind_of_ok ha, hb]⟩

end Kinds

/-! ### Effects -/

theorem looks_readRegister (r : Register) : Looks (readRegister r) :=
  fun m => .inl ⟨m.registers.get r, rfl⟩

theorem looks_readFlag (f : Flag) : Looks (readFlag f) :=
  fun m => .inl ⟨m.registers.flag f, rfl⟩

theorem looks_get : Looks (get : Exec Machine) :=
  fun m => .inl ⟨m, rfl⟩

theorem looks_inspect {α : Type} (read : Memory → Except Memory.OutOfBounds α) :
    Looks (inspect read) := by
  intro m
  cases h : read m.memory with
  | ok v => exact .inl ⟨v, by simp [inspect, h]⟩
  | error cause => exact .inr ⟨.outOfBounds cause, by simp, by simp [inspect, h]⟩

theorem looks_load (a : UInt32) : Looks (load a) :=
  looks_inspect _

theorem load_of_read32 {a v : UInt32} {m : Machine} (h : m.memory.read32 a = .ok v) :
    load a m = .ok v m := by
  simp [load, inspect, h]

theorem looks_loadString (a : UInt32) : Looks (loadString a) :=
  looks_inspect _

theorem commits_writeRegister (r : Register) (v : UInt32) : Commits (writeRegister r v) :=
  fun _ => ⟨(), _, rfl⟩

theorem commits_writeFlags (states : List (Flag × Bool)) : Commits (writeFlags states) :=
  fun _ => ⟨(), _, rfl⟩

theorem commits_pure {α : Type} (a : α) : Commits (pure a) :=
  fun m => ⟨a, m, rfl⟩

theorem commits_print (bytes : List UInt8) : Commits (print bytes) :=
  fun _ => ⟨(), _, rfl⟩

theorem commits_halt : Commits halt :=
  fun _ => ⟨(), _, rfl⟩

/-- A write that fits is done. -/
theorem storeBytes_of_inRange {a : UInt32} {bytes : List UInt8} {m : Machine}
    (h : m.memory.InRange a bytes.length) :
    storeBytes a bytes m = .ok () { m with memory := m.memory.put a.toNat bytes } := by
  simp [storeBytes, Memory.write, h]

/-- A write that does not fit is refused as a whole. -/
theorem storeBytes_of_not_inRange {a : UInt32} {bytes : List UInt8} {m : Machine}
    (h : ¬ m.memory.InRange a bytes.length) :
    storeBytes a bytes m = .error (.outOfBounds ⟨bytes.length, a, m.memory.size⟩) m := by
  simp [storeBytes, Memory.write, h]

theorem atomic_storeBytes (a : UInt32) (bytes : List UInt8) : Atomic (storeBytes a bytes) := by
  intro m cause m' h
  by_cases hfits : m.memory.InRange a bytes.length
  · rw [storeBytes_of_inRange hfits] at h
    exact nomatch h
  · rw [storeBytes_of_not_inRange hfits] at h
    cases h
    exact ⟨rfl, by simp⟩

theorem atomic_store (a v : UInt32) : Atomic (store a v) :=
  atomic_storeBytes a _

/-! ### Operands -/

section Operands

variable (op : Opcode) (o : Option Operand)

theorem looks_registerOperand : Looks (registerOperand op o) := by
  unfold registerOperand
  split
  · exact looks_pure _
  · exact looks_throw (by simp)

theorem looks_immediateOperand : Looks (immediateOperand op o) := by
  unfold immediateOperand
  split
  · exact looks_pure _
  · exact looks_throw (by simp)

theorem looks_wordOperand : Looks (wordOperand op o) := by
  unfold wordOperand
  split
  · exact looks_readRegister _
  · exact looks_pure _
  · exact looks_throw (by simp)

theorem looks_realOperand : Looks (realOperand op o) := by
  unfold realOperand
  split
  · exact looks_readRegister _
  · exact looks_pure _
  · exact looks_throw (by simp)

theorem looks_addressOperand : Looks (addressOperand op o) := by
  unfold addressOperand
  split
  · exact looks_pure _
  · exact looks_readRegister _
  · exact looks_readRegister _
  · exact looks_throw (by simp)

theorem looks_flagOperand : Looks (flagOperand op o) := by
  unfold flagOperand
  split
  · split
    · exact looks_pure _
    · exact looks_throw (by simp)
  · exact looks_throw (by simp)

end Operands

/-! ### The stack -/

/-- The word is stored before the stack pointer moves. -/
theorem atomic_pushWord (v : UInt32) : Atomic (pushWord v) := by
  refine (looks_readRegister .sp).bind fun sp => (looks_readFlag .stackDir).bind fun up => ?_
  cases up with
  | true => exact (atomic_store sp v).bind fun _ => commits_writeRegister .sp _
  | false => exact (atomic_store (sp - 4) v).bind fun _ => commits_writeRegister .sp _

/-- The word is loaded before the stack pointer moves. -/
theorem atomic_popWord : Atomic popWord := by
  refine (looks_readRegister .sp).bind fun sp => (looks_readFlag .stackDir).bind fun up => ?_
  have moves : ∀ v sp', Commits (do writeRegister .sp sp'; return v : Exec UInt32) :=
    fun v sp' => (commits_writeRegister .sp sp').bind fun _ => commits_pure v
  cases up with
  | true => exact (looks_load (sp - 4)).bind fun v => (moves v _).atomic
  | false => exact (looks_load sp).bind fun v => (moves v _).atomic

/-! ### Families of instructions -/

section Families

variable (i : Instruction)

theorem commits_result (r : Register) (v : UInt32) (states : List (Flag × Bool)) :
    Commits (do writeRegister r v; writeFlags states) :=
  (commits_writeRegister r v).bind fun _ => commits_writeFlags states

theorem atomic_realBinary (f : UInt32 → UInt32 → UInt32) : Atomic (realBinary f i) := by
  refine (looks_registerOperand _ _).bind fun r => (looks_readRegister r).bind fun a => ?_
  exact (looks_realOperand _ _).bind fun b => (commits_result r _ _).atomic

theorem atomic_realUnary (f : UInt32 → UInt32) : Atomic (realUnary f i) := by
  refine (looks_registerOperand _ _).bind fun r => (looks_readRegister r).bind fun a => ?_
  exact (commits_result r _ _).atomic

theorem atomic_bitwise (f : UInt32 → UInt32 → UInt32) : Atomic (bitwise f i) := by
  refine (looks_registerOperand _ _).bind fun r => (looks_readRegister r).bind fun a => ?_
  exact (looks_wordOperand _ _).bind fun b => (commits_result r _ _).atomic

theorem atomic_shift (f : UInt32 → UInt32 → UInt32 × Bool) : Atomic (shift f i) := by
  refine (looks_registerOperand _ _).bind fun r => (looks_readRegister r).bind fun a => ?_
  exact (looks_wordOperand _ _).bind fun n => (commits_result r _ _).atomic

theorem atomic_jump : Atomic (jump i) := by
  refine (looks_addressOperand _ _).bind fun target => looks_get.bind fun m => ?_
  split
  · exact (commits_writeRegister .pc target).atomic
  · exact (commits_pure _).atomic

theorem atomic_switch (on : Bool) : Atomic (switch on i) :=
  (looks_flagOperand _ _).bind fun _ => (commits_writeFlags _).atomic

end Families

/-! ### Input -/

section Input

variable {a : UInt32} {m m' : Machine} {cause : Fault}

theorem checkRange_of_inRange {width : Nat} (h : m.memory.InRange a width) :
    checkRange a width m = .ok () m := by
  simp [checkRange, inspect, Memory.check, h]

theorem checkRange_of_not_inRange {width : Nat} (h : ¬ m.memory.InRange a width) :
    checkRange a width m = .error (.outOfBounds ⟨width, a, m.memory.size⟩) m := by
  simp [checkRange, inspect, Memory.check, h]

/-- A word fits where four bytes do. -/
theorem store_of_inRange {v : UInt32} (h : m.memory.InRange a 4) :
    store a v m = .ok () { m with memory := m.memory.put a.toNat (Memory.wordBytes v) } :=
  storeBytes_of_inRange (by rwa [Memory.wordBytes, LittleEndian.length_split])

theorem store_of_not_inRange {v : UInt32} (h : ¬ m.memory.InRange a 4) :
    store a v m = .error (.outOfBounds ⟨4, a, m.memory.size⟩) m := by
  have hlength : (Memory.wordBytes v).length = 4 := LittleEndian.length_split 4 v.toNat
  rw [store, storeBytes_of_not_inRange (by rwa [hlength]), hlength]

/-- A word that has been stored did fit. -/
theorem store_eq_ok {v : UInt32} : store a v m = .ok () m' ↔
    m.memory.InRange a 4 ∧
      m' = { m with memory := m.memory.put a.toNat (Memory.wordBytes v) } := by
  by_cases h : m.memory.InRange a 4
  · rw [store_of_inRange h]
    constructor
    · intro hok
      exact ⟨h, (EStateM.Result.ok.inj hok).2.symm⟩
    · rintro ⟨-, rfl⟩
      rfl
  · rw [store_of_not_inRange h]
    exact ⟨nofun, fun hok => absurd hok.1 h⟩

/-- All input and a zero fit, and are moved. -/
theorem input_of_inRange (h : m.memory.InRange a (m.console.pending + 1)) :
    input a m = .ok () { m with
      console := m.console.drop m.console.pending
      memory := m.memory.put a.toNat (m.console.take m.console.pending ++ [0]) } := by
  have hfits : ¬ a.toNat + m.console.pending + 1 > m.memory.size := Nat.not_lt.2 h
  show (if _ then _ else _ : Exec Unit) m = _
  rw [if_neg hfits]
  refine storeBytes_of_inRange (m := { m with console := m.console.drop m.console.pending }) ?_
  simpa [Console.take, Console.pending] using h

/-- Input that does not fit is refused before any of it is read. -/
theorem input_of_not_inRange (h : ¬ m.memory.InRange a (m.console.pending + 1)) :
    input a m = .error (.inputTooLong m.console.pending a) m := by
  have hfits : a.toNat + m.console.pending + 1 > m.memory.size := Nat.not_le.1 h
  show (if _ then _ else _ : Exec Unit) m = _
  rw [if_pos hfits]
  rfl

theorem atomic_input (a : UInt32) : Atomic (input a) := by
  intro m cause m' h
  by_cases hfits : m.memory.InRange a (m.console.pending + 1)
  · rw [input_of_inRange hfits] at h
    exact nomatch h
  · rw [input_of_not_inRange hfits] at h
    cases h
    exact ⟨rfl, by simp⟩

/-- Where the address has been tested, the word that was read is stored. -/
theorem inputWord_of_inRange (h : m.memory.InRange a 4) :
    inputWord a m = .ok () { m with
      console := m.console.drop 4
      memory := m.memory.put a.toNat
        (Memory.wordBytes (LittleEndian.combine (m.console.take 4)).toUInt32) } := by
  rw [inputWord, bind_of_ok (checkRange_of_inRange h)]
  exact store_of_inRange (m := { m with console := m.console.drop 4 }) h

theorem inputWord_of_not_inRange (h : ¬ m.memory.InRange a 4) :
    inputWord a m = .error (.outOfBounds ⟨4, a, m.memory.size⟩) m := by
  rw [inputWord, bind_of_error (checkRange_of_not_inRange h)]

theorem atomic_inputWord (a : UInt32) : Atomic (inputWord a) := by
  intro m cause m' h
  by_cases hfits : m.memory.InRange a 4
  · rw [inputWord_of_inRange hfits] at h
    exact nomatch h
  · rw [inputWord_of_not_inRange hfits] at h
    cases h
    exact ⟨rfl, by simp⟩

/-- Where the address has been tested, the number that was read is stored. -/
theorem inputInteger_of_some {v : UInt32} {n : Nat} (h : m.memory.InRange a 4)
    (hnext : m.console.integer? = some (v, n)) :
    inputInteger a m = .ok () { m with
      console := m.console.drop n
      memory := m.memory.put a.toNat (Memory.wordBytes v) } := by
  have hread : nextInteger m = .ok (some v) { m with console := m.console.drop n } := by
    simp [nextInteger, Console.nextInteger, hnext]
  rw [inputInteger, bind_of_ok (checkRange_of_inRange h), bind_of_ok hread]
  exact store_of_inRange (m := { m with console := m.console.drop n }) h

/-- Looking for a number in vain reads the white space. -/
theorem inputInteger_of_none (h : m.memory.InRange a 4) (hnext : m.console.integer? = none) :
    inputInteger a m = .error .noInteger { m with console := m.console.skipBlanks } := by
  have hread : nextInteger m = .ok none { m with console := m.console.skipBlanks } := by
    simp [nextInteger, Console.nextInteger, hnext]
  rw [inputInteger, bind_of_ok (checkRange_of_inRange h), bind_of_ok hread]
  rfl

theorem inputInteger_of_not_inRange (h : ¬ m.memory.InRange a 4) :
    inputInteger a m = .error (.outOfBounds ⟨4, a, m.memory.size⟩) m := by
  rw [inputInteger, bind_of_error (checkRange_of_not_inRange h)]

theorem inputInteger_error (h : inputInteger a m = .error cause m') :
    (m' = m ∧ cause ≠ .noInteger) ∨
      (cause = .noInteger ∧ m.console.integer? = none ∧
        m' = { m with console := m.console.skipBlanks }) := by
  by_cases hfits : m.memory.InRange a 4
  · cases hnext : m.console.integer? with
    | some next =>
        obtain ⟨v, n⟩ := next
        rw [inputInteger_of_some hfits hnext] at h
        exact nomatch h
    | none =>
        rw [inputInteger_of_none hfits hnext] at h
        cases h
        exact .inr ⟨rfl, rfl, rfl⟩
  · rw [inputInteger_of_not_inRange hfits] at h
    cases h
    exact .inl ⟨rfl, by simp⟩

end Input

/-! ### Instructions -/

/-- **Every instruction but one is atomic**: it looks, takes at most one atomic step, and commits. -/
theorem atomic_instruction {i : Instruction} (h : i.opcode ≠ .insi) : Atomic (instruction i) := by
  obtain ⟨op, a, b⟩ := i
  cases op with
  | movi | lodi =>
      refine (looks_immediateOperand _ b).bind fun v => (looks_registerOperand _ a).bind fun r => ?_
      exact (commits_writeRegister r v).atomic
  | movw =>
      refine (looks_wordOperand _ b).bind fun v => (looks_registerOperand _ a).bind fun r => ?_
      exact (commits_writeRegister r v).atomic
  | lodw =>
      refine (looks_registerOperand _ a).bind fun r => (looks_addressOperand _ b).bind fun p => ?_
      exact (looks_load p).bind fun v => (commits_writeRegister r v).atomic
  | stri =>
      refine (looks_immediateOperand _ b).bind fun v => (looks_addressOperand _ a).bind fun p => ?_
      exact atomic_store p v
  | strw =>
      refine (looks_wordOperand _ b).bind fun v => (looks_addressOperand _ a).bind fun p => ?_
      exact atomic_store p v
  | xcgh =>
      refine (looks_registerOperand _ a).bind fun r => (looks_registerOperand _ b).bind fun s => ?_
      refine (looks_readRegister r).bind fun v => (looks_readRegister s).bind fun w => ?_
      exact ((commits_writeRegister r w).bind fun _ => commits_writeRegister s v).atomic
  | push => exact (looks_wordOperand _ a).bind fun v => atomic_pushWord v
  | pop =>
      refine (looks_registerOperand _ a).bind fun r => ?_
      exact atomic_popWord.bind fun v => commits_writeRegister r v
  | addw | subw | mul => exact atomic_realBinary _ _
  | inc | dec | neg => exact atomic_realUnary _ _
  | not =>
      refine (looks_registerOperand _ a).bind fun r => (looks_readRegister r).bind fun v => ?_
      exact (commits_result r _ _).atomic
  | and | or | xor => exact atomic_bitwise _ _
  | shl | shr => exact atomic_shift _ _
  | cmpw =>
      refine (looks_registerOperand _ a).bind fun r => (looks_readRegister r).bind fun v => ?_
      exact (looks_wordOperand _ b).bind fun w => (commits_writeFlags _).atomic
  | jmp | je | jne | jgt | jge | jlt | jle | js | jco => exact atomic_jump _
  | call =>
      refine (looks_addressOperand _ a).bind fun p => (looks_readRegister .sp).bind fun sp => ?_
      refine (looks_readRegister .pc).bind fun pc => (atomic_store (sp - 4) pc).bind fun _ => ?_
      exact (commits_writeRegister .sp _).bind fun _ => commits_writeRegister .pc p
  | ret =>
      refine (looks_readRegister .sp).bind fun sp => (looks_load sp).bind fun p => ?_
      exact ((commits_writeRegister .sp _).bind fun _ => commits_writeRegister .pc p).atomic
  | inp => exact (looks_addressOperand _ a).bind fun p => atomic_input p
  | out =>
      refine (looks_addressOperand _ a).bind fun p => (looks_loadString p).bind fun bytes => ?_
      exact (commits_print bytes).atomic
  | insi => exact absurd rfl h
  | outi => exact (looks_wordOperand _ a).bind fun v => (commits_print _).atomic
  | insw => exact (looks_addressOperand _ a).bind fun p => atomic_inputWord p
  | outw =>
      refine (looks_addressOperand _ a).bind fun p => (looks_load p).bind fun v => ?_
      exact (commits_print _).atomic
  | setf | clrf => exact atomic_switch _ _
  | halt => exact commits_halt.atomic

/-- **What a faulting instruction leaves behind**: the machine as it was, unless it looked for a
number in vain and has read the white space. -/
theorem instruction_error {i : Instruction} {m m' : Machine} {cause : Fault}
    (h : instruction i m = .error cause m') :
    (m' = m ∧ cause ≠ .noInteger) ∨
      (i.opcode = .insi ∧ cause = .noInteger ∧ m.console.integer? = none ∧
        m' = { m with console := m.console.skipBlanks }) := by
  by_cases hop : i.opcode = .insi
  · obtain ⟨op, a, b⟩ := i
    obtain rfl : op = .insi := hop
    rcases looks_addressOperand .insi a m with ⟨p, hok⟩ | ⟨c, hc, herror⟩
    · have h : inputInteger p m = .error cause m' := (bind_of_ok hok).symm.trans h
      rcases inputInteger_error h with hsame | hskip
      · exact .inl hsame
      · exact .inr ⟨rfl, hskip⟩
    · obtain ⟨rfl, rfl⟩ := EStateM.Result.error.inj ((bind_of_error herror).symm.trans h)
      exact .inl ⟨rfl, hc⟩
  · exact .inl (atomic_instruction hop m cause m' h)

end WordMachine.Exec
