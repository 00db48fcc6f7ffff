/-
**Strings between the console and memory.**

An input instruction moves all pending input to memory and puts a zero after it.  It tests beforehand
that there is room, and the bytes that it then writes need no more room than that.  An output
instruction reads one byte after the other until it meets a zero, and prints what came before it.
It has no other bound than the end of memory; so it ends in any case, with the string that is there
or with a fault.

What was moved to memory is a string up to its first zero.  Input and then output at one address
therefore print the input up to the first zero in it.

Main definitions:

* `Machine.Received` — the machine after its input was moved to memory;
* `Machine.Transfers` — **what input and output do** at an address.

Main results:

* `Exec.instruction_inp`, `Exec.instruction_out` — the two instructions, whatever their operand;
* `Machine.transfers_of_address?` — input and output, whatever the machine.
-/

import WordMachine.Proofs.Machine.Operands
import WordMachine.Proofs.Machine.Sequences
import WordMachine.Proofs.Memory.Strings
import WordMachine.MemorySize

set_option relaxedAutoImplicit false
set_option autoImplicit false

namespace WordMachine

variable {m m' : Machine} {o : Option Operand} {a : UInt32} {bs : List UInt8}

/-! ### The two instructions -/

namespace Exec

theorem instruction_inp (ha : m.registers.address? o = some a) (x : Option Operand) :
    instruction ⟨.inp, o, x⟩ m = input a m := by
  have haddress : addressOperand .inp o m = .ok a m := addressOperand_eq_ok.2 ⟨ha, rfl⟩
  show (addressOperand .inp o >>= fun a => input a) m = _
  rw [bind_of_ok haddress]

theorem instruction_out (ha : m.registers.address? o = some a) (x : Option Operand) :
    instruction ⟨.out, o, x⟩ m = (loadString a >>= fun bytes => print bytes) m := by
  have haddress : addressOperand .out o m = .ok a m := addressOperand_eq_ok.2 ⟨ha, rfl⟩
  show (addressOperand .out o >>= fun a => loadString a >>= fun bytes => print bytes) m = _
  rw [bind_of_ok haddress]

theorem loadString_of_ok (h : m.memory.cString a = .ok bs) : loadString a m = .ok bs m := by
  simp [loadString, inspect, h]

theorem loadString_of_error {cause : Memory.OutOfBounds} (h : m.memory.cString a = .error cause) :
    loadString a m = .error (.outOfBounds cause) m := by
  simp [loadString, inspect, h]

end Exec

namespace Machine

/-! ### Input -/

/-- **The input has been moved** to the address `a`, which leads from `m` to `m'`. -/
structure Received (a : UInt32) (m m' : Machine) : Prop where
  /-- The bytes of the input stand at consecutive addresses. -/
  text : ∀ k (hk : k < m.console.input.length),
    m'.memory.byte (a.toNat + k) = m.console.input[k]
  /-- A zero stands after them. -/
  zero : m'.memory.byte (a.toNat + m.console.input.length) = 0
  /-- The other bytes are as they were. -/
  others : ∀ x, x ∉ Set.Icc a.toNat (a.toNat + m.console.input.length) →
    m'.memory.byte x = m.memory.byte x
  size : m'.memory.size = m.memory.size
  /-- No input is pending. -/
  input : m'.console.input = []
  output : m'.console.output = m.console.output
  registers : m'.registers = m.registers
  halted : m'.halted = m.halted

/-- The machine after its input was moved to an address. -/
def receive (m : Machine) (a : UInt32) : Machine :=
  { m with
    console := m.console.drop m.console.pending
    memory := m.memory.put a.toNat (m.console.input ++ [0]) }

theorem received_receive (h : a.toNat + m.console.pending + 1 ≤ m.memory.size) :
    Received a m (m.receive a) := by
  have hfits : a.toNat + (m.console.input ++ [0]).length ≤ m.memory.size := by
    rw [List.length_append]
    exact h
  refine ⟨?_, ?_, ?_, Memory.size_put _ _ _, List.drop_length, rfl, rfl, rfl⟩
  · intro k hk
    have hlt : k < (m.console.input ++ [0]).length := by
      rw [List.length_append]
      omega
    rw [receive, Memory.byte_put_add hfits hlt, List.getElem_append_left hk]
  · have hlt : m.console.input.length < (m.console.input ++ [0]).length := by simp
    rw [receive, Memory.byte_put_add hfits hlt]
    simp
  · intro x hx
    refine Memory.byte_put_of_not_mem hfits fun hmem => hx ⟨hmem.1, ?_⟩
    have hlt := hmem.2
    rw [List.length_append, List.length_singleton] at hlt
    omega

theorem execute_inp (ha : m.registers.address? o = some a) (x : Option Operand)
    (h : a.toNat + m.console.pending + 1 ≤ m.memory.size) :
    m.execute ⟨.inp, o, x⟩ = .done (m.receive a) := by
  have htake : m.console.take m.console.pending = m.console.input := List.take_length
  rw [execute_eq_done, Exec.instruction_inp ha, Exec.input_of_inRange h, htake, receive]

theorem execute_inp_of_gt (ha : m.registers.address? o = some a) (x : Option Operand)
    (h : m.memory.size < a.toNat + m.console.pending + 1) :
    m.execute ⟨.inp, o, x⟩ = .faulted (.inputTooLong m.console.pending a) m := by
  have hout : ¬ m.memory.InRange a (m.console.pending + 1) := Nat.not_le.2 h
  rw [execute, Exec.instruction_inp ha, Exec.input_of_not_inRange hout]

/-! ### Output -/

theorem execute_out (ha : m.registers.address? o = some a) (x : Option Operand)
    (h : m.memory.HoldsString a.toNat bs) :
    m.execute ⟨.out, o, x⟩ = .done { m with console := m.console.write bs } := by
  have hload := Exec.loadString_of_ok (Memory.cString_eq_ok_iff.2 h)
  rw [execute_eq_done, Exec.instruction_out ha, Exec.bind_of_ok hload]
  rfl

/-- Without a string there is a fault, and nothing is printed. -/
theorem execute_out_of_not (ha : m.registers.address? o = some a) (x : Option Operand)
    (h : ¬ ∃ bs, m.memory.HoldsString a.toNat bs) :
    ∃ cause, m.execute ⟨.out, o, x⟩ = .faulted (.outOfBounds cause) m := by
  cases hread : m.memory.cString a with
  | ok bs => exact absurd ⟨bs, Memory.cString_eq_ok_iff.1 hread⟩ h
  | error cause =>
      refine ⟨cause, ?_⟩
      rw [execute, Exec.instruction_out ha, Exec.bind_of_error (Exec.loadString_of_error hread)]

/-! ### Both -/

/-- **What input and output do** with the operand `o`, which stands for the address `a`. -/
structure Transfers (m : Machine) (o x : Option Operand) (a : UInt32) : Prop where
  /-- The input is moved exactly if it fits with a zero after it. -/
  input_iff : (∃ m', m.execute ⟨.inp, o, x⟩ = .done m') ↔
    a.toNat + m.console.pending + 1 ≤ m.memory.size
  /-- Then all of it is moved, and nothing else changes. -/
  input : ∀ m', m.execute ⟨.inp, o, x⟩ = .done m' → Received a m m'
  /-- Otherwise it is refused, and nothing changes. -/
  input_fault : m.memory.size < a.toNat + m.console.pending + 1 →
    m.execute ⟨.inp, o, x⟩ = .faulted (.inputTooLong m.console.pending a) m
  /-- A string is printed exactly if there is a zero at the address or after it. -/
  output_iff : (∃ m', m.execute ⟨.out, o, x⟩ = .done m') ↔
    ∃ y, a.toNat ≤ y ∧ y < m.memory.size ∧ m.memory.byte y = 0
  /-- Then all bytes up to the first zero are printed, and nothing else changes. -/
  output : ∀ m', m.execute ⟨.out, o, x⟩ = .done m' →
    ∃ bs, m.memory.HoldsString a.toNat bs ∧ m' = { m with console := m.console.write bs }
  /-- Otherwise memory is accessed outside, and nothing changes. -/
  output_fault : (∀ y, a.toNat ≤ y → y < m.memory.size → m.memory.byte y ≠ 0) →
    ∃ cause, m.execute ⟨.out, o, x⟩ = .faulted cause m ∧ cause.isMemory = true
  /-- Reading one byte after the other ends, with what the output instruction reads. -/
  ends : ∀ reads, m.memory.size - a.toNat < reads →
    m.memory.scan reads a = some (m.memory.cString a)
  /-- Input and then output print the input up to its first zero. -/
  echo : a.toNat + m.console.pending + 1 ≤ m.memory.size →
    ∃ m', m.executeAll [⟨.inp, o, x⟩, ⟨.out, o, x⟩] = .done m' ∧ m'.console.input = [] ∧
      m'.console.output.toList = m.console.output.toList ++ m.console.input.takeWhile (· != 0)

theorem executeAll_echo (ha : m.registers.address? o = some a) (x : Option Operand)
    (h : a.toNat + m.console.pending + 1 ≤ m.memory.size) :
    m.executeAll [⟨.inp, o, x⟩, ⟨.out, o, x⟩] = .done { m.receive a with
      console := (m.receive a).console.write (m.console.input.takeWhile (· != 0)) } := by
  have hregisters : (m.receive a).registers.address? o = some a := ha
  have hstring : (m.receive a).memory.HoldsString a.toNat (m.console.input.takeWhile (· != 0)) :=
    Memory.holdsString_put h
  rw [executeAll_cons (execute_inp ha x h), executeAll_cons (execute_out hregisters x hstring),
    executeAll_nil]

/-- **Input and output transfer strings exactly**, whatever operand stands for the address. -/
theorem transfers_of_address? (hsize : m.memory.size ≤ largestMemory)
    (ha : m.registers.address? o = some a) (x : Option Operand) : m.Transfers o x a where
  input_iff := by
    constructor
    · rintro ⟨m', h⟩
      refine Nat.le_of_not_lt fun hlt => ?_
      exact nomatch h.symm.trans (execute_inp_of_gt ha x hlt)
    · intro h
      exact ⟨_, execute_inp ha x h⟩
  input := by
    intro m' h
    rcases Nat.lt_or_ge m.memory.size (a.toNat + m.console.pending + 1) with hlt | hle
    · exact nomatch h.symm.trans (execute_inp_of_gt ha x hlt)
    · obtain rfl := Outcome.done.inj (h.symm.trans (execute_inp ha x hle))
      exact received_receive hle
  input_fault := execute_inp_of_gt ha x
  output_iff := by
    rw [← Memory.exists_holdsString_iff]
    constructor
    · rintro ⟨m', h⟩
      by_contra hnone
      obtain ⟨cause, hfault⟩ := execute_out_of_not ha x hnone
      exact nomatch h.symm.trans hfault
    · rintro ⟨bs, hbs⟩
      exact ⟨_, execute_out ha x hbs⟩
  output := by
    intro m' h
    by_cases hstring : ∃ bs, m.memory.HoldsString a.toNat bs
    · obtain ⟨bs, hbs⟩ := hstring
      exact ⟨bs, hbs, Outcome.done.inj (h.symm.trans (execute_out ha x hbs))⟩
    · obtain ⟨cause, hfault⟩ := execute_out_of_not ha x hstring
      exact nomatch h.symm.trans hfault
  output_fault := by
    intro hnone
    obtain ⟨cause, hfault⟩ := execute_out_of_not ha x fun hstring => by
      obtain ⟨y, hle, hlt, hzero⟩ := Memory.exists_holdsString_iff.1 hstring
      exact hnone y hle hlt hzero
    exact ⟨_, hfault, rfl⟩
  ends := by
    intro reads hreads
    have hwidth : m.memory.size < 2 ^ 32 := Nat.lt_of_le_of_lt hsize (by decide)
    exact Memory.scan_eq_cString hwidth hreads
  echo := by
    intro h
    refine ⟨_, executeAll_echo ha x h, List.drop_length, ?_⟩
    simp [receive, Console.write, Console.drop]

/-- A machine with five bytes of memory and three of input, the second of them a zero. -/
def fullMemory : Machine where
  registers := RegisterFile.zeros.set .si 1
  memory := ⟨#[9, 9, 9, 9, 9]⟩
  console := { input := [65, 0, 66] }

/-- The input reaches up to the last byte, which gets the zero, and is printed up to its own. -/
theorem transfers_fullMemory :
    fullMemory.memory.size ≤ largestMemory ∧
      fullMemory.registers.address? (some (.indirect .si)) = some 1 ∧
      fullMemory.Transfers (some (.indirect .si)) none 1 ∧
      ∃ m', fullMemory.executeAll
          [⟨.inp, some (.indirect .si), none⟩, ⟨.out, some (.indirect .si), none⟩] = .done m' ∧
        m'.memory.bytes = #[9, 65, 0, 66, 0] ∧ m'.console.output.toList = [65] := by
  have hsize : fullMemory.memory.size ≤ largestMemory := by decide
  have haddress : fullMemory.registers.address? (some (.indirect .si)) = some 1 := by decide
  have htransfers := transfers_of_address? hsize haddress none
  obtain ⟨m', hecho, -, houtput⟩ := htransfers.echo (by decide)
  have hmemory := executeAll_echo haddress none (m := fullMemory) (by decide)
  obtain rfl := Outcome.done.inj (hecho.symm.trans hmemory)
  exact ⟨hsize, haddress, htransfers, _, hecho, by decide, houtput⟩

end Machine

end WordMachine
