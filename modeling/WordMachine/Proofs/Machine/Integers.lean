/-
**Numbers that are printed and read again.**

Printing a number writes its decimal digits and a newline.  Reading a number takes the white space
in front of it and its digits, and stops before the newline, which is white space in front of the
next one.  So when the output of some numbers becomes the input of a machine, reading as many numbers
gives the same ones in the same order.  The induction is on the numbers; what a step keeps is that
white space and the lines of the numbers still to come are pending.

Main definitions:

* `Memory.storeAll` — words stored one after the other, each at an address of its own;
* `Machine.Rereads` — **what becomes of numbers that were printed**.

Main results:

* `Machine.executeAll_printing`, `Machine.executeAll_reading` — printing and reading several numbers;
* `Machine.rereads_of_printed` — reading undoes printing;
* `Machine.integers_exact` — what is read of any input, and reading undoes printing.
-/

import WordMachine.Proofs.Console.Integers
import WordMachine.Proofs.Machine.Operands
import WordMachine.Proofs.Machine.Sequences
import WordMachine.Proofs.Memory.Blocks
import Mathlib.Data.List.Forall2

set_option relaxedAutoImplicit false
set_option autoImplicit false

namespace WordMachine

/-! ### Storing words -/

namespace Memory

variable {m : Memory} {as vs : List UInt32}

/-- Stores words one after the other, each at its own address. -/
def storeAll (m : Memory) (ps : List (UInt32 × UInt32)) : Memory :=
  ps.foldl (fun m p => m.put p.1.toNat (wordBytes p.2)) m

theorem storeAll_cons (m : Memory) (p : UInt32 × UInt32) (ps : List (UInt32 × UInt32)) :
    m.storeAll (p :: ps) = (m.put p.1.toNat (wordBytes p.2)).storeAll ps := by
  rw [storeAll, List.foldl_cons, storeAll]

theorem storeAll_concat (m : Memory) (ps : List (UInt32 × UInt32)) (p : UInt32 × UInt32) :
    m.storeAll (ps ++ [p]) = (m.storeAll ps).put p.1.toNat (wordBytes p.2) := by
  simp [storeAll]

@[simp] theorem size_storeAll (m : Memory) (ps : List (UInt32 × UInt32)) :
    (m.storeAll ps).size = m.size := by
  induction ps generalizing m with
  | nil => rfl
  | cons p ps ih => rw [storeAll_cons, ih, size_put]

/-- The word that was stored last stands at its address. -/
theorem read32_storeAll_take {k : Nat} (ha : k < as.length) (hv : k < vs.length)
    (h : m.InRange as[k] 4) :
    (m.storeAll ((as.take (k + 1)).zip (vs.take (k + 1)))).read32 as[k] = .ok vs[k] := by
  have hlength : (as.take k).length = (vs.take k).length := by
    rw [List.length_take_of_le (Nat.le_of_lt ha), List.length_take_of_le (Nat.le_of_lt hv)]
  have hlast : (as.take (k + 1)).zip (vs.take (k + 1)) =
      (as.take k).zip (vs.take k) ++ [(as[k], vs[k])] := by
    rw [List.take_succ_eq_append_getElem ha, List.take_succ_eq_append_getElem hv,
      List.zip_append hlength]
    rfl
  have hrange : (m.storeAll ((as.take k).zip (vs.take k))).InRange as[k] 4 := by
    rw [InRange, size_storeAll]
    exact h
  rw [hlast, storeAll_concat]
  exact read32_put hrange vs[k]

end Memory

/-! ### Writing and reading -/

namespace Console

variable {c : Console} {rest : List UInt8}

theorem write_append (c : Console) (bs cs : List UInt8) :
    c.write (bs ++ cs) = (c.write bs).write cs := by
  have houtput : c.output ++ (bs ++ cs) = c.output ++ bs ++ cs :=
    Array.toList_inj.1 (by simp)
  rw [write, houtput]
  rfl

/-- An integer is read with everything in front of it, and nothing after it. -/
theorem nextInteger_of_begins {negative : Bool} {ds : List UInt8}
    (h : Begins c.input negative ds rest) :
    ∃ w, c.nextInteger = (some w, { c with input := rest }) ∧
      (w.toNat : Int) = integerValue negative ds % (2 ^ 32 : Nat) := by
  obtain ⟨w, n, hinteger, hdrop, hvalue⟩ := integer?_of_begins h
  refine ⟨w, ?_, hvalue⟩
  rw [nextInteger, hinteger, ← hdrop]

/-- Without an integer, white space is all that is read. -/
theorem nextInteger_of_not_begins (h : ¬ ∃ negative ds rest, Begins c.input negative ds rest) :
    c.nextInteger = (none, { c with input := c.input.dropWhile isBlank }) := by
  rw [nextInteger, integer?_of_not_begins h, ← input_skipBlanks]
  rfl

end Console

/-! ### One number -/

/-- Printing a number. -/
def Instruction.printing (o : Option Operand) : Instruction := ⟨.outi, o, none⟩

/-- Reading a number. -/
def Instruction.reading (o : Option Operand) : Instruction := ⟨.insi, o, none⟩

namespace Machine

variable {m : Machine} {o : Option Operand} {a v : UInt32} {ws rest : List UInt8}

/-- Printing a number writes its line. -/
theorem execute_printing (hv : m.registers.word? o = some v) :
    m.execute (.printing o) = .done { m with console := m.console.write (Exec.decimalLine v) } := by
  have hword : Exec.wordOperand .outi o m = .ok v m := Exec.wordOperand_eq_ok.2 ⟨hv, rfl⟩
  rw [execute_eq_done]
  show (Exec.wordOperand .outi o >>= fun v => Exec.print (Exec.decimalLine v)) m = _
  rw [Exec.bind_of_ok hword]
  rfl

/-- The machine that has stored the number `v`, with the newline and `rest` still to be read. -/
def readLine (m : Machine) (a v : UInt32) (rest : List UInt8) : Machine :=
  { m with
    console := { m.console with input := 10 :: rest }
    memory := m.memory.put a.toNat (Memory.wordBytes v) }

theorem registers_readLine (m : Machine) (a v : UInt32) (rest : List UInt8) :
    (m.readLine a v rest).registers = m.registers := by
  rw [readLine]

theorem memory_readLine (m : Machine) (a v : UInt32) (rest : List UInt8) :
    (m.readLine a v rest).memory = m.memory.put a.toNat (Memory.wordBytes v) := by
  rw [readLine]

theorem input_readLine (m : Machine) (a v : UInt32) (rest : List UInt8) :
    (m.readLine a v rest).console.input = 10 :: rest := by
  rw [readLine]

/-- Reading the line of a number stores the number, and leaves the newline. -/
theorem execute_reading (ha : m.registers.address? o = some a) (h : m.memory.InRange a 4)
    (hws : ∀ b ∈ ws, Console.isBlank b)
    (hinput : m.console.input = ws ++ (Exec.decimalLine v ++ rest)) :
    m.execute (.reading o) = .done (m.readLine a v rest) := by
  have hline : Exec.decimalLine v ++ rest = (Numeral.decimal v.toNat).toBytes ++ 10 :: rest := by
    simp [Exec.decimalLine, Text.toBytes]
  have hbegins : Console.Begins m.console.input false (Numeral.decimal v.toNat).toBytes
      (10 :: rest) := by
    rw [hinput, hline]
    refine Console.begins_decimal hws v.toNat ?_
    intro b hb
    obtain rfl := Option.some.inj hb
    rfl
  obtain ⟨w, n, hinteger, hdrop, hvalue⟩ := Console.integer?_of_begins hbegins
  have hw : w = v := by
    rw [Console.integerValue_decimal] at hvalue
    have hlt := v.toNat_lt
    exact UInt32.toNat_inj.1 (by omega)
  have haddress : Exec.addressOperand .insi o m = .ok a m :=
    Exec.addressOperand_eq_ok.2 ⟨ha, rfl⟩
  rw [execute_eq_done]
  show (Exec.addressOperand .insi o >>= fun a => Exec.inputInteger a) m = _
  rw [Exec.bind_of_ok haddress, Exec.inputInteger_of_some h hinteger, hdrop, hw, readLine]

/-! ### Several numbers -/

variable {rs : RegisterFile} {size : Nat} {sources places : List (Option Operand)}
  {vs as : List UInt32}

/-- Printing numbers writes their lines, in their order. -/
theorem executeAll_printing (h : List.Forall₂ (fun o v => rs.word? o = some v) sources vs)
    (hrs : m.registers = rs) :
    m.executeAll (sources.map Instruction.printing) =
      .done { m with console := m.console.write (vs.flatMap Exec.decimalLine) } := by
  induction h generalizing m with
  | nil =>
      have hnothing : m.console.write [] = m.console := by simp [Console.write]
      rw [List.map_nil, executeAll_nil, List.flatMap_nil, hnothing]
  | @cons o v sources vs hv _ ih =>
      have hrest := ih (m := { m with console := m.console.write (Exec.decimalLine v) }) hrs
      rw [List.map_cons, executeAll_cons (execute_printing (hrs ▸ hv)), hrest, List.flatMap_cons,
        Console.write_append]

/-- Reading the lines of numbers stores the numbers, in their order.  What is left is white space and
what came after the lines. -/
theorem executeAll_reading
    (h : List.Forall₂ (fun o a => rs.address? o = some a ∧ a.toNat + 4 ≤ size) places as)
    (hlength : as.length = vs.length) (hrs : m.registers = rs) (hsize : m.memory.size = size)
    (hws : ∀ b ∈ ws, Console.isBlank b)
    (hinput : m.console.input = ws ++ (vs.flatMap Exec.decimalLine ++ rest)) :
    ∃ m' ws', m.executeAll (places.map Instruction.reading) = .done m' ∧
      m'.memory = m.memory.storeAll (as.zip vs) ∧ (∀ b ∈ ws', Console.isBlank b) ∧
      m'.console.input = ws' ++ rest := by
  induction h generalizing m vs ws with
  | nil =>
      obtain rfl : vs = [] := List.eq_nil_of_length_eq_zero hlength.symm
      exact ⟨m, ws, rfl, rfl, hws, hinput⟩
  | @cons o a places as ha _ ih =>
      cases vs with
      | nil => exact nomatch hlength
      | cons v vs =>
          have hline : m.console.input =
              ws ++ (Exec.decimalLine v ++ (vs.flatMap Exec.decimalLine ++ rest)) := by
            rw [hinput, List.flatMap_cons, List.append_assoc]
          have hrange : m.memory.InRange a 4 := by
            rw [Memory.InRange, hsize]
            exact ha.2
          have hstep := execute_reading (hrs ▸ ha.1) hrange hws hline
          -- The newline of this number is the white space in front of the next one.
          have hnewline : ∀ b ∈ [(10 : UInt8)], Console.isBlank b :=
            List.forall_mem_singleton.2 rfl
          obtain ⟨m', ws', hall, hmemory, hws', hrest⟩ :=
            ih (Nat.succ.inj hlength) ((registers_readLine m a v _).trans hrs)
              (by rw [memory_readLine, Memory.size_put, hsize]) hnewline (input_readLine m a v _)
          refine ⟨m', ws', (executeAll_cons hstep _).trans hall, ?_, hws', hrest⟩
          rw [hmemory, memory_readLine, List.zip_cons_cons, Memory.storeAll_cons]

/-! ### Reading undoes printing -/

/-- The machine with further input. -/
def feed (m : Machine) (bs : List UInt8) : Machine :=
  { m with console := m.console.push bs }

/-- **What becomes of numbers that were printed**: the output of the writer is the input of the
reader.  All numbers are stored, one after the other; and after each one that was read, it stands at
its address. -/
def Rereads (writer reader : Machine) (sources places : List (Option Operand))
    (vs as : List UInt32) : Prop :=
  ∃ writer', writer.executeAll (sources.map Instruction.printing) = .done writer' ∧
    let fed := reader.feed writer'.console.takeOutput.1
    (∃ reader', fed.executeAll (places.map Instruction.reading) = .done reader' ∧
      reader'.memory = reader.memory.storeAll (as.zip vs)) ∧
    ∀ k (hv : k < vs.length) (ha : k < as.length), ∃ reader',
      fed.executeAll ((places.take (k + 1)).map Instruction.reading) = .done reader' ∧
      reader'.memory.read32 as[k] = .ok vs[k]

/-- **Reading undoes printing.** -/
theorem rereads_of_printed {writer reader : Machine} (houtput : writer.console.output = #[])
    (hinput : reader.console.input = [])
    (hsources : List.Forall₂ (fun o v => writer.registers.word? o = some v) sources vs)
    (hplaces : List.Forall₂
      (fun o a => reader.registers.address? o = some a ∧ reader.memory.InRange a 4) places as)
    (hlength : as.length = vs.length) : Rereads writer reader sources places vs as := by
  have hprinted := executeAll_printing hsources rfl
  have htaken : (writer.console.write (vs.flatMap Exec.decimalLine)).takeOutput.1 =
      vs.flatMap Exec.decimalLine := by
    simp [Console.takeOutput, Console.write, houtput]
  have hfed : (reader.feed (vs.flatMap Exec.decimalLine)).console.input =
      vs.flatMap Exec.decimalLine := by
    simp [feed, Console.push, hinput]
  have hnone : ∀ b ∈ ([] : List UInt8), Console.isBlank b := nofun
  refine ⟨_, hprinted, ?_⟩
  rw [htaken]
  generalize hm : reader.feed (vs.flatMap Exec.decimalLine) = m at hfed
  obtain ⟨hregisters, hmemory⟩ : m.registers = reader.registers ∧ m.memory = reader.memory := by
    rw [← hm]
    exact ⟨rfl, rfl⟩
  have hsize : m.memory.size = reader.memory.size := congrArg Memory.size hmemory
  constructor
  · have hall : m.console.input = [] ++ (vs.flatMap Exec.decimalLine ++ []) := by
      rw [hfed, List.append_nil, List.nil_append]
    obtain ⟨m', -, hread, hstored, -, -⟩ :=
      executeAll_reading hplaces hlength hregisters hsize hnone hall
    exact ⟨m', hread, hmemory ▸ hstored⟩
  · intro k hv ha
    -- The first numbers are read as if the lines of the others were any other input.
    have hsome : m.console.input = [] ++ ((vs.take (k + 1)).flatMap Exec.decimalLine ++
        (vs.drop (k + 1)).flatMap Exec.decimalLine) := by
      rw [hfed, List.nil_append, ← List.flatMap_append, List.take_append_drop]
    have htake : (as.take (k + 1)).length = (vs.take (k + 1)).length := by
      rw [List.length_take, List.length_take, hlength]
    obtain ⟨m', -, hread, hstored, -, -⟩ :=
      executeAll_reading (List.forall₂_take (k + 1) hplaces) htake hregisters hsize hnone hsome
    have hrange : reader.memory.InRange as[k] 4 :=
      (hplaces.get (hplaces.length_eq ▸ ha) ha).2
    refine ⟨m', hread, ?_⟩
    rw [hstored, hmemory]
    exact Memory.read32_storeAll_take ha hv hrange

/-! ### Integers are exact -/

/-- **Reading integers is exact, and undoes printing them.**  An input that begins with an integer
gives its value modulo `2 ^ 32` and keeps the rest; any other gives nothing and loses its white
space.  Numbers that were printed are read again as they were. -/
theorem integers_exact :
    (∀ (c : Console) (negative : Bool) (ds rest : List UInt8),
      Console.Begins c.input negative ds rest →
      ∃ w, c.nextInteger = (some w, { c with input := rest }) ∧
        (w.toNat : Int) = Console.integerValue negative ds % (2 ^ 32 : Nat)) ∧
    (∀ c : Console, (¬ ∃ negative ds rest, Console.Begins c.input negative ds rest) →
      c.nextInteger = (none, { c with input := c.input.dropWhile Console.isBlank })) ∧
    ∀ (writer reader : Machine) (sources places : List (Option Operand)) (vs as : List UInt32),
      writer.console.output = #[] → reader.console.input = [] →
      List.Forall₂ (fun o v => writer.registers.word? o = some v) sources vs →
      List.Forall₂ (fun o a => reader.registers.address? o = some a ∧ reader.memory.InRange a 4)
        places as →
      as.length = vs.length → Rereads writer reader sources places vs as := by
  refine ⟨?_, ?_, ?_⟩
  · intro c negative ds rest h
    exact Console.nextInteger_of_begins h
  · intro c h
    exact Console.nextInteger_of_not_begins h
  · intro writer reader sources places vs as houtput hinput hsources hplaces hlength
    exact rereads_of_printed houtput hinput hsources hplaces hlength

/-- A blank and a negative number of 33 bits before another byte, a lone sign, and the largest word
and zero printed and read again. -/
theorem integers_exact_atLimits :
    ({ input := [32, 45, 52, 50, 57, 52, 57, 54, 55, 50, 57, 55, 97] } : Console).nextInteger =
        (some 0xFFFFFFFF, { input := [97] }) ∧
      ({ input := [32, 43, 97] } : Console).nextInteger = (none, { input := [43, 97] }) ∧
      Rereads { memory := .zeros 0 } { memory := .zeros 8 }
        [some (.immediate 0xFFFFFFFF), some (.immediate 0)]
        [some (.address 4), some (.address 0)] [0xFFFFFFFF, 0] [4, 0] := by
  obtain ⟨hsome, hnone, hreads⟩ := integers_exact
  refine ⟨?_, ?_, ?_⟩
  · have hbegins : Console.Begins [32, 45, 52, 50, 57, 52, 57, 54, 55, 50, 57, 55, 97] true
        [52, 50, 57, 52, 57, 54, 55, 50, 57, 55] [97] :=
      { split := ⟨[32], [45], List.forall_mem_singleton.2 rfl, .minus, rfl⟩
        ne_nil := List.cons_ne_nil _ _
        digits := List.all_eq_true.1 rfl
        maximal := fun b hb => Option.some.inj hb ▸ rfl }
    obtain ⟨w, hread, hvalue⟩ := hsome { input := _ } _ _ _ hbegins
    have hmod : Console.integerValue true [52, 50, 57, 52, 57, 54, 55, 50, 57, 55] %
        (2 ^ 32 : Nat) = 0xFFFFFFFF := by
      decide
    have hw : w = 0xFFFFFFFF := UInt32.toNat_inj.1 (Int.ofNat_inj.1 (hvalue.trans hmod))
    exact hw ▸ hread
  · refine hnone { input := [32, 43, 97] } fun ⟨negative, ds, rest, hbegins⟩ => ?_
    obtain ⟨w, n, hinteger, -⟩ := Console.integer?_of_begins hbegins
    exact nomatch hinteger
  · refine hreads _ _ _ _ _ _ rfl rfl ?_ ?_ rfl
    · exact .cons rfl (.cons rfl .nil)
    · exact .cons ⟨rfl, by decide⟩ (.cons ⟨rfl, by decide⟩ .nil)

end Machine

end WordMachine
