/-
**What an instruction may touch.**

Each instruction has a footprint: the registers, the flags and the bytes of memory that it may
change, and whether it may print, read input or halt the machine.  An instruction that is executed
leaves everything else as it was.  What it prints is added to the output, what it reads is taken
from the front of the input, and memory keeps its size.

A footprint is respected by the parts of an instruction in turn: a change that stays inside it, and
another one after it, stay inside it together.  The footprint itself is that of the machine before
the instruction, where the operands are examined.

Main definitions:

* `Footprint`, `Footprint.Covers` — a footprint, and a change that stays inside it;
* `Instruction.footprint` — **the footprint of an instruction**;
* `Exec.Within` — a computation that stays inside a footprint.

Main results:

* `Footprint.Covers.trans` — footprints are respected in turn;
* `Exec.within_instruction` — every instruction stays inside its footprint;
* `Instruction.covers_of_execute` — **nothing else changes**.
-/

import WordMachine.Proofs.Machine.Flags
import WordMachine.Proofs.Machine.Operands
import WordMachine.Proofs.Memory.Blocks

set_option relaxedAutoImplicit false
set_option autoImplicit false

namespace WordMachine

/-! ### Footprints -/

/-- **What may be touched.** -/
structure Footprint where
  /-- The registers that may get any word. -/
  registers : List Register := []
  /-- The flags that may change. -/
  flags : List Flag := []
  /-- The addresses of the bytes that may change. -/
  bytes : List Nat := []
  /-- Output may be added. -/
  prints : Bool := false
  /-- Input may be taken. -/
  reads : Bool := false
  /-- The machine may be halted. -/
  halts : Bool := false

/-- A change of the machine **stays inside** a footprint. -/
structure Footprint.Covers (F : Footprint) (m m' : Machine) : Prop where
  /-- The other registers keep their words, the flags word aside. -/
  registers : ∀ r, r ≠ .flags → r ∉ F.registers → m'.registers.get r = m.registers.get r
  /-- The other bits of the flags word stay, unless it may get any word. -/
  flags : .flags ∉ F.registers → ∀ k, k ∉ F.flags.map Flag.bit →
    (m'.registers.get .flags).toNat.testBit k = (m.registers.get .flags).toNat.testBit k
  /-- The other bytes of memory stay. -/
  bytes : ∀ x, x ∉ F.bytes → m'.memory.byte x = m.memory.byte x
  size : m'.memory.size = m.memory.size
  /-- The output so far stays at the front. -/
  output : m.console.output.toList <+: m'.console.output.toList
  silent : F.prints = false → m'.console.output = m.console.output
  /-- Input is taken from the front. -/
  input : m'.console.input <:+ m.console.input
  unread : F.reads = false → m'.console.input = m.console.input
  /-- The machine does not go on after it has halted. -/
  halted : m'.halted = m.halted ∨ F.halts = true ∧ m'.halted = true

/-- The addresses of some bytes from the address on that an operand stands for. -/
def RegisterFile.bytesAt (rs : RegisterFile) (o : Option Operand) (width : Nat) : List Nat :=
  match rs.address? o with
  | some a => List.range' a.toNat width
  | none => []

/-- The flags that tell about a result. -/
def Flag.ofResult : List Flag := [zero, sign, carry, overflow]

/-- The flag that an operand names. -/
def Operand.flag? : Option Operand → Option Flag
  | some (.flag n) => Flag.ofId? n.toNat
  | _ => none

/-- Where a word is pushed. -/
def RegisterFile.pushAddress (rs : RegisterFile) : UInt32 :=
  if rs.flag .stackDir then rs.get .sp else rs.get .sp - 4

/-- **The footprint of an instruction** on the machine that executes it. -/
def Instruction.footprint (m : Machine) (i : Instruction) : Footprint :=
  let destination := (Operand.register? i.a).toList
  match i.opcode with
  | .movi | .movw | .lodi | .lodw => { registers := destination }
  | .xcgh => { registers := destination ++ (Operand.register? i.b).toList }
  | .addw | .subw | .mul | .inc | .dec | .neg | .not | .and | .or | .xor | .shl | .shr =>
    { registers := destination, flags := Flag.ofResult }
  | .cmpw => { flags := Flag.ofResult }
  | .stri | .strw => { bytes := m.registers.bytesAt i.a 4 }
  | .push => { registers := [.sp], bytes := List.range' m.registers.pushAddress.toNat 4 }
  | .pop => { registers := .sp :: destination }
  | .jmp | .je | .jne | .jgt | .jge | .jlt | .jle | .js | .jco =>
    { registers := if Exec.taken m.registers i.opcode then [.pc] else [] }
  | .call =>
    { registers := [.sp, .pc], bytes := List.range' (m.registers.get .sp - 4).toNat 4 }
  | .ret => { registers := [.sp, .pc] }
  | .inp => { bytes := m.registers.bytesAt i.a (m.console.pending + 1), reads := true }
  | .insi | .insw => { bytes := m.registers.bytesAt i.a 4, reads := true }
  | .out | .outi | .outw => { prints := true }
  | .setf | .clrf => { flags := (Operand.flag? i.a).toList }
  | .halt => { halts := true }

namespace Footprint

variable {F : Footprint} {m m₁ m' : Machine}

theorem Covers.refl (F : Footprint) (m : Machine) : F.Covers m m where
  registers _ _ _ := rfl
  flags _ _ _ := rfl
  bytes _ _ := rfl
  size := rfl
  output := List.prefix_refl _
  silent _ := rfl
  input := List.suffix_refl _
  unread _ := rfl
  halted := .inl rfl

/-- **Footprints are respected in turn.** -/
theorem Covers.trans (h : F.Covers m m₁) (h' : F.Covers m₁ m') : F.Covers m m' where
  registers r hne hr := (h'.registers r hne hr).trans (h.registers r hne hr)
  flags hr k hk := (h'.flags hr k hk).trans (h.flags hr k hk)
  bytes x hx := (h'.bytes x hx).trans (h.bytes x hx)
  size := h'.size.trans h.size
  output := h.output.trans h'.output
  silent hp := (h'.silent hp).trans (h.silent hp)
  input := h'.input.trans h.input
  unread hr := (h'.unread hr).trans (h.unread hr)
  halted := by
    rcases h'.halted with hsame | hhalts
    · rw [hsame]
      exact h.halted
    · exact .inr hhalts

end Footprint

namespace Exec

/-! ### Computations inside a footprint -/

section Within

variable {α β : Type} {F : Footprint} {m : Machine} {x : Exec α} {f : α → Exec β}

/-- A computation **stays inside** a footprint on the given machine, if it succeeds. -/
def Within (F : Footprint) (m : Machine) (x : Exec α) : Prop :=
  ∀ a m', x m = .ok a m' → F.Covers m m'

theorem Within.bind (hx : Within F m x) (hf : ∀ a m₁, Within F m₁ (f a)) :
    Within F m (x >>= f) := by
  intro b m' h
  obtain ⟨a, m₁, hm, h⟩ := bind_eq_ok.1 h
  exact (hx a m₁ hm).trans (hf a m₁ b m' h)

/-- Looking comes before the changes: the rest begins on the same machine, and what was seen there
is known. -/
theorem Looks.within_bind (hx : Looks x) (hf : ∀ a, x m = .ok a m → Within F m (f a)) :
    Within F m (x >>= f) := by
  intro b m' h
  obtain ⟨a, m₁, hok, hrest⟩ := bind_eq_ok.1 h
  obtain rfl := hx.eq_of_ok hok
  exact hf a hok b m' hrest

theorem within_pure (a : α) : Within F m (pure a) := by
  intro b m' h
  obtain ⟨rfl, rfl⟩ := EStateM.Result.ok.inj h
  exact .refl F m

end Within

/-! ### Effects -/

section Effects

variable {F : Footprint} {m : Machine}

theorem within_writeRegister {r : Register} (hr : r ∈ F.registers) (v : UInt32) :
    Within F m (writeRegister r v) := by
  intro _ m' h
  obtain ⟨-, rfl⟩ := EStateM.Result.ok.inj h
  refine { Footprint.Covers.refl F m with registers := ?_, flags := ?_ }
  · intro s _ hs
    have hne : r ≠ s := by
      rintro rfl
      exact hs hr
    exact RegisterFile.get_set_of_ne hne m.registers v
  · intro hflags k _
    have hne : r ≠ .flags := by
      rintro rfl
      exact hflags hr
    rw [RegisterFile.get_set_of_ne hne]

theorem within_writeFlags {states : List (Flag × Bool)} (hstates : states.map Prod.fst ⊆ F.flags) :
    Within F m (writeFlags states) := by
  intro _ m' h
  obtain ⟨-, rfl⟩ := EStateM.Result.ok.inj h
  refine { Footprint.Covers.refl F m with registers := ?_, flags := ?_ }
  · intro r hne _
    exact RegisterFile.get_setFlags_of_ne hne m.registers states
  · intro _ k hk
    refine RegisterFile.testBit_setFlags_of_not_mem ?_ m.registers
    rintro x hx rfl
    exact hk (List.mem_map_of_mem (hstates (List.mem_map_of_mem hx)))

/-- Bytes that fit are put where they may be. -/
theorem covers_put {a : UInt32} {bytes : List UInt8} (hfits : m.memory.InRange a bytes.length)
    (hbytes : ∀ x ∈ List.range' a.toNat bytes.length, x ∈ F.bytes) :
    F.Covers m { m with memory := m.memory.put a.toNat bytes } := by
  refine { Footprint.Covers.refl F m with bytes := ?_, size := Memory.size_put _ _ _ }
  intro x hx
  refine Memory.byte_put_of_not_mem hfits ?_
  intro hmem
  exact hx (hbytes x (List.mem_range'_1.2 hmem))

theorem within_storeBytes {a : UInt32} {bytes : List UInt8}
    (hbytes : ∀ x ∈ List.range' a.toNat bytes.length, x ∈ F.bytes) :
    Within F m (storeBytes a bytes) := by
  intro _ m' h
  by_cases hfits : m.memory.InRange a bytes.length
  · rw [storeBytes_of_inRange hfits] at h
    obtain ⟨-, rfl⟩ := EStateM.Result.ok.inj h
    exact covers_put hfits hbytes
  · rw [storeBytes_of_not_inRange hfits] at h
    exact nomatch h

theorem within_store {a : UInt32} (hbytes : ∀ x ∈ List.range' a.toNat 4, x ∈ F.bytes) (v : UInt32) :
    Within F m (store a v) :=
  within_storeBytes (by rwa [Memory.length_wordBytes])

theorem within_print (hprints : F.prints = true) (bytes : List UInt8) :
    Within F m (print bytes) := by
  intro _ m' h
  obtain ⟨-, rfl⟩ := EStateM.Result.ok.inj h
  refine { Footprint.Covers.refl F m with output := ?_, silent := ?_ }
  · simp [Console.write]
  · intro hsilent
    exact nomatch hprints.symm.trans hsilent

/-- Input is taken by dropping the bytes that were read. -/
theorem covers_drop (hreads : F.reads = true) (m : Machine) (n : Nat) :
    F.Covers m { m with console := m.console.drop n } := by
  refine { Footprint.Covers.refl F m with input := List.drop_suffix n _, unread := ?_ }
  intro hunread
  exact nomatch hreads.symm.trans hunread

theorem within_readBytes (hreads : F.reads = true) (n : Nat) : Within F m (readBytes n) := by
  intro _ m' h
  obtain ⟨-, rfl⟩ := EStateM.Result.ok.inj h
  exact covers_drop hreads m n

theorem within_nextInteger (hreads : F.reads = true) : Within F m nextInteger := by
  intro _ m' h
  obtain ⟨-, rfl⟩ := EStateM.Result.ok.inj h
  unfold Console.nextInteger
  split
  · exact covers_drop hreads m _
  · exact covers_drop hreads m _

theorem within_halt (hhalts : F.halts = true) : Within F m halt := by
  intro _ m' h
  obtain ⟨-, rfl⟩ := EStateM.Result.ok.inj h
  exact { Footprint.Covers.refl F m with halted := .inr ⟨hhalts, rfl⟩ }

end Effects

/-! ### Operands -/

section Operands

variable {m m' : Machine} {op : Opcode} {o : Option Operand}

theorem mem_register?_of_ok {r : Register} (h : registerOperand op o m = .ok r m') :
    r ∈ (Operand.register? o).toList := by
  rw [(registerOperand_eq_ok.1 h).1]
  exact List.mem_singleton_self r

theorem mem_bytesAt_of_ok {a : UInt32} {width : Nat} (h : addressOperand op o m = .ok a m') :
    ∀ x ∈ List.range' a.toNat width, x ∈ m.registers.bytesAt o width := by
  rw [RegisterFile.bytesAt, (addressOperand_eq_ok.1 h).1]
  exact fun x hx => hx

theorem mem_flag?_of_ok {f : Flag} (h : flagOperand op o m = .ok f m') :
    f ∈ (Operand.flag? o).toList := by
  unfold flagOperand at h
  split at h
  · rename_i n
    cases hflag : Flag.ofId? n.toNat with
    | some g =>
        rw [hflag] at h
        obtain ⟨rfl, -⟩ := EStateM.Result.ok.inj h
        rw [Operand.flag?, hflag]
        exact List.mem_singleton_self g
    | none =>
        rw [hflag] at h
        cases h
  · cases h

end Operands

/-! ### The stack -/

section Stack

variable {F : Footprint} {m : Machine}

theorem within_pushWord (hsp : .sp ∈ F.registers)
    (hbytes : ∀ x ∈ List.range' m.registers.pushAddress.toNat 4, x ∈ F.bytes) (v : UInt32) :
    Within F m (pushWord v) := by
  refine (looks_readRegister .sp).within_bind fun sp hread => ?_
  obtain ⟨rfl, -⟩ := EStateM.Result.ok.inj hread
  refine (looks_readFlag .stackDir).within_bind fun up hup => ?_
  obtain ⟨rfl, -⟩ := EStateM.Result.ok.inj hup
  unfold RegisterFile.pushAddress at hbytes
  cases hdir : m.registers.flag .stackDir with
  | true =>
      rw [hdir] at hbytes
      exact (within_store hbytes v).bind fun _ _ => within_writeRegister hsp _
  | false =>
      rw [hdir] at hbytes
      exact (within_store hbytes v).bind fun _ _ => within_writeRegister hsp _

theorem within_popWord (hsp : .sp ∈ F.registers) : Within F m popWord := by
  refine (looks_readRegister .sp).within_bind fun sp _ => ?_
  refine (looks_readFlag .stackDir).within_bind fun up _ => ?_
  have moves : ∀ v sp', Within F m (do writeRegister .sp sp'; return v : Exec UInt32) :=
    fun v sp' => (within_writeRegister hsp sp').bind fun _ _ => within_pure v
  cases up with
  | true => exact (looks_load (sp - 4)).within_bind fun v _ => moves v _
  | false => exact (looks_load sp).within_bind fun v _ => moves v _

end Stack

/-! ### Families of instructions -/

section Families

variable {m : Machine} (i : Instruction)

/-- The footprint of an instruction with a result. -/
def resultFootprint (i : Instruction) : Footprint :=
  { registers := (Operand.register? i.a).toList, flags := Flag.ofResult }

/-- The result goes to the destination, and the flags tell about it. -/
theorem within_result {r : Register} {states : List (Flag × Bool)}
    (hr : r ∈ (Operand.register? i.a).toList) (hstates : states.map Prod.fst = Flag.ofResult)
    (v : UInt32) : Within (resultFootprint i) m (do writeRegister r v; writeFlags states) := by
  refine (within_writeRegister hr v).bind fun _ m₁ => within_writeFlags ?_
  rw [hstates]
  exact List.Subset.refl _

theorem within_realBinary (f : UInt32 → UInt32 → UInt32) :
    Within (resultFootprint i) m (realBinary f i) := by
  refine (looks_registerOperand _ _).within_bind fun r hr => ?_
  refine (looks_readRegister r).within_bind fun a _ => ?_
  refine (looks_realOperand _ _).within_bind fun b _ => ?_
  exact within_result i (mem_register?_of_ok hr) rfl _

theorem within_realUnary (f : UInt32 → UInt32) :
    Within (resultFootprint i) m (realUnary f i) := by
  refine (looks_registerOperand _ _).within_bind fun r hr => ?_
  refine (looks_readRegister r).within_bind fun a _ => ?_
  exact within_result i (mem_register?_of_ok hr) rfl _

theorem within_bitwise (f : UInt32 → UInt32 → UInt32) :
    Within (resultFootprint i) m (bitwise f i) := by
  refine (looks_registerOperand _ _).within_bind fun r hr => ?_
  refine (looks_readRegister r).within_bind fun a _ => ?_
  refine (looks_wordOperand _ _).within_bind fun b _ => ?_
  exact within_result i (mem_register?_of_ok hr) rfl _

theorem within_shift (f : UInt32 → UInt32 → UInt32 × Bool) :
    Within (resultFootprint i) m (shift f i) := by
  refine (looks_registerOperand _ _).within_bind fun r hr => ?_
  refine (looks_readRegister r).within_bind fun a _ => ?_
  refine (looks_wordOperand _ _).within_bind fun n _ => ?_
  exact within_result i (mem_register?_of_ok hr) rfl _

/-- Only a jump that is taken changes the program counter. -/
theorem within_jump :
    Within { registers := if taken m.registers i.opcode then [.pc] else [] } m (jump i) := by
  refine (looks_addressOperand _ _).within_bind fun target _ => ?_
  refine looks_get.within_bind fun m₁ hget => ?_
  obtain ⟨rfl, -⟩ := EStateM.Result.ok.inj hget
  cases htaken : taken m.registers i.opcode with
  | true => exact within_writeRegister (List.mem_singleton_self _) target
  | false => exact within_pure _

theorem within_switch (on : Bool) :
    Within { flags := (Operand.flag? i.a).toList } m (switch on i) := by
  refine (looks_flagOperand _ _).within_bind fun f hf => within_writeFlags ?_
  intro g hg
  rw [List.mem_singleton.1 hg]
  exact mem_flag?_of_ok hf

end Families

/-! ### Input -/

section Input

variable {F : Footprint} {m : Machine} {a : UInt32}

theorem within_input (hreads : F.reads = true)
    (hbytes : ∀ x ∈ List.range' a.toNat (m.console.pending + 1), x ∈ F.bytes) :
    Within F m (input a) := by
  intro _ m' h
  by_cases hfits : m.memory.InRange a (m.console.pending + 1)
  · rw [input_of_inRange hfits] at h
    obtain ⟨-, rfl⟩ := EStateM.Result.ok.inj h
    have hlength : (m.console.take m.console.pending ++ [0]).length = m.console.pending + 1 := by
      simp [Console.take, Console.pending]
    refine (covers_drop hreads m m.console.pending).trans (covers_put ?_ ?_)
    · rw [hlength]
      exact hfits
    · rw [hlength]
      exact hbytes
  · rw [input_of_not_inRange hfits] at h
    cases h

theorem within_inputInteger (hreads : F.reads = true)
    (hbytes : ∀ x ∈ List.range' a.toNat 4, x ∈ F.bytes) : Within F m (inputInteger a) := by
  refine (looks_inspect _).within_bind fun _ _ => ?_
  refine (within_nextInteger hreads).bind fun v m₁ => ?_
  cases v with
  | some v => exact within_store hbytes v
  | none => exact fun _ _ h => nomatch h

theorem within_inputWord (hreads : F.reads = true)
    (hbytes : ∀ x ∈ List.range' a.toNat 4, x ∈ F.bytes) : Within F m (inputWord a) := by
  refine (looks_inspect _).within_bind fun _ _ => ?_
  exact (within_readBytes hreads 4).bind fun bytes m₁ => within_store hbytes _

end Input

/-! ### Instructions -/

/-- **Every instruction stays inside its footprint.** -/
theorem within_instruction (m : Machine) (i : Instruction) :
    Within (i.footprint m) m (instruction i) := by
  obtain ⟨op, a, b⟩ := i
  cases op with
  | movi | lodi =>
      refine (looks_immediateOperand _ b).within_bind fun v _ => ?_
      refine (looks_registerOperand _ a).within_bind fun r hr => ?_
      exact within_writeRegister (mem_register?_of_ok hr) v
  | movw =>
      refine (looks_wordOperand _ b).within_bind fun v _ => ?_
      refine (looks_registerOperand _ a).within_bind fun r hr => ?_
      exact within_writeRegister (mem_register?_of_ok hr) v
  | lodw =>
      refine (looks_registerOperand _ a).within_bind fun r hr => ?_
      refine (looks_addressOperand _ b).within_bind fun p _ => ?_
      refine (looks_load p).within_bind fun v _ => ?_
      exact within_writeRegister (mem_register?_of_ok hr) v
  | stri =>
      refine (looks_immediateOperand _ b).within_bind fun v _ => ?_
      refine (looks_addressOperand _ a).within_bind fun p hp => ?_
      exact within_store (mem_bytesAt_of_ok hp) v
  | strw =>
      refine (looks_wordOperand _ b).within_bind fun v _ => ?_
      refine (looks_addressOperand _ a).within_bind fun p hp => ?_
      exact within_store (mem_bytesAt_of_ok hp) v
  | xcgh =>
      refine (looks_registerOperand _ a).within_bind fun r hr => ?_
      refine (looks_registerOperand _ b).within_bind fun s hs => ?_
      refine (looks_readRegister r).within_bind fun v _ => ?_
      refine (looks_readRegister s).within_bind fun w _ => ?_
      have hfirst := List.mem_append_left (Operand.register? b).toList (mem_register?_of_ok hr)
      have hsecond := List.mem_append_right (Operand.register? a).toList (mem_register?_of_ok hs)
      exact (within_writeRegister hfirst w).bind fun _ _ => within_writeRegister hsecond v
  | push =>
      refine (looks_wordOperand _ a).within_bind fun v _ => ?_
      exact within_pushWord (List.mem_singleton_self _) (fun _ hx => hx) v
  | pop =>
      refine (looks_registerOperand _ a).within_bind fun r hr => ?_
      refine (within_popWord List.mem_cons_self).bind fun v m₁ => ?_
      exact within_writeRegister (List.mem_cons_of_mem _ (mem_register?_of_ok hr)) v
  | addw | subw | mul => exact within_realBinary _ _
  | inc | dec | neg => exact within_realUnary _ _
  | not =>
      refine (looks_registerOperand _ a).within_bind fun r hr => ?_
      refine (looks_readRegister r).within_bind fun v _ => ?_
      exact within_result ⟨.not, a, b⟩ (mem_register?_of_ok hr) rfl _
  | and | or | xor => exact within_bitwise _ _
  | shl | shr => exact within_shift _ _
  | cmpw =>
      refine (looks_registerOperand _ a).within_bind fun r _ => ?_
      refine (looks_readRegister r).within_bind fun v _ => ?_
      refine (looks_wordOperand _ b).within_bind fun w _ => ?_
      exact within_writeFlags (List.Subset.refl _)
  | jmp | je | jne | jgt | jge | jlt | jle | js | jco => exact within_jump _
  | call =>
      refine (looks_addressOperand _ a).within_bind fun p _ => ?_
      refine (looks_readRegister .sp).within_bind fun sp hsp => ?_
      obtain ⟨rfl, -⟩ := EStateM.Result.ok.inj hsp
      refine (looks_readRegister .pc).within_bind fun pc _ => ?_
      refine (within_store (fun _ hx => hx) pc).bind fun _ m₁ => ?_
      refine (within_writeRegister ?_ _).bind fun _ m₂ => within_writeRegister ?_ p
      · exact List.mem_cons_self
      · exact List.mem_cons_of_mem _ (List.mem_singleton_self _)
  | ret =>
      refine (looks_readRegister .sp).within_bind fun sp _ => ?_
      refine (looks_load sp).within_bind fun p _ => ?_
      refine (within_writeRegister ?_ _).bind fun _ m₂ => within_writeRegister ?_ p
      · exact List.mem_cons_self
      · exact List.mem_cons_of_mem _ (List.mem_singleton_self _)
  | inp =>
      refine (looks_addressOperand _ a).within_bind fun p hp => ?_
      exact within_input rfl (mem_bytesAt_of_ok hp)
  | out =>
      refine (looks_addressOperand _ a).within_bind fun p _ => ?_
      exact (looks_loadString p).within_bind fun bytes _ => within_print rfl bytes
  | insi =>
      refine (looks_addressOperand _ a).within_bind fun p hp => ?_
      exact within_inputInteger rfl (mem_bytesAt_of_ok hp)
  | outi => exact (looks_wordOperand _ a).within_bind fun v _ => within_print rfl _
  | insw =>
      refine (looks_addressOperand _ a).within_bind fun p hp => ?_
      exact within_inputWord rfl (mem_bytesAt_of_ok hp)
  | outw =>
      refine (looks_addressOperand _ a).within_bind fun p _ => ?_
      exact (looks_load p).within_bind fun v _ => within_print rfl _
  | setf | clrf => exact within_switch _ _
  | halt => exact within_halt rfl

end Exec

namespace Instruction

/-- **An instruction that is executed changes nothing outside its footprint.** -/
theorem covers_of_execute {m m' : Machine} {i : Instruction} (h : m.execute i = .done m') :
    (i.footprint m).Covers m m' :=
  Exec.within_instruction m i () m' (Machine.execute_eq_done.1 h)

/-- Two bytes of input and a zero go to three bytes of memory. -/
theorem covers_twoBytes :
    let m : Machine := { memory := .zeros 6, console := { input := [65, 66] } }
    let i : Instruction := ⟨.inp, some (.address 2), none⟩
    ∃ m', m.execute i = .done m' ∧ m'.memory.bytes = #[0, 0, 65, 66, 0, 0] ∧
      (i.footprint m).bytes = [2, 3, 4] ∧ (i.footprint m).Covers m m' := by
  intro m i
  obtain ⟨m', hexec, hbytes⟩ :
      ∃ m', m.execute i = .done m' ∧ m'.memory.bytes = #[0, 0, 65, 66, 0, 0] :=
    ⟨_, rfl, by decide⟩
  exact ⟨m', hexec, hbytes, rfl, covers_of_execute hexec⟩

end Instruction

end WordMachine
