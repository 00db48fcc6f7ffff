/-
**The stack is last-in first-out.**

A push and a call store a word beyond the words of the stack, and a pop and a return load the last
word of it.  When such instructions stand in pairs, like brackets, each of them that loads finds the
word that its partner stored: between the two the stack has grown and shrunk again, and whatever was
stored there went to other bytes.  Only the instructions that store can fault, when the stack is
about to leave memory; then the others cannot.

With the stack-direction flag clear the stack grows downwards; a word is stored below the stack
pointer, and the words of the stack are the bytes from the pointer on.  With the flag set it grows
upwards, and they are the bytes below the pointer.  Calls and returns do not follow the flag, so
that they are in pairs with it clear only.

Main definitions:

* `Instruction.Pairs`, `Instruction.Balanced` — pairs, and sequences in which they are nested;
* `Machine.pushed?`, `Instruction.popped?` — the word that is stored, and the register that gets it;
* `Stack.Live` — the bytes that belong to the stack.

Main results:

* `Machine.opened_of_execute`, `Machine.exists_closed` — the instructions of a pair;
* `Machine.completes_of_balanced` — **a sequence in pairs** is executed, by induction on the pairs;
* `Machine.lifo_of_balanced` — what that means for the words on the stack.
-/

import WordMachine.Proofs.Machine.Footprint
import WordMachine.Proofs.Machine.Sequences
import WordMachine.Proofs.Instruction.Kinds
import WordMachine.MemorySize

set_option relaxedAutoImplicit false
set_option autoImplicit false

namespace WordMachine

/-! ### Pairs -/

namespace Instruction

/-- An instruction that stores a word on the stack, and **its partner**, which loads the word. -/
inductive Pairs : Bool → Instruction → Instruction → Prop
  /-- A word of a register or a number is pushed, and popped into another register or the same. -/
  | pushPop (up : Bool) {s : Option Operand} (hs : Operand.IsWord s) {r : Register}
      (hsp : r ≠ .sp) (hflags : r ≠ .flags) (x y : Option Operand) :
      Pairs up ⟨.push, s, x⟩ ⟨.pop, some (.register r), y⟩
  /-- A subroutine is called, and left. -/
  | callRet (t x y z : Option Operand) : Pairs false ⟨.call, t, x⟩ ⟨.ret, y, z⟩

/-- Instructions **in pairs**, one inside the other or one after the other. -/
inductive Balanced (up : Bool) : List Instruction → Prop
  | nil : Balanced up []
  | pair {i j : Instruction} {is js : List Instruction} (hpair : Pairs up i j)
      (his : Balanced up is) (hjs : Balanced up js) : Balanced up (i :: (is ++ j :: js))

/-- The register that gets the word, in an instruction that loads one from the stack. -/
def popped? (i : Instruction) : Option Register :=
  match i.opcode with
  | .pop => Operand.register? i.a
  | .ret => some .pc
  | _ => none

end Instruction

/-- The word that an instruction stores on the stack. -/
def Machine.pushed? (m : Machine) (i : Instruction) : Option UInt32 :=
  match i.opcode with
  | .push => m.registers.word? i.a
  | .call => some m.pc
  | _ => none

/-! ### The bytes of the stack -/

namespace Stack

/-- Where the next word is stored, with the given stack pointer. -/
def next (up : Bool) (sp : UInt32) : UInt32 := if up then sp else sp - 4

/-- The stack pointer with one more word. -/
def grown (up : Bool) (sp : UInt32) : UInt32 := if up then sp + 4 else sp - 4

/-- Where the last word was stored. -/
def last (up : Bool) (sp : UInt32) : UInt32 := if up then sp - 4 else sp

/-- The stack pointer without the last word. -/
def shrunk (up : Bool) (sp : UInt32) : UInt32 := if up then sp - 4 else sp + 4

/-- The byte at an address **belongs to the stack**, or to what lies behind it. -/
def Live (up : Bool) (sp : UInt32) (x : Nat) : Prop := if up then x < sp.toNat else sp.toNat ≤ x

variable {up : Bool} {sp : UInt32} {mem : Memory} {x : Nat}

@[simp] theorem last_grown (up : Bool) (sp : UInt32) : last up (grown up sp) = next up sp := by
  cases up with
  | true => exact UInt32.add_sub_cancel sp 4
  | false => rfl

@[simp] theorem shrunk_grown (up : Bool) (sp : UInt32) : shrunk up (grown up sp) = sp := by
  cases up with
  | true => exact UInt32.add_sub_cancel sp 4
  | false => exact UInt32.sub_add_cancel sp 4

/-- Where a word fits, the stack pointer stands at one end of it, and at the other end afterwards.
Memory ends before an address could wrap. -/
theorem toNat_pointers (hsize : mem.size < 2 ^ 32) (h : mem.InRange (next up sp) 4) :
    (up = true ∧ sp.toNat = (next up sp).toNat ∧
      (grown up sp).toNat = (next up sp).toNat + 4) ∨
    (up = false ∧ sp.toNat = (next up sp).toNat + 4 ∧
      (grown up sp).toNat = (next up sp).toNat) := by
  have hfits : (next up sp).toNat + 4 < 2 ^ 32 := Nat.lt_of_le_of_lt h hsize
  cases up with
  | true => exact .inl ⟨rfl, rfl, Memory.toNat_add_four hfits⟩
  | false =>
      refine .inr ⟨rfl, ?_, rfl⟩
      have hsp : sp - 4 + 4 = sp := UInt32.sub_add_cancel sp 4
      rw [← Memory.toNat_add_four hfits]
      exact congrArg UInt32.toNat hsp.symm

/-- The bytes of the stack with one more word are those from before and those of the word. -/
theorem live_grown_iff (hsize : mem.size < 2 ^ 32) (h : mem.InRange (next up sp) 4) :
    Live up (grown up sp) x ↔
      Live up sp x ∨ x ∈ Set.Ico (next up sp).toNat ((next up sp).toNat + 4) := by
  rcases toNat_pointers hsize h with ⟨rfl, hsp, hgrown⟩ | ⟨rfl, hsp, hgrown⟩
  · simp only [Live, if_true, Set.mem_Ico, hsp, hgrown]
    omega
  · simp only [Live, Bool.false_eq_true, if_false, Set.mem_Ico, hsp, hgrown]
    omega

theorem Live.not_mem (hx : Live up sp x) (hsize : mem.size < 2 ^ 32)
    (h : mem.InRange (next up sp) 4) :
    x ∉ Set.Ico (next up sp).toNat ((next up sp).toNat + 4) := by
  rcases toNat_pointers hsize h with ⟨rfl, hsp, -⟩ | ⟨rfl, hsp, -⟩
  · simp only [Live, if_true, hsp] at hx
    simp only [Set.mem_Ico]
    omega
  · simp only [Live, Bool.false_eq_true, if_false, hsp] at hx
    simp only [Set.mem_Ico]
    omega

end Stack

/-! ### One instruction -/

namespace Machine

variable {up : Bool} {m m₁ m₂ m' : Machine} {i j : Instruction} {v : UInt32} {r : Register}

/-- A word has been **stored** on the stack, which leads from `m` to `m'`. -/
structure Opened (up : Bool) (v : UInt32) (m m' : Machine) : Prop where
  inRange : m.memory.InRange (Stack.next up (m.registers.get .sp)) 4
  memory : m'.memory =
    m.memory.put (Stack.next up (m.registers.get .sp)).toNat (Memory.wordBytes v)
  sp : m'.registers.get .sp = Stack.grown up (m.registers.get .sp)
  direction : m'.registers.flag .stackDir = m.registers.flag .stackDir

/-- The last word has been **loaded** from the stack, which leads from `m` to `m'`. -/
structure Closed (up : Bool) (r : Register) (v : UInt32) (m m' : Machine) : Prop where
  memory : m'.memory = m.memory
  sp : m'.registers.get .sp = Stack.shrunk up (m.registers.get .sp)
  direction : m'.registers.flag .stackDir = m.registers.flag .stackDir
  loaded : m'.registers.get r = v

end Machine

namespace Exec

variable {up : Bool} {m m' : Machine} {v : UInt32}

/-- A push stores the word where the next one goes. -/
theorem pushWord_eq (hdir : m.registers.flag .stackDir = up) : pushWord v m =
    (do store (Stack.next up (m.registers.get .sp)) v
        writeRegister .sp (Stack.grown up (m.registers.get .sp)) : Exec Unit) m := by
  show (if m.registers.flag .stackDir then _ else _ : Exec Unit) m = _
  rw [hdir]
  cases up <;> rfl

/-- A pop loads the last word. -/
theorem popWord_eq (hdir : m.registers.flag .stackDir = up) : popWord m =
    (do let v ← load (Stack.last up (m.registers.get .sp))
        writeRegister .sp (Stack.shrunk up (m.registers.get .sp))
        return v : Exec UInt32) m := by
  show (if m.registers.flag .stackDir then _ else _ : Exec UInt32) m = _
  rw [hdir]
  cases up <;> rfl

/-- A call stores the program counter, whatever the direction of the stack. -/
theorem call_eq {t : Option Operand} {target : UInt32} (ht : m.registers.address? t = some target)
    (x : Option Operand) : instruction ⟨.call, t, x⟩ m =
    (do store (m.registers.get .sp - 4) m.pc
        writeRegister .sp (m.registers.get .sp - 4)
        writeRegister .pc target : Exec Unit) m := by
  have htarget : addressOperand .call t m = .ok target m := addressOperand_eq_ok.2 ⟨ht, rfl⟩
  show (addressOperand .call t >>= fun target => _) m = _
  rw [bind_of_ok htarget]
  rfl

end Exec

namespace Machine

variable {up : Bool} {m m₁ m₂ m' : Machine} {i j : Instruction} {v : UInt32}

theorem word?_of_isWord {s : Option Operand} (hs : Operand.IsWord s) (rs : RegisterFile) :
    ∃ v, rs.word? s = some v := by
  rcases hs with ⟨r, rfl⟩ | ⟨v, rfl⟩
  · exact ⟨_, rfl⟩
  · exact ⟨_, rfl⟩

/-- **The first instruction of a pair** stores a word, if it does not fault. -/
theorem opened_of_execute (hpair : Instruction.Pairs up i j)
    (hdir : m.registers.flag .stackDir = up) (h : m.execute i = .done m') :
    ∃ v, m.pushed? i = some v ∧ m.Opened up v m' := by
  rw [execute_eq_done] at h
  cases hpair with
  | pushPop _ hs hsp hflags x y =>
      obtain ⟨v, hv⟩ := word?_of_isWord hs m.registers
      refine ⟨v, hv, ?_⟩
      obtain ⟨w, m₁, hw, h⟩ := Exec.bind_eq_ok.1 h
      obtain ⟨hw, rfl⟩ := Exec.wordOperand_eq_ok.1 hw
      obtain rfl : v = w := Option.some.inj (hv.symm.trans hw)
      rw [Exec.pushWord_eq hdir] at h
      obtain ⟨_, m₂, hstore, h⟩ := Exec.bind_eq_ok.1 h
      obtain ⟨hfits, rfl⟩ := Exec.store_eq_ok.1 hstore
      obtain ⟨-, rfl⟩ := EStateM.Result.ok.inj h
      exact ⟨hfits, rfl, RegisterFile.get_set_self _ _ _,
        RegisterFile.flag_set_of_ne (by decide) _ _ _⟩
  | callRet t x y z =>
      refine ⟨m.pc, rfl, ?_⟩
      obtain ⟨target, m₁, htarget, -⟩ := Exec.bind_eq_ok.1 h
      obtain ⟨htarget, rfl⟩ := Exec.addressOperand_eq_ok.1 htarget
      rw [Exec.call_eq htarget] at h
      obtain ⟨_, m₂, hstore, h⟩ := Exec.bind_eq_ok.1 h
      obtain ⟨hfits, rfl⟩ := Exec.store_eq_ok.1 hstore
      obtain ⟨-, rfl⟩ := EStateM.Result.ok.inj h
      refine ⟨hfits, rfl, ?_, ?_⟩
      · rw [RegisterFile.get_set_of_ne (by decide), RegisterFile.get_set_self]
        rfl
      · rw [RegisterFile.flag_set_of_ne (by decide), RegisterFile.flag_set_of_ne (by decide)]

/-- The machine after the last word of the stack was loaded into a register. -/
def loadLast (m : Machine) (up : Bool) (r : Register) (v : UInt32) : Machine :=
  { m with registers :=
      (m.registers.set .sp (Stack.shrunk up (m.registers.get .sp))).set r v }

theorem closed_loadLast {r : Register} (hsp : r ≠ .sp) (hflags : r ≠ .flags) :
    m.Closed up r v (m.loadLast up r v) where
  memory := rfl
  sp := by rw [loadLast, RegisterFile.get_set_of_ne hsp, RegisterFile.get_set_self]
  direction := by
    rw [loadLast, RegisterFile.flag_set_of_ne hflags, RegisterFile.flag_set_of_ne (by decide)]
  loaded := RegisterFile.get_set_self _ _ _

/-- **The second instruction of a pair** loads the last word, if there is one. -/
theorem exists_closed (hpair : Instruction.Pairs up i j) (hdir : m.registers.flag .stackDir = up)
    (hread : m.memory.read32 (Stack.last up (m.registers.get .sp)) = .ok v) :
    ∃ r m', j.popped? = some r ∧ m.execute j = .done m' ∧ m.Closed up r v m' := by
  have hload := Exec.load_of_read32 hread
  cases hpair with
  | @pushPop _ _ _ r hsp hflags x y =>
      refine ⟨r, m.loadLast up r v, rfl, ?_, closed_loadLast hsp hflags⟩
      have hpop : Exec.popWord m = .ok v
          { m with registers := m.registers.set .sp (Stack.shrunk up (m.registers.get .sp)) } := by
        rw [Exec.popWord_eq hdir, Exec.bind_of_ok hload]
        rfl
      rw [execute_eq_done]
      show (Exec.popWord >>= fun v => Exec.writeRegister r v) m = _
      rw [Exec.bind_of_ok hpop]
      rfl
  | callRet t x y z =>
      refine ⟨.pc, m.loadLast false .pc v, rfl, ?_, closed_loadLast (by decide) (by decide)⟩
      rw [execute_eq_done]
      show (Exec.load (Stack.last false (m.registers.get .sp)) >>= fun target => _) m = _
      rw [Exec.bind_of_ok hload]
      rfl

/-! ### Sequences in pairs -/

/-- The stack is **as it was**, and so are the direction and the size of memory. -/
structure Restored (up : Bool) (m m' : Machine) : Prop where
  sp : m'.registers.get .sp = m.registers.get .sp
  bytes : ∀ x, Stack.Live up (m.registers.get .sp) x → m'.memory.byte x = m.memory.byte x
  size : m'.memory.size = m.memory.size
  direction : m'.registers.flag .stackDir = m.registers.flag .stackDir

theorem Restored.refl (up : Bool) (m : Machine) : Restored up m m :=
  ⟨rfl, fun _ _ => rfl, rfl, rfl⟩

theorem Restored.trans (h : Restored up m m₁) (h' : Restored up m₁ m₂) : Restored up m m₂ where
  sp := h'.sp.trans h.sp
  bytes x hx := (h'.bytes x (h.sp ▸ hx)).trans (h.bytes x hx)
  size := h'.size.trans h.size
  direction := h'.direction.trans h.direction

/-- A word that was stored is still there when the stack is as it was then. -/
theorem Opened.read32 (hsize : m.memory.size < 2 ^ 32) (h : Opened up v m m₁)
    (h' : Restored up m₁ m₂) :
    m₂.memory.read32 (Stack.last up (m₂.registers.get .sp)) = .ok v := by
  rw [h'.sp, h.sp, Stack.last_grown]
  have hsame : m₂.memory.read32 (Stack.next up (m.registers.get .sp)) =
      m₁.memory.read32 (Stack.next up (m.registers.get .sp)) := by
    refine Memory.read32_congr h'.size fun x hx => h'.bytes x ?_
    rw [h.sp]
    exact (Stack.live_grown_iff hsize h.inRange).2 (.inr hx)
  rw [hsame, h.memory, Memory.read32_put h.inRange]

/-- What the second instruction of a pair leaves behind: the word it has loaded was not among the
bytes of the stack before the pair. -/
theorem Opened.restored (hsize : m.memory.size < 2 ^ 32) (h : Opened up v m m₁)
    (h' : Restored up m₁ m₂) {r : Register} (hclosed : Closed up r v m₂ m') :
    Restored up m m' where
  sp := by rw [hclosed.sp, h'.sp, h.sp, Stack.shrunk_grown]
  bytes x hx := by
    have hlive : Stack.Live up (m₁.registers.get .sp) x := by
      rw [h.sp]
      exact (Stack.live_grown_iff hsize h.inRange).2 (.inl hx)
    have hstored : m₁.memory.byte x = m.memory.byte x := by
      rw [h.memory]
      refine Memory.byte_put_of_not_mem h.inRange ?_
      exact hx.not_mem hsize h.inRange
    rw [hclosed.memory, h'.bytes x hlive, hstored]
  size := by rw [hclosed.memory, h'.size, h.memory, Memory.size_put]
  direction := hclosed.direction.trans (h'.direction.trans h.direction)

/-- Each instruction that stores a word is executed, if those before it are. -/
def Stores (m : Machine) (is : List Instruction) : Prop :=
  ∀ front i rest m₁, is = front ++ i :: rest → i.opcode = .push ∨ i.opcode = .call →
    m.executeAll front = .done m₁ → ∃ m₂, m₁.execute i = .done m₂

theorem Stores.cons {is : List Instruction} (h : m.Stores (i :: is))
    (hi : i.opcode = .push ∨ i.opcode = .call) : ∃ m₁, m.execute i = .done m₁ :=
  h [] i is m rfl hi rfl

theorem Stores.of_append {is js : List Instruction} (h : m.Stores (is ++ js)) : m.Stores is := by
  rintro front i rest m₁ rfl hi hfront
  exact h front i (rest ++ js) m₁ (by simp) hi hfront

theorem Stores.after {is js : List Instruction} (his : m.executeAll is = .done m₁)
    (h : m.Stores (is ++ js)) : m₁.Stores js := by
  rintro front i rest m₂ rfl hi hfront
  refine h (is ++ front) i rest m₂ (by simp) hi ?_
  rw [executeAll_append his, hfront]

/-- After `front`, the instruction `k` loads **the word that its partner stored**. -/
def Returns (m : Machine) (up : Bool) (front : List Instruction) (k : Instruction) : Prop :=
  ∃ before i between v r m₁ m₂,
    front = before ++ i :: between ∧ Instruction.Pairs up i k ∧ Instruction.Balanced up between ∧
      m.executeAll before = .done m₁ ∧ m₁.pushed? i = some v ∧ k.popped? = some r ∧
      m.executeAll (front ++ [k]) = .done m₂ ∧ m₂.registers.get r = v

theorem Returns.after {is front : List Instruction} (his : m.executeAll is = .done m₁)
    (h : m₁.Returns up front j) : m.Returns up (is ++ front) j := by
  obtain ⟨before, i, between, v, r, m₂, m₃, rfl, hpair, hbetween, hbefore, hv, hr, hall, hget⟩ := h
  refine ⟨is ++ before, i, between, v, r, m₂, m₃, by simp, hpair, hbetween, ?_, hv, hr, ?_, hget⟩
  · rw [executeAll_append his, hbefore]
  · rw [List.append_assoc, executeAll_append his, hall]

/-- A sequence in pairs **is executed**: the stack is as it was, and each instruction that loads a
word gets the one that its partner stored. -/
structure Completes (m : Machine) (up : Bool) (is : List Instruction) (m' : Machine) : Prop where
  executed : m.executeAll is = .done m'
  restored : Restored up m m'
  returns : ∀ front k rest, is = front ++ k :: rest → k.opcode = .pop ∨ k.opcode = .ret →
    m.Returns up front k

theorem opens_of_pairs (hpair : Instruction.Pairs up i j) :
    i.opcode = .push ∨ i.opcode = .call := by
  cases hpair with
  | pushPop => exact .inl rfl
  | callRet => exact .inr rfl

theorem not_closes_of_pairs (hpair : Instruction.Pairs up i j) :
    ¬ (i.opcode = .pop ∨ i.opcode = .ret) := by
  cases hpair with
  | pushPop => simp
  | callRet => simp

/-- An instruction of a sequence in pairs belongs to the first pair, or stands inside it or after
it. -/
theorem mem_pair_cases {k : Instruction} {is js front rest : List Instruction}
    (h : i :: (is ++ j :: js) = front ++ k :: rest) :
    (front = [] ∧ k = i) ∨ (∃ front' rest', front = i :: front' ∧ is = front' ++ k :: rest') ∨
      (front = i :: is ∧ k = j) ∨
      ∃ front', front = i :: (is ++ [j]) ++ front' ∧ js = front' ++ k :: rest := by
  rcases List.cons_eq_append_iff.1 h with ⟨rfl, hk⟩ | ⟨front', rfl, htail⟩
  · exact .inl ⟨rfl, (List.cons.inj hk).1⟩
  · rcases List.append_eq_append_iff.1 htail with ⟨as, rfl, hrest⟩ | ⟨bs, rfl, hrest⟩
    · rcases List.cons_eq_append_iff.1 hrest with ⟨rfl, hk⟩ | ⟨front', rfl, hjs⟩
      · exact .inr (.inr (.inl ⟨by simp, (List.cons.inj hk).1⟩))
      · exact .inr (.inr (.inr ⟨front', by simp, hjs⟩))
    · rcases List.cons_eq_append_iff.1 hrest with ⟨rfl, hj⟩ | ⟨bs, rfl, -⟩
      · exact .inr (.inr (.inl ⟨by simp, (List.cons.inj hj).1.symm⟩))
      · exact .inr (.inl ⟨front', bs, rfl, rfl⟩)

/-- **A sequence in pairs is executed**, if each of its instructions that stores a word is.  The
induction is on the pairs: `is` stands inside the first one and `js` after it. -/
theorem completes_of_balanced {is : List Instruction} (h : Instruction.Balanced up is)
    (hsize : m.memory.size < 2 ^ 32) (hdir : m.registers.flag .stackDir = up)
    (hstores : m.Stores is) : ∃ m', m.Completes up is m' := by
  induction h generalizing m with
  | nil => exact ⟨m, rfl, .refl up m, fun front k rest hnil => by simp at hnil⟩
  | @pair i j is js hpair his hjs ihis ihjs =>
      obtain ⟨m₁, hi⟩ := hstores.cons (opens_of_pairs hpair)
      obtain ⟨v, hv, hopened⟩ := opened_of_execute hpair hdir hi
      have hfirst : m.executeAll [i] = .done m₁ := by rw [executeAll_cons hi, executeAll_nil]
      have hsize₁ : m₁.memory.size < 2 ^ 32 := by rwa [hopened.memory, Memory.size_put]
      have hstores₁ : m₁.Stores (is ++ j :: js) := Stores.after hfirst hstores
      obtain ⟨m₂, hinner⟩ := ihis hsize₁ (hopened.direction.trans hdir) hstores₁.of_append
      have hdir₂ := hinner.restored.direction.trans (hopened.direction.trans hdir)
      obtain ⟨r, m₃, hr, hj, hclosed⟩ :=
        exists_closed hpair hdir₂ (hopened.read32 hsize hinner.restored)
      have hrestored := hopened.restored hsize hinner.restored hclosed
      -- The whole pair, and the same with what is executed up to its end.
      have hupto : m.executeAll (i :: is) = .done m₂ := by rw [executeAll_cons hi, hinner.executed]
      have hpaired : m.executeAll (i :: (is ++ [j])) = .done m₃ := by
        rw [← List.cons_append, executeAll_append hupto, executeAll_cons hj, executeAll_nil]
      have hwhole : i :: (is ++ j :: js) = i :: (is ++ [j]) ++ js := by simp
      obtain ⟨m₄, hrest⟩ := ihjs (hrestored.size ▸ hsize) (hrestored.direction.trans hdir)
        (Stores.after hpaired (hwhole ▸ hstores))
      refine ⟨m₄, ?_, hrestored.trans hrest.restored, ?_⟩
      · rw [hwhole, executeAll_append hpaired, hrest.executed]
      · intro front k rest hsplit hk
        rcases mem_pair_cases hsplit with ⟨-, rfl⟩ | ⟨front, rest, rfl, his'⟩ | ⟨rfl, rfl⟩ |
          ⟨front, rfl, hjs'⟩
        · exact absurd hk (not_closes_of_pairs hpair)
        · exact Returns.after hfirst (hinner.returns front k rest his' hk)
        · exact ⟨[], i, is, v, r, m, m₃, rfl, hpair, his, rfl, hv, hr, hpaired, hclosed.loaded⟩
        · exact Returns.after hpaired (hrest.returns front k rest hjs' hk)

/-- **The stack is last-in first-out.**  If every push and every call of a sequence in pairs is
executed, so are all its instructions, and each pop and each return loads the word that its partner
has stored.  At the end the stack pointer and the bytes of the stack are as they were. -/
theorem lifo_of_balanced {is : List Instruction} (hsize : m.memory.size ≤ largestMemory)
    (hdir : m.registers.flag .stackDir = up) (h : Instruction.Balanced up is)
    (hstores : m.Stores is) :
    ∃ m', m.executeAll is = .done m' ∧
      (∀ front k rest, is = front ++ k :: rest → k.opcode = .pop ∨ k.opcode = .ret →
        m.Returns up front k) ∧
      m'.registers.get .sp = m.registers.get .sp ∧
      ∀ x, Stack.Live up (m.registers.get .sp) x → m'.memory.byte x = m.memory.byte x := by
  have hlt : m.memory.size < 2 ^ 32 := Nat.lt_of_le_of_lt hsize (by decide)
  obtain ⟨m', hcompletes⟩ := completes_of_balanced h hlt hdir hstores
  exact ⟨m', hcompletes.executed, hcompletes.returns, hcompletes.restored.sp,
    hcompletes.restored.bytes⟩

theorem stores_of_executeAll {is : List Instruction} (h : m.executeAll is = .done m') :
    m.Stores is := by
  rintro front i rest m₁ rfl - hfront
  rw [executeAll_append hfront, executeAll] at h
  cases hi : m₁.execute i with
  | done m₂ => exact ⟨m₂, rfl⟩
  | faulted cause m₂ =>
      rw [hi] at h
      contradiction

/-- A machine with an empty stack. -/
def emptyStack : Machine :=
  { registers := (RegisterFile.zeros.set .sp 16).set .ax 5, memory := .zeros 20 }

/-- A register is pushed, and gets another word before the pop; a subroutine is called and left in
between. -/
def overwriting : List Instruction :=
  [⟨.push, some (.register .ax), none⟩, ⟨.push, some (.immediate 7), none⟩,
    ⟨.pop, some (.register .ax), none⟩, ⟨.call, some (.address 100), none⟩, ⟨.ret, none, none⟩,
    ⟨.pop, some (.register .bx), none⟩]

/-- The word that was pushed first is popped last. -/
theorem lifo_overwriting :
    emptyStack.memory.size ≤ largestMemory ∧ emptyStack.registers.flag .stackDir = false ∧
      Instruction.Balanced false overwriting ∧ emptyStack.Stores overwriting ∧
      ∃ m', emptyStack.executeAll overwriting = .done m' ∧ m'.registers.get .bx = 5 ∧
        m'.registers.get .ax = 7 ∧ m'.pc = 0 ∧ m'.registers.get .sp = 16 ∧
        emptyStack.Returns false (overwriting.take 5) ⟨.pop, some (.register .bx), none⟩ := by
  have hsize : emptyStack.memory.size ≤ largestMemory := by decide
  have hdir : emptyStack.registers.flag .stackDir = false := by decide
  have hcall := Instruction.Balanced.pair (.callRet (some (.address 100)) none none none) .nil .nil
  have hnumber := Instruction.Balanced.pair (.pushPop false (.inr ⟨7, rfl⟩) (r := .ax) (by decide)
    (by decide) none none) .nil hcall
  have hbalanced : Instruction.Balanced false overwriting := .pair (.pushPop false (.inl ⟨.ax, rfl⟩)
    (by decide) (by decide) none none) hnumber .nil
  obtain ⟨m', hall, hbx, hax, hpc⟩ : ∃ m', emptyStack.executeAll overwriting = .done m' ∧
      m'.registers.get .bx = 5 ∧ m'.registers.get .ax = 7 ∧ m'.pc = 0 :=
    ⟨_, rfl, by decide, by decide, by decide⟩
  have hstores := stores_of_executeAll hall
  obtain ⟨m₁, hall₁, hreturns, hsp, -⟩ := lifo_of_balanced hsize hdir hbalanced hstores
  obtain rfl : m' = m₁ := Outcome.done.inj (hall.symm.trans hall₁)
  exact ⟨hsize, hdir, hbalanced, hstores, m', hall, hbx, hax, hpc, hsp,
    hreturns (overwriting.take 5) _ [] rfl (.inl rfl)⟩

end Machine

end WordMachine
