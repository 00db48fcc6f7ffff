/-
**What operands stand for.**

An operand that is examined stands for a register, a word or an address, which depend on the
registers and on nothing else.  Examining it succeeds exactly when it stands for such a thing, and
changes nothing.

Main definitions:

* `Operand.register?` — the register that an operand is;
* `RegisterFile.word?`, `RegisterFile.address?` — the word and the address that it stands for.

Main results:

* `Exec.registerOperand_eq_ok`, `Exec.wordOperand_eq_ok`, `Exec.addressOperand_eq_ok` — when an
  operand is examined with success.
-/

import WordMachine.Proofs.Machine.Atomicity

set_option relaxedAutoImplicit false
set_option autoImplicit false

namespace WordMachine

/-- The register that an operand is. -/
def Operand.register? : Option Operand → Option Register
  | some (.register r) => some r
  | _ => none

/-- The word of a register, or a number. -/
def RegisterFile.word? (rs : RegisterFile) : Option Operand → Option UInt32
  | some (.register r) => some (rs.get r)
  | some (.immediate v) => some v
  | _ => none

/-- An address, or the address that a register holds. -/
def RegisterFile.address? (rs : RegisterFile) : Option Operand → Option UInt32
  | some (.address a) => some a
  | some (.indirect r) => some (rs.get r)
  | some (.register r) => some (rs.get r)
  | _ => none

namespace Exec

variable {op : Opcode} {o : Option Operand} {r : Register} {v a : UInt32} {m m' : Machine}

theorem Looks.eq_of_ok {α : Type} {x : Exec α} {b : α} (hx : Looks x) (h : x m = .ok b m') :
    m' = m := by
  rcases hx m with ⟨c, hok⟩ | ⟨cause, -, herror⟩
  · exact (EStateM.Result.ok.inj (h.symm.trans hok)).2
  · exact nomatch h.symm.trans herror

theorem registerOperand_eq_ok :
    registerOperand op o m = .ok r m' ↔ Operand.register? o = some r ∧ m' = m := by
  constructor
  · intro h
    refine ⟨?_, (looks_registerOperand op o).eq_of_ok h⟩
    unfold registerOperand at h
    split at h
    · exact congrArg some (EStateM.Result.ok.inj h).1
    · cases h
  · rintro ⟨h, rfl⟩
    unfold Operand.register? at h
    split at h
    · cases h
      rfl
    · cases h

theorem wordOperand_eq_ok :
    wordOperand op o m = .ok v m' ↔ m.registers.word? o = some v ∧ m' = m := by
  constructor
  · intro h
    refine ⟨?_, (looks_wordOperand op o).eq_of_ok h⟩
    unfold wordOperand at h
    split at h
    · exact congrArg some (EStateM.Result.ok.inj h).1
    · exact congrArg some (EStateM.Result.ok.inj h).1
    · cases h
  · rintro ⟨h, rfl⟩
    unfold RegisterFile.word? at h
    split at h
    · cases h
      rfl
    · cases h
      rfl
    · cases h

theorem addressOperand_eq_ok :
    addressOperand op o m = .ok a m' ↔ m.registers.address? o = some a ∧ m' = m := by
  constructor
  · intro h
    refine ⟨?_, (looks_addressOperand op o).eq_of_ok h⟩
    unfold addressOperand at h
    split at h
    · exact congrArg some (EStateM.Result.ok.inj h).1
    · exact congrArg some (EStateM.Result.ok.inj h).1
    · exact congrArg some (EStateM.Result.ok.inj h).1
    · cases h
  · rintro ⟨h, rfl⟩
    unfold RegisterFile.address? at h
    split at h
    · cases h
      rfl
    · cases h
      rfl
    · cases h
      rfl
    · cases h

end Exec

end WordMachine
