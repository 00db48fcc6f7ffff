/-
**Names as operands.**

An operand that reads as a label refers to its **core**: the text without the white space around it,
and without the square brackets around it and the white space inside them.  A text that has neither
is its own core; any other one refers to a name that is shorter.

Main definitions:

* `Operand.core` — the name that an operand refers to;
* `Operand.Unwrapped` — there are neither white space nor brackets around a text;
* `Operand.Fits` — the rules for what stands for an operand.

Main results:

* `Operand.fits_of_parse` — every operand that is read fits a rule;
* `Operand.core_of_parse` — an operand that reads as a label refers to its core;
* `Operand.core_eq_self_iff` — **only a text with nothing around it is its own core**;
* `Operand.quote_not_mem_of_parse` — no quote stands in such an operand.
-/

import WordMachine.Operand.Parser
import WordMachine.Proofs.Text.Cutting

set_option relaxedAutoImplicit false
set_option autoImplicit false

namespace WordMachine.Operand

variable {s t inner : Text} {opening closing : Char} {o : Operand}

/-- The name that an operand refers to, if it reads as a label. -/
def core (s : Text) : Text :=
  match enclosed? '[' ']' s.trim with
  | some inner => inner.trim
  | none => s.trim

/-- There are neither white space nor brackets **around** the text. -/
def Unwrapped (s : Text) : Prop :=
  s.trim = s ∧ ∀ inner, s ≠ '[' :: inner ++ [']']

/-! ### Brackets -/

theorem enclosed?_eq_some_iff :
    enclosed? opening closing s = some inner ↔ s = opening :: inner ++ [closing] := by
  cases s with
  | nil => simp [enclosed?]
  | cons c s =>
      rw [enclosed?]
      split
      · rename_i h
        obtain ⟨rfl, hlast⟩ : c = opening ∧ s.getLast? = some closing := by simpa using h
        obtain ⟨rest, rfl⟩ := List.getLast?_eq_some_iff.1 hlast
        simp
      · rename_i h
        refine iff_of_false nofun ?_
        intro heq
        simp only [List.cons_append, List.cons.injEq] at heq
        simp [heq] at h

theorem core_of_enclosed (h : s.trim = '[' :: inner ++ [']']) : core s = inner.trim := by
  rw [core, enclosed?_eq_some_iff.2 h]

theorem core_of_not_enclosed (h : ∀ inner, s.trim ≠ '[' :: inner ++ [']']) : core s = s.trim := by
  have hnone : enclosed? '[' ']' s.trim = none :=
    Option.eq_none_iff_forall_ne_some.2 fun inner hin => h inner (enclosed?_eq_some_iff.1 hin)
  rw [core, hnone]

/-- What stands in brackets is shorter than the text. -/
theorem length_core_lt (h : s.trim = '[' :: inner ++ [']']) : (core s).length < s.length := by
  have hinner := Text.length_trim_le inner
  have htrim := Text.length_trim_le s
  rw [h, List.length_append, List.length_cons, List.length_singleton] at htrim
  rw [core_of_enclosed h]
  omega

/-- **Only a text with nothing around it is its own core.** -/
theorem core_eq_self_iff : core s = s ↔ Unwrapped s := by
  constructor
  · intro hcore
    have hopen : ∀ inner, s.trim ≠ '[' :: inner ++ [']'] := by
      intro inner h
      have hlt := length_core_lt h
      rw [hcore] at hlt
      exact Nat.lt_irrefl _ hlt
    have htrim : s.trim = s := (core_of_not_enclosed hopen).symm.trans hcore
    rw [htrim] at hopen
    exact ⟨htrim, hopen⟩
  · rintro ⟨htrim, hopen⟩
    rw [core_of_not_enclosed (by rwa [htrim]), htrim]

/-! ### Reading -/

/-- **Rules** for what stands for an operand, without the white space around it. -/
inductive Fits : Text → Operand → Prop
  | quoted (content : Text) : Fits ('"' :: content ++ ['"']) (quoted content)
  | register {token : Text} {r : Register} (h : Register.ofName? token = some r) :
      Fits token (register r)
  | flag {token : Text} {f : Flag} (h : Flag.ofOperandName? token = some f) : Fits token (ofFlag f)
  | indirect {inner : Text} {r : Register} (h : Register.ofName? inner.trim = some r) :
      Fits ('[' :: inner ++ [']']) (indirect r)
  | address {inner : Text} {n : UInt32} (h : Literal.integer inner.trim = .value n) :
      Fits ('[' :: inner ++ [']']) (address n)
  | bracketed {inner : Text} (h : isBare ['[', ']', '"'] inner.trim) :
      Fits ('[' :: inner ++ [']']) (label inner.trim)
  | number {token : Text} {n : UInt32} (h : number token = .value n) : Fits token (immediate n)
  | bare {token : Text} (hopen : ∀ inner, token ≠ '[' :: inner ++ [']'])
      (h : isBare ['[', ']', '"', ','] token) : Fits token (label token)

theorem fits_of_parseBracketed {token : Text} (h : parseBracketed token inner.trim = .ok o) :
    Fits ('[' :: inner ++ [']']) o := by
  unfold parseBracketed at h
  split at h
  · rename_i hr
    cases h
    exact .indirect hr
  split at h
  · rename_i hn
    cases h
    exact .address hn
  · cases h
  · split at h
    · rename_i hbare
      cases h
      exact .bracketed (Bool.and_eq_true_iff.1 hbare).2
    · cases h

theorem fits_of_parseBare {token : Text} (hopen : ∀ inner, token ≠ '[' :: inner ++ [']'])
    (h : parseBare token = .ok o) : Fits token o := by
  unfold parseBare at h
  split at h
  · rename_i hn
    cases h
    exact .number hn
  · cases h
  · split at h
    · rename_i hbare
      cases h
      exact .bare hopen hbare
    · cases h

/-- **Every operand that is read fits a rule.** -/
theorem fits_of_parse (h : parse s = .ok o) : Fits s.trim o := by
  unfold parse at h
  dsimp only at h
  split at h
  · cases h
  split at h
  · rename_i content hquoted
    cases h
    rw [enclosed?_eq_some_iff.1 hquoted]
    exact .quoted content
  split at h
  · rename_i hr
    cases h
    exact .register hr
  split at h
  · rename_i hf
    cases h
    exact .flag hf
  split at h
  · rename_i henclosed
    rw [enclosed?_eq_some_iff.1 henclosed]
    exact fits_of_parseBracketed h
  · rename_i hopen
    exact fits_of_parseBare (fun inner hin => hopen inner (enclosed?_eq_some_iff.2 hin)) h

/-- An operand that reads as a label stands in brackets, or has none around it. -/
theorem parse_eq_label (h : parse s = .ok (.label t)) :
    (∃ inner : Text, s.trim = '[' :: inner ++ [']'] ∧ t = inner.trim ∧ isBare ['[', ']', '"'] t) ∨
      ((∀ inner, s.trim ≠ '[' :: inner ++ [']']) ∧ t = s.trim ∧
        isBare ['[', ']', '"', ','] t) := by
  have hfits := fits_of_parse h
  generalize s.trim = token at hfits ⊢
  cases hfits with
  | bracketed hbare => exact .inl ⟨_, rfl, rfl, hbare⟩
  | bare hopen hbare => exact .inr ⟨hopen, rfl, hbare⟩

/-- **An operand that reads as a label refers to its core.** -/
theorem core_of_parse (h : parse s = .ok (.label t)) : t = core s := by
  rcases parse_eq_label h with ⟨inner, hin, rfl, -⟩ | ⟨hopen, rfl, -⟩
  · exact (core_of_enclosed hin).symm
  · exact (core_of_not_enclosed hopen).symm

theorem not_mem_of_isBare {c : Char} {excluded : Text} (h : isBare excluded s) (hc : c ∈ excluded) :
    c ∉ s := by
  intro hmem
  have hnone := (Bool.and_eq_true_iff.1 h).2
  rw [Bool.not_eq_true', List.any_eq_false] at hnone
  exact hnone c hmem (List.contains_iff_mem.2 hc)

/-- No quote stands in an operand that reads as a label. -/
theorem quote_not_mem_of_parse (h : parse s = .ok (.label t)) : '"' ∉ s := by
  rw [← Text.mem_trim_iff rfl]
  rcases parse_eq_label h with ⟨inner, hin, rfl, hbare⟩ | ⟨-, rfl, hbare⟩
  · have hinner : '"' ∉ inner := by
      rw [← Text.mem_trim_iff rfl]
      exact not_mem_of_isBare hbare (by decide)
    rw [hin]
    simpa using hinner
  · exact not_mem_of_isBare hbare (by decide)

theorem ne_nil_of_parse (h : parse s = .ok (.label t)) : s ≠ [] := by
  rintro rfl
  cases h

end WordMachine.Operand
