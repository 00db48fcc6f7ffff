/-
**The names of macros.**

A macro whose name is taken is read and forgotten, so that no two macros of a source program have
one name, whatever the letter case.  The reader keeps this up line by line: the macro that is open
has a new name, unless it is one that will be forgotten.  A name therefore calls one macro at most,
and looking a macro up finds it wherever it stands.

Main definitions:

* `Reader.Distinct` — the names of the macros read so far differ;
* `Source.Calls` — a command calls a macro.

Main results:

* `Reader.distinct_step`, `Reader.distinct_foldl` — a line, and a whole text, keep the names apart;
* `Source.nodup_keys` — **no two macros of a source program have one name**;
* `Source.Calls.unique` — a command calls one macro at most;
* `Source.macro?_eq_some_iff`, `Source.macro?_eq_none_iff` — looking a macro up.
-/

import WordMachine.Source.Expansion
import Mathlib.Data.List.Nodup
import Mathlib.Tactic.SplitIfs

set_option relaxedAutoImplicit false
set_option autoImplicit false

namespace WordMachine

/-! ### Reading -/

namespace Reader

variable {r : Reader}

/-- The names of the macros. -/
def keys (r : Reader) : List Text := r.macros.toList.map Macro.key

/-- The names of the macros differ from each other, and from that of an open macro that is not to be
forgotten. -/
structure Distinct (r : Reader) : Prop where
  nodup : r.keys.Nodup
  fresh : ∀ m, r.open? = some m → m.isDuplicate = false → m.name.upper ∉ r.keys

theorem distinct_empty : Distinct {} := ⟨List.nodup_nil, nofun⟩

/-- A name that no macro has. -/
theorem not_mem_keys_of_find? {key : Text} (h : r.macros.find? (·.key == key) = none) :
    key ∉ r.keys := by
  intro hkey
  obtain ⟨m, hm, rfl⟩ := List.mem_map.1 hkey
  have := Array.find?_eq_none.1 h m (by simpa using hm)
  simp at this

theorem Distinct.report (h : r.Distinct) (line : Nat) (cause : SourceError) :
    (r.report line cause).Distinct :=
  ⟨h.nodup, h.fresh⟩

theorem Distinct.opens (h : r.Distinct) {m : OpenMacro}
    (hnew : m.isDuplicate = false → m.name.upper ∉ r.keys) :
    Distinct { r with open? := some m } := by
  refine ⟨h.nodup, ?_⟩
  rintro m' hm'
  cases hm'
  exact hnew

theorem Distinct.startMacro (h : r.Distinct) (c : Command) (name : Text)
    (parameters : List Text) : (r.startMacro c name parameters).Distinct := by
  rw [Reader.startMacro]
  cases hopen : r.open? with
  | some outer => exact (h.report _ _).opens (h.fresh outer hopen)
  | none =>
      -- A label in front of the start is reported, and changes nothing about the names.
      cases c.label with
      | none =>
          dsimp only
          split
          · exact (h.report _ _).opens nofun
          · rename_i hfind
            exact h.opens fun _ => not_mem_keys_of_find? hfind
      | some label =>
          dsimp only
          split
          · exact ((h.report _ _).report _ _).opens nofun
          · rename_i hfind
            exact (h.report _ _).opens fun _ => not_mem_keys_of_find? hfind

theorem Distinct.endMacro (h : r.Distinct) (c : Command) : (r.endMacro c).Distinct := by
  rw [Reader.endMacro]
  cases hopen : r.open? with
  | none => exact h.report _ _
  | some m =>
      dsimp only
      split_ifs with hskipped hduplicate
      · exact h.opens (h.fresh m hopen)
      · exact ⟨h.nodup, nofun⟩
      · refine ⟨?_, nofun⟩
        have hnew : m.name.upper ∉ r.keys := h.fresh m hopen (by simpa using hduplicate)
        have hkeys : (r.macros.push m.close).toList.map Macro.key = r.keys ++ [m.name.upper] := by
          simp [keys, Macro.key, OpenMacro.close]
        show ((r.macros.push m.close).toList.map Macro.key).Nodup
        rw [hkeys, List.nodup_append]
        refine ⟨h.nodup, List.nodup_singleton _, ?_⟩
        rintro key hkey _ hname rfl
        rw [List.mem_singleton] at hname
        exact hnew (hname ▸ hkey)

theorem Distinct.addCommand (h : r.Distinct) (c : Command) : (r.addCommand c).Distinct := by
  obtain ⟨commands, macros, open?, problems⟩ := r
  cases open? with
  | none => exact ⟨h.nodup, nofun⟩
  | some m =>
      simp only [Reader.addCommand]
      split_ifs with hskipped
      · exact h
      · exact h.opens (h.fresh m rfl)

/-- **A line keeps the names of the macros apart.** -/
theorem distinct_step (h : r.Distinct) (line : Text × Nat) : (r.step line).Distinct := by
  rw [step]
  cases Command.parse line.2 line.1 with
  | error cause => exact h.report _ _
  | ok c =>
      simp only [command]
      split
      · exact h.startMacro c _ _
      · exact h.endMacro c
      · split_ifs
        · exact h
        · exact h.addCommand c

theorem distinct_foldl (lines : List (Text × Nat)) (h : r.Distinct) :
    (lines.foldl step r).Distinct := by
  induction lines generalizing r with
  | nil => exact h
  | cons line lines ih => exact ih (distinct_step h line)

end Reader

/-! ### Source programs -/

namespace Source

variable {s : Text} {p : Source} {c : Command} {m : Macro}

/-- **No two macros of a source program have one name.** -/
theorem nodup_keys (h : Source.parse s = .ok p) : (p.macros.map Macro.key).Nodup := by
  have hdistinct := Reader.distinct_foldl (s.lines.zipIdx 1) Reader.distinct_empty
  rw [Source.parse] at h
  split at h
  · cases h
    exact hdistinct.nodup
  · exact nomatch h

/-- A command **calls** a macro by its name, whatever the letter case. -/
def Calls (p : Source) (c : Command) (m : Macro) : Prop :=
  m ∈ p.macros ∧ ∃ mnemonic, c.operation = .instruction mnemonic ∧ m.key = mnemonic.upper

/-- Only the operation of a command says what it calls. -/
theorem Calls.congr {c' : Command} (h : p.Calls c m) (hoperation : c'.operation = c.operation) :
    p.Calls c' m := by
  obtain ⟨hm, mnemonic, hmnemonic, hkey⟩ := h
  exact ⟨hm, mnemonic, hoperation.trans hmnemonic, hkey⟩

theorem findMacro?_eq_some_iff (hkeys : (p.macros.map Macro.key).Nodup) {key : Text} :
    findMacro? p.macros key = some m ↔ m ∈ p.macros ∧ m.key = key := by
  constructor
  · intro h
    exact ⟨List.mem_of_find?_eq_some h, by simpa using List.find?_some h⟩
  · rintro ⟨hm, rfl⟩
    obtain ⟨m', hfind⟩ : ∃ m', findMacro? p.macros m.key = some m' :=
      Option.isSome_iff_exists.1 (List.find?_isSome.2 ⟨m, hm, beq_self_eq_true _⟩)
    have hkey : m'.key = m.key := by simpa using List.find?_some hfind
    rw [hfind, List.inj_on_of_nodup_map hkeys (List.mem_of_find?_eq_some hfind) hm hkey]

/-- The macro that is looked up for a command is the one that it calls. -/
theorem macro?_eq_some_iff (hkeys : (p.macros.map Macro.key).Nodup) :
    c.macro? p.macros = some m ↔ p.Calls c m := by
  unfold Command.macro? Calls
  cases c.operation with
  | instruction mnemonic => simp [findMacro?_eq_some_iff hkeys]
  | _ => simp

/-- A command calls one macro at most. -/
theorem Calls.unique {m' : Macro} (hkeys : (p.macros.map Macro.key).Nodup) (h : p.Calls c m)
    (h' : p.Calls c m') : m = m' := by
  rw [← macro?_eq_some_iff hkeys] at h h'
  exact Option.some.inj (h.symm.trans h')

theorem macro?_eq_none_iff (hkeys : (p.macros.map Macro.key).Nodup) :
    c.macro? p.macros = none ↔ ∀ m, ¬ p.Calls c m := by
  simp only [Option.eq_none_iff_forall_ne_some, ne_eq, macro?_eq_some_iff hkeys]

end Source

end WordMachine
