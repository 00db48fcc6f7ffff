/-
**The place of the segments.**

A survey that leads to no placement error describes three segments that follow each other in memory:
the text, then the data, then the stack.  All numbers here are unbounded; that every address of a
placed survey has 32 bits is a consequence of the size of memory, and so nothing is lost when the
addresses and the values of the names are stored in words.

Main definitions:

* `Survey.Placed` — the segments follow each other and lie inside memory;
* `Program.Built` — a program with the survey and the emission that it comes from.

Main results:

* `Survey.placed_of_placementErrors` — a survey without placement errors is placed;
* `Survey.Placed.resolve_lt` — the value of every name of a placed survey has 32 bits;
* `Program.built_of_assemble` — every assembled program is built from its commands.
-/

import WordMachine.Proofs.Assembly.Survey
import WordMachine.Proofs.Assembly.Emission

set_option relaxedAutoImplicit false
set_option autoImplicit false

namespace WordMachine

namespace Survey

variable {s : Survey} {memory : Nat}

/-! ### Placement -/

/-- **The segments follow each other and lie inside memory.** -/
structure Placed (s : Survey) (memory : Nat) : Prop where
  text_lt : s.textBase < memory
  text_le : s.textBase + s.textSize ≤ s.dataBase memory
  data_eq : s.dataBase memory + s.dataSize = s.stackBase memory
  stack_lt : s.stackBase memory < memory
  stack_le : s.stackBase memory + s.stackBytes ≤ memory

theorem textErrors_eq_nil (h : s.textErrors memory = []) : s.textBase < memory := by
  unfold textErrors at h
  split at h
  · contradiction
  · omega

theorem stackErrors_eq_nil (h : s.stackErrors memory = []) :
    s.stackBase memory < memory ∧ s.stackBase memory + s.stackBytes ≤ memory := by
  unfold stackErrors at h
  simp only at h
  split at h
  · contradiction
  · split at h
    · contradiction
    · omega

/-- The end of the text is looked at only when the other segments are in place. -/
theorem dataErrors_eq_nil (htext : s.textErrors memory = []) (hstack : s.stackErrors memory = [])
    (h : s.dataErrors memory = []) :
    s.dataSize ≤ s.stackBase memory ∧ s.textBase + s.textSize ≤ s.dataBase memory := by
  unfold dataErrors at h
  simp only at h
  split at h
  · contradiction
  · split at h
    · contradiction
    · rename_i hfits hoverlap
      simp only [htext, hstack, List.isEmpty_nil, Bool.and_self, Bool.true_and,
        decide_eq_true_eq] at hoverlap
      omega

/-- **A survey without placement errors is placed.** -/
theorem placed_of_placementErrors (h : s.placementErrors memory = []) : s.Placed memory := by
  unfold placementErrors at h
  split at h
  · contradiction
  · obtain ⟨h, hdata⟩ := List.append_eq_nil_iff.1 h
    obtain ⟨htext, hstack⟩ := List.append_eq_nil_iff.1 h
    obtain ⟨hlt, hle⟩ := stackErrors_eq_nil hstack
    obtain ⟨hfits, hend⟩ := dataErrors_eq_nil htext hstack hdata
    exact ⟨textErrors_eq_nil htext, hend, Nat.sub_add_cancel hfits, hlt, hle⟩

/-! ### Values of 32 bits -/

/-- **The value of every sheltered name of a placed survey has 32 bits.** -/
theorem Placed.resolve_lt {d : Definition} (h : s.Placed memory) (hd : s.Sheltered d)
    (hmemory : memory ≤ 2 ^ 32) : s.resolve memory d < 2 ^ 32 := by
  obtain ⟨_, htext, hdata, hstack, _⟩ := h
  unfold Sheltered at hd
  unfold resolve
  cases ho : d.origin with
  | text => simp only [ho] at hd ⊢; omega
  | data => simp only [ho] at hd ⊢; omega
  | absolute => simp only [ho] at hd ⊢; omega

end Survey

theorem MemorySize.bytes_lt (memory : MemorySize) : memory.bytes < 2 ^ 32 := by
  have := memory.le_largest
  unfold largestMemory at this
  omega

/-- A number of 32 bits is a word. -/
theorem toNat_toUInt32 {n : Nat} (h : n < 2 ^ 32) : n.toUInt32.toNat = n :=
  UInt32.toNat_ofNat_of_lt' h

/-! ### Assembled programs -/

namespace Program

variable {memory : MemorySize} {source : Text} {cs : List Command} {p : Program}

/-- A program with the survey and the emission that it comes from. -/
structure Built (memory : MemorySize) (cs : List Command) (p : Program) : Prop where
  surveyed : (Survey.ofCommands cs).problems = #[]
  placed : (Survey.ofCommands cs).Placed memory.bytes
  emitted : (Emission.ofCommands p.symbols cs).problems = #[]
  text : p.text = (Emission.ofCommands p.symbols cs).text.toList
  data : p.data = (Emission.ofCommands p.symbols cs).data.toList
  lines : p.lines = (Emission.ofCommands p.symbols cs).lines.toList
  symbols : p.symbols = (Survey.ofCommands cs).symbols memory.bytes
  textStart : p.textStart.toNat = (Survey.ofCommands cs).textBase
  dataStart : p.dataStart.toNat = (Survey.ofCommands cs).dataBase memory.bytes
  stackStart : p.stackStart.toNat = (Survey.ofCommands cs).stackBase memory.bytes
  stackSize : p.stackSize.toNat = (Survey.ofCommands cs).stackBytes

theorem layout_ok {l : Layout} (h : Layout.ofCommands memory cs = .ok l) :
    (Survey.ofCommands cs).problems = #[] ∧ (Survey.ofCommands cs).Placed memory.bytes ∧
      l = Layout.ofSurvey (Survey.ofCommands cs) memory.bytes := by
  unfold Layout.ofCommands at h
  simp only at h
  split at h
  · rename_i hnone
    obtain ⟨hproblems, hplacement⟩ := List.append_eq_nil_iff.1 hnone
    cases h
    refine ⟨Array.toList_eq_nil_iff.1 hproblems, ?_, rfl⟩
    exact Survey.placed_of_placementErrors (List.map_eq_nil_iff.1 hplacement)
  · contradiction

/-- **Every assembled program is built from its commands.** -/
theorem built_of_assemble (h : assemble memory source = .ok p) :
    ∃ cs, commands source = .ok cs ∧ Built memory cs p := by
  obtain ⟨cs, hcs, h⟩ := Except.bind_eq_ok.1 h
  obtain ⟨l, hl, h⟩ := Except.bind_eq_ok.1 h
  obtain ⟨hsurveyed, hplaced, rfl⟩ := layout_ok (Except.mapError_eq_ok.1 hl)
  unfold ofLayout at h
  simp only at h
  split at h
  · rename_i hnone
    cases h
    have hmemory := memory.bytes_lt
    have htext := hplaced.text_lt
    have hdata := hplaced.data_eq
    have hstack := hplaced.stack_lt
    have hsize := hplaced.stack_le
    refine ⟨cs, hcs, hsurveyed, hplaced, Array.toList_eq_nil_iff.1 hnone, rfl, rfl, rfl, rfl,
      ?_, ?_, ?_, ?_⟩
    · exact toNat_toUInt32 (by omega)
    · exact toNat_toUInt32 (by omega)
    · exact toNat_toUInt32 (by omega)
    · exact toNat_toUInt32 (by omega)
  · contradiction

/-- Both walks count the same number of data bytes, at every command. -/
theorem Built.dataSize_prefix {ds : List Command} (h : Built memory (cs ++ ds) p) :
    (Survey.ofCommands cs).dataSize = (Emission.ofCommands p.symbols cs).data.size := by
  have hs := Survey.problems_of_append h.surveyed
  have he := Emission.problems_of_append h.emitted
  clear h
  induction cs using List.reverseRecOn with
  | nil => rfl
  | append_singleton cs c ih =>
      have hs' := Survey.problems_of_append hs
      have he' := Emission.problems_of_append he
      rw [(Survey.visited_of_concat hs).dataSize, (Emission.emitted_of_concat he).data,
        ih hs' he', Survey.current_ofCommands hs', Emission.current_ofCommands]

/-- Both walks count the same number of data bytes. -/
theorem Built.dataSize_eq (h : Built memory cs p) :
    (Survey.ofCommands cs).dataSize = p.data.length := by
  have h' : Built memory (cs ++ []) p := by rwa [List.append_nil]
  rw [h'.dataSize_prefix, h.data, Array.length_toList]

/-- Both walks count the same number of instructions. -/
theorem Built.textSize_eq (h : Built memory cs p) :
    (Survey.ofCommands cs).textSize = 4 * p.text.length := by
  rw [Survey.textSize_ofCommands h.surveyed, h.text, Array.length_toList,
    Emission.size_text_ofCommands h.emitted]

end Program

end WordMachine
