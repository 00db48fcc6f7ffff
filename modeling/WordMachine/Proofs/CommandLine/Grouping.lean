/-
**Arguments are groups of words.**

Behind the path, the arguments of the tool that runs programs are read from left to right: a flag,
then as many words as it takes, then the next flag.  A word that stands where a value is due is a
value, also when it looks like a flag.  What is read is told here without the reader: the words fall
into groups, each of which is a flag with its values, and each option has the value of the last
group of its kind.

A flag takes its values, and the reader goes on behind them: this one step says everything about the
reader.  A run over many groups is a fold, and the options at its end depend on the groups of each
kind alone.  Groups of different kinds can therefore change places.

Words are taken here from the front of a list.  A reader that moves a position over a vector of
arguments and looks words up by their positions does the same, and finds each word that it looks up.

Main definitions:

* `OptionGroup`, `OptionGroup.words`, `OptionGroup.IsRead` — a flag with its values;
* `OptionGroup.Reorders` — the same groups, in the same order within each kind;
* `RunOptions.IsGrouping` — **the arguments fall into groups**;
* `RunOptions.Collects` — each option has the value of the last group of its kind;
* `RunOptions.scanArguments` — the reader that looks words up by their positions;
* `RunOptions.Gathers` — what is made of the arguments.

Main results:

* `RunOptions.parseFlags_cons`, `RunOptions.parseFlags_eq_ok_iff` — one flag, and all flags;
* `RunOptions.collects_foldl` — what the groups set;
* `RunOptions.scanArguments_eq` — no word is looked up behind the last one;
* `RunOptions.parse_gathers` — the arguments are read group by group.
-/

import Mathlib.Data.List.Induction
import WordMachine.CommandLine.Options
import WordMachine.Proofs.Except

set_option relaxedAutoImplicit false
set_option autoImplicit false

namespace WordMachine

theorem OptionFlag.eq_name_of_ofName? {s : Text} {f : OptionFlag} (h : ofName? s = some f) :
    s = f.name :=
  (beq_iff_eq.1 (List.find?_some (p := fun f : OptionFlag => f.name == s) h)).symm

theorem OptionFlag.name_inj {f f' : OptionFlag} (h : f.name = f'.name) : f = f' := by
  have hsame : ofName? f.name = ofName? f'.name := congrArg ofName? h
  rw [ofName?_name, ofName?_name] at hsame
  exact Option.some.inj hsame

/-! ### Groups -/

/-- **A flag with its values**, as they are written and as they are read. -/
inductive OptionGroup
  | trace
  | dumpRegisters
  | memory (text : Text) (size : MemorySize)
  | maxSteps (text : Text) (count : UInt32)
  | dumpMemory (startText lengthText : Text) (start length : UInt32)
  | input (text : Text)
  deriving DecidableEq

namespace OptionGroup

variable {α : Type} {g g' : OptionGroup} {groups groups' : List OptionGroup}

/-- The kind of a group. -/
def flag : OptionGroup → OptionFlag
  | trace => .trace
  | dumpRegisters => .dumpRegisters
  | memory _ _ => .memory
  | maxSteps _ _ => .maxSteps
  | dumpMemory _ _ _ _ => .dumpMemory
  | input _ => .input

/-- The values of a group, as they are written. -/
def values : OptionGroup → List Text
  | trace | dumpRegisters => []
  | memory text _ | maxSteps text _ | input text => [text]
  | dumpMemory startText lengthText _ _ => [startText, lengthText]

/-- The words of a group. -/
def words (g : OptionGroup) : List Text :=
  g.flag.name :: g.values

/-- The values of a group **are read** from its words.  What is given as input is any text. -/
def IsRead : OptionGroup → Prop
  | trace | dumpRegisters | input _ => True
  | memory text size => MemorySize.parse text = .ok size
  | maxSteps text count => Literal.integer text = .value count
  | dumpMemory startText lengthText start length =>
      Literal.integer startText = .value start ∧ Literal.integer lengthText = .value length

/-- The size that a group gives to memory. -/
def memory? : OptionGroup → Option MemorySize
  | memory _ size => some size
  | _ => none

/-- The limit that a group gives to the number of instructions. -/
def maxSteps? : OptionGroup → Option Nat
  | maxSteps _ count => some count.toNat
  | _ => none

/-- The range that a group asks to show. -/
def dumpMemory? : OptionGroup → Option MemoryRange
  | dumpMemory _ _ start length => some ⟨start, length.toUInt64⟩
  | _ => none

/-- The input that a group gives. -/
def input? : OptionGroup → Option Text
  | input text => some text
  | _ => none

theorem length_values (g : OptionGroup) : g.values.length = g.flag.arity := by
  cases g <;> rfl

/-- A group that is read is its words. -/
theorem eq_of_values_eq (hread : g.IsRead) (hread' : g'.IsRead) (hflag : g.flag = g'.flag)
    (hvalues : g.values = g'.values) : g = g' := by
  cases g <;> cases g' <;> simp_all [flag, values, IsRead]

/-- Words fall into groups in one way. -/
theorem eq_of_words_eq (hread : ∀ g ∈ groups, g.IsRead) (hread' : ∀ g ∈ groups', g.IsRead)
    (h : groups.flatMap words = groups'.flatMap words) : groups = groups' := by
  induction groups generalizing groups' with
  | nil =>
      cases groups' with
      | nil => rfl
      | cons g' groups' => simp [words] at h
  | cons g groups ih =>
      cases groups' with
      | nil => simp [words] at h
      | cons g' groups' =>
          simp only [List.flatMap_cons, words, List.cons_append, List.cons.injEq] at h
          obtain ⟨hname, hrest⟩ := h
          have hflag : g.flag = g'.flag := OptionFlag.name_inj hname
          have hlength : g.values.length = g'.values.length := by
            rw [length_values, length_values, hflag]
          obtain ⟨hvalues, hwords⟩ := List.append_inj hrest hlength
          rw [List.forall_mem_cons] at hread hread'
          rw [eq_of_values_eq hread.1 hread'.1 hflag hvalues, ih hread.2 hread'.2 hwords]

/-! ### Groups in another order -/

/-- The groups **in another order**: those of each kind are the same, in the same order. -/
def Reorders (groups groups' : List OptionGroup) : Prop :=
  ∀ f, groups.filter (·.flag = f) = groups'.filter (·.flag = f)

/-- It is another order of the same groups. -/
theorem Reorders.perm (h : Reorders groups groups') : groups.Perm groups' := by
  refine List.perm_iff_count.2 fun g => ?_
  have hcount := congrArg (List.count g) (h g.flag)
  rwa [List.count_filter (by simp), List.count_filter (by simp)] at hcount

/-- What only groups of one kind give, they give in the same order. -/
theorem Reorders.filterMap_eq {value : OptionGroup → Option α} {f : OptionFlag}
    (hvalue : ∀ g, g.flag ≠ f → value g = none) (h : Reorders groups groups') :
    groups.filterMap value = groups'.filterMap value := by
  have hkind : (fun g : OptionGroup => if g.flag = f then value g else none) = value := by
    funext g
    split
    · rfl
    · exact (hvalue g ‹_›).symm
  have hvalues := congrArg (List.filterMap value) (h f)
  simpa only [List.filterMap_filter, decide_eq_true_eq, hkind] using hvalues

end OptionGroup

namespace RunOptions

open OptionGroup (Reorders)

variable {o o' : RunOptions} {path flag : Text} {argv flags rest : List Text} {f : OptionFlag}
  {g : OptionGroup} {groups groups' : List OptionGroup}

/-! ### One flag -/

/-- What a flag does with the words behind it. -/
def setFlag (o : RunOptions) : OptionFlag → List Text → Except OptionError RunOptions
  | .trace, _ => .ok { o with trace := true }
  | .dumpRegisters, _ => .ok { o with dumpRegisters := true }
  | .memory, value :: _ => do
    let memory ← readSize value
    return { o with memory }
  | .maxSteps, value :: _ => do
    let n ← readCount OptionFlag.maxSteps.name value
    return { o with maxSteps := n.toNat }
  | .dumpMemory, start :: length :: _ => do
    let start ← readCount OptionFlag.dumpMemory.name start
    let length ← readCount OptionFlag.dumpMemory.name length
    return { o with dumpMemory := some ⟨start, length.toUInt64⟩ }
  | .input, input :: _ => .ok { o with input }
  | f, _ => .error (.missingValues f.name f.arity)

/-- The options after a group. -/
def setGroup (o : RunOptions) : OptionGroup → RunOptions
  | .trace => { o with trace := true }
  | .dumpRegisters => { o with dumpRegisters := true }
  | .memory _ size => { o with memory := size }
  | .maxSteps _ count => { o with maxSteps := count.toNat }
  | .dumpMemory _ _ start length => { o with dumpMemory := some ⟨start, length.toUInt64⟩ }
  | .input text => { o with input := text }

/-- **One step of the reader**: a flag takes its values, and the reader goes on behind them. -/
theorem parseFlags_cons (h : OptionFlag.ofName? flag = some f) :
    o.parseFlags (flag :: rest) =
      (o.setFlag f rest >>= fun o' => o'.parseFlags (rest.drop f.arity)) := by
  obtain rfl := OptionFlag.eq_name_of_ofName? h
  cases f with
  | trace => exact parseFlags.eq_2 o _ rest h
  | dumpRegisters => exact parseFlags.eq_3 o _ rest h
  | memory =>
      cases rest with
      | nil => rfl
      | cons value rest =>
          refine (parseFlags.eq_4 o _ value rest h).trans ?_
          simp only [setFlag, bind_assoc]
          rfl
  | maxSteps =>
      cases rest with
      | nil => rfl
      | cons value rest =>
          refine (parseFlags.eq_5 o _ value rest h).trans ?_
          simp only [setFlag, bind_assoc]
          rfl
  | dumpMemory =>
      match rest with
      | [] | [_] => rfl
      | start :: length :: rest =>
          refine (parseFlags.eq_6 o _ start length rest h).trans ?_
          simp only [setFlag, bind_assoc]
          rfl
  | input =>
      cases rest with
      | nil => rfl
      | cons input rest => exact parseFlags.eq_7 o _ input rest h

/-- A word where a flag is due that names no flag is refused. -/
theorem parseFlags_of_unknown (h : OptionFlag.ofName? flag = none) :
    o.parseFlags (flag :: rest) = .error (.unknownFlag flag) :=
  parseFlags.eq_9 o flag rest h

/-- Without enough words behind it, a flag does nothing. -/
theorem setFlag_of_length_lt (h : rest.length < f.arity) :
    o.setFlag f rest = .error (.missingValues f.name f.arity) := by
  cases f with
  | trace | dumpRegisters => exact absurd h (Nat.not_lt_zero _)
  | memory | maxSteps | input =>
      obtain rfl := List.length_eq_zero_iff.1 (Nat.lt_one_iff.1 h)
      rfl
  | dumpMemory =>
      match rest, h with
      | [], _ | [_], _ => rfl
      | _ :: _ :: rest, h => exact absurd h (Nat.not_lt.2 (Nat.le_add_left 2 rest.length))

theorem readCount_eq_ok_iff {text : Text} {n : UInt32} :
    readCount flag text = .ok n ↔ Literal.integer text = .value n := by
  unfold readCount
  cases Literal.integer text with
  | value m => simp
  | tooLarge | malformed => exact ⟨nofun, nofun⟩

/-- A flag in front of values that are read sets its option. -/
theorem setFlag_values (hread : g.IsRead) :
    o.setFlag g.flag (g.values ++ rest) = .ok (o.setGroup g) := by
  cases g with
  | trace | dumpRegisters | input => rfl
  | memory text size =>
      have hsize : readSize text = .ok size := Except.mapError_eq_ok.2 hread
      simp only [OptionGroup.flag, OptionGroup.values, List.cons_append, setFlag, hsize]
      rfl
  | maxSteps text count =>
      have hcount : readCount OptionFlag.maxSteps.name text = .ok count :=
        readCount_eq_ok_iff.2 hread
      simp only [OptionGroup.flag, OptionGroup.values, List.cons_append, setFlag, hcount]
      rfl
  | dumpMemory startText lengthText start length =>
      have hstart : readCount OptionFlag.dumpMemory.name startText = .ok start :=
        readCount_eq_ok_iff.2 hread.1
      have hlength : readCount OptionFlag.dumpMemory.name lengthText = .ok length :=
        readCount_eq_ok_iff.2 hread.2
      simp only [OptionGroup.flag, OptionGroup.values, List.cons_append, setFlag, hstart, hlength]
      rfl

/-- **A flag that sets an option is a group**, with the values in front of the rest. -/
theorem exists_group_of_setFlag (h : o.setFlag f rest = .ok o') :
    ∃ g : OptionGroup, g.IsRead ∧ o' = o.setGroup g ∧
      f.name :: rest = g.words ++ rest.drop f.arity := by
  unfold setFlag at h
  split at h
  · exact ⟨.trace, trivial, (Except.ok.inj h).symm, rfl⟩
  · exact ⟨.dumpRegisters, trivial, (Except.ok.inj h).symm, rfl⟩
  · rename_i value _
    obtain ⟨size, hsize, hset⟩ := Except.bind_eq_ok.1 h
    exact ⟨.memory value size, Except.mapError_eq_ok.1 hsize, (Except.ok.inj hset).symm, rfl⟩
  · rename_i value _
    obtain ⟨count, hcount, hset⟩ := Except.bind_eq_ok.1 h
    exact ⟨.maxSteps value count, readCount_eq_ok_iff.1 hcount, (Except.ok.inj hset).symm, rfl⟩
  · rename_i startText lengthText _
    obtain ⟨start, hstart, hset⟩ := Except.bind_eq_ok.1 h
    obtain ⟨length, hlength, hset⟩ := Except.bind_eq_ok.1 hset
    exact ⟨.dumpMemory startText lengthText start length,
      ⟨readCount_eq_ok_iff.1 hstart, readCount_eq_ok_iff.1 hlength⟩,
      (Except.ok.inj hset).symm, rfl⟩
  · rename_i text _
    exact ⟨.input text, trivial, (Except.ok.inj h).symm, rfl⟩
  · exact nomatch h

/-! ### All flags -/

/-- A group is read, and the rest comes after it. -/
theorem parseFlags_words (hread : g.IsRead) :
    o.parseFlags (g.words ++ rest) = (o.setGroup g).parseFlags rest := by
  have hdrop : (g.values ++ rest).drop g.flag.arity = rest := by
    rw [← g.length_values, List.drop_left]
  rw [OptionGroup.words, List.cons_append, parseFlags_cons (OptionFlag.ofName?_name g.flag),
    setFlag_values hread, hdrop]
  rfl

/-- All groups are read, each after the one before it. -/
theorem parseFlags_flatMap (hread : ∀ g ∈ groups, g.IsRead) :
    o.parseFlags (groups.flatMap OptionGroup.words) = .ok (groups.foldl setGroup o) := by
  induction groups generalizing o with
  | nil => rfl
  | cons g groups ih =>
      rw [List.forall_mem_cons] at hread
      rw [List.flatMap_cons, parseFlags_words hread.1, ih hread.2, List.foldl_cons]

/-- **Nothing but groups is read.** -/
theorem exists_groups_of_parseFlags (h : o.parseFlags flags = .ok o') :
    ∃ groups : List OptionGroup, flags = groups.flatMap OptionGroup.words ∧
      (∀ g ∈ groups, g.IsRead) ∧ o' = groups.foldl setGroup o := by
  -- The reader goes on behind the values of a flag, and not behind the flag.
  induction hlength : flags.length using Nat.strongRecOn generalizing flags o with
  | _ n ih =>
      cases flags with
      | nil => exact ⟨[], rfl, nofun, (Except.ok.inj h).symm⟩
      | cons flag rest =>
          cases hname : OptionFlag.ofName? flag with
          | none =>
              rw [parseFlags_of_unknown hname] at h
              exact nomatch h
          | some f =>
              rw [parseFlags_cons hname] at h
              obtain ⟨o₁, hset, hrest⟩ := Except.bind_eq_ok.1 h
              obtain ⟨g, hread, rfl, hwords⟩ := exists_group_of_setFlag hset
              have hshorter : (rest.drop f.arity).length < n := by
                rw [← hlength, List.length_drop, List.length_cons]
                omega
              obtain ⟨groups, hgroups, hall, rfl⟩ := ih _ hshorter hrest rfl
              refine ⟨g :: groups, ?_, List.forall_mem_cons.2 ⟨hread, hall⟩, rfl⟩
              rw [OptionFlag.eq_name_of_ofName? hname, hwords, hgroups, List.flatMap_cons]

/-- **Flags are read exactly when they are groups**, and then each group sets its option. -/
theorem parseFlags_eq_ok_iff : o.parseFlags flags = .ok o' ↔
    ∃ groups : List OptionGroup, flags = groups.flatMap OptionGroup.words ∧
      (∀ g ∈ groups, g.IsRead) ∧ o' = groups.foldl setGroup o := by
  constructor
  · exact exists_groups_of_parseFlags
  · rintro ⟨groups, rfl, hread, rfl⟩
    exact parseFlags_flatMap hread

/-! ### What the groups set -/

/-- The path is this one, and **each option has the value of the last group of its kind**, or its
default. -/
structure Collects (o : RunOptions) (path : Text) (groups : List OptionGroup) : Prop where
  path : o.path = path
  trace : o.trace = true ↔ OptionGroup.trace ∈ groups
  dumpRegisters : o.dumpRegisters = true ↔ OptionGroup.dumpRegisters ∈ groups
  memory : o.memory = (groups.filterMap OptionGroup.memory?).getLast?.getD .standard
  maxSteps : o.maxSteps = (groups.filterMap OptionGroup.maxSteps?).getLast?.getD 0
  dumpMemory : o.dumpMemory = (groups.filterMap OptionGroup.dumpMemory?).getLast?
  input : o.input = (groups.filterMap OptionGroup.input?).getLast?.getD []

namespace Collects

theorem nil (path : Text) : Collects { path } path [] :=
  ⟨rfl, by simp, by simp, rfl, rfl, rfl, rfl⟩

/-- One more group sets its option, and no other. -/
theorem snoc (h : o.Collects path groups) (g : OptionGroup) :
    (o.setGroup g).Collects path (groups ++ [g]) where
  path := by cases g <;> exact h.path
  trace := by cases g <;> simp [setGroup, h.trace]
  dumpRegisters := by cases g <;> simp [setGroup, h.dumpRegisters]
  memory := by cases g <;> simp [setGroup, OptionGroup.memory?, h.memory]
  maxSteps := by cases g <;> simp [setGroup, OptionGroup.maxSteps?, h.maxSteps]
  dumpMemory := by cases g <;> simp [setGroup, OptionGroup.dumpMemory?, h.dumpMemory]
  input := by cases g <;> simp [setGroup, OptionGroup.input?, h.input]

/-- The groups leave no choice about the options. -/
theorem unique (h : o.Collects path groups) (h' : o'.Collects path groups) : o = o' := by
  have htrace : o.trace = o'.trace := Bool.eq_iff_iff.2 (h.trace.trans h'.trace.symm)
  have hregisters : o.dumpRegisters = o'.dumpRegisters :=
    Bool.eq_iff_iff.2 (h.dumpRegisters.trans h'.dumpRegisters.symm)
  cases o
  cases o'
  simp only [mk.injEq]
  exact ⟨h.path.trans h'.path.symm, h.memory.trans h'.memory.symm,
    h.maxSteps.trans h'.maxSteps.symm, htrace, hregisters,
    h.dumpMemory.trans h'.dumpMemory.symm, h.input.trans h'.input.symm⟩

/-- The order of groups of different kinds makes no difference. -/
theorem reorder (h : o.Collects path groups) (hreorders : Reorders groups groups') :
    o.Collects path groups' where
  path := h.path
  trace := h.trace.trans hreorders.perm.mem_iff
  dumpRegisters := h.dumpRegisters.trans hreorders.perm.mem_iff
  memory := by
    rw [h.memory, hreorders.filterMap_eq (f := .memory)]
    intro g hg
    cases g <;> simp_all [OptionGroup.flag, OptionGroup.memory?]
  maxSteps := by
    rw [h.maxSteps, hreorders.filterMap_eq (f := .maxSteps)]
    intro g hg
    cases g <;> simp_all [OptionGroup.flag, OptionGroup.maxSteps?]
  dumpMemory := by
    rw [h.dumpMemory, hreorders.filterMap_eq (f := .dumpMemory)]
    intro g hg
    cases g <;> simp_all [OptionGroup.flag, OptionGroup.dumpMemory?]
  input := by
    rw [h.input, hreorders.filterMap_eq (f := .input)]
    intro g hg
    cases g <;> simp_all [OptionGroup.flag, OptionGroup.input?]

end Collects

/-- **What the groups set**, each after the one before it. -/
theorem collects_foldl (path : Text) (groups : List OptionGroup) :
    Collects (groups.foldl setGroup { path }) path groups := by
  induction groups using List.reverseRecOn with
  | nil => exact .nil path
  | append_singleton groups g ih =>
      rw [List.foldl_append]
      exact ih.snoc g

/-! ### Words by their positions -/

variable {args : List Text} {i : Nat}

/-- The words that the flag at a position looks up, if they are there. -/
def valuesAt (args : List Text) (i : Nat) : OptionFlag → Option (List Text)
  | .trace | .dumpRegisters => some []
  | .memory | .maxSteps | .input => do
    let value ← args[i + 1]?
    return [value]
  | .dumpMemory => do
    let start ← args[i + 1]?
    let length ← args[i + 2]?
    return [start, length]

/-- Reads flags from a position on.  There is no outcome if a word is looked up that is not there:
whether there are enough words is found by counting. -/
def scanFlags (args : List Text) (o : RunOptions) (i : Nat) :
    Option (Except OptionError RunOptions) :=
  if i < args.length then
    match args[i]? with
    | none => none
    | some flag =>
      match OptionFlag.ofName? flag with
      | none => some (.error (.unknownFlag flag))
      | some f =>
        if args.length ≤ i + f.arity then some (.error (.missingValues flag f.arity))
        else
          match valuesAt args i f with
          | none => none
          | some values =>
            match o.setFlag f values with
            | .error e => some (.error e)
            | .ok o => scanFlags args o (i + f.arity + 1)
  else some (.ok o)
termination_by args.length - i

/-- Reads the arguments behind the name of the tool, in the same way. -/
def scanArguments (argv : List Text) : Option (Except OptionError RunOptions) :=
  if argv.length < 2 then some (.error .missingInput)
  else
    match argv[1]? with
    | none => none
    | some path => scanFlags argv { path } 2

/-- Words that are there are found. -/
theorem exists_valuesAt (h : i + f.arity < args.length) (o : RunOptions) :
    ∃ values, valuesAt args i f = some values ∧
      o.setFlag f values = o.setFlag f (args.drop (i + 1)) := by
  cases f with
  | trace | dumpRegisters => exact ⟨[], rfl, rfl⟩
  | memory | maxSteps | input =>
      have hvalue : i + 1 < args.length := h
      refine ⟨[args[i + 1]], by simp only [valuesAt, List.getElem?_eq_getElem hvalue]; rfl, ?_⟩
      rw [List.drop_eq_getElem_cons hvalue]
      rfl
  | dumpMemory =>
      have hlength : i + 2 < args.length := h
      have hstart : i + 1 < args.length := Nat.lt_of_succ_lt hlength
      refine ⟨[args[i + 1], args[i + 2]], ?_, ?_⟩
      · simp only [valuesAt, List.getElem?_eq_getElem hstart, List.getElem?_eq_getElem hlength]
        rfl
      · rw [List.drop_eq_getElem_cons hstart, List.drop_eq_getElem_cons hlength]
        rfl

/-- One step of the reader at a position. -/
theorem parseFlags_drop (hflag : args[i]? = some flag) (hname : OptionFlag.ofName? flag = some f) :
    o.parseFlags (args.drop i) = (o.setFlag f (args.drop (i + 1)) >>= fun o' =>
      o'.parseFlags (args.drop (i + f.arity + 1))) := by
  obtain ⟨hi, rfl⟩ := List.getElem?_eq_some_iff.1 hflag
  rw [List.drop_eq_getElem_cons hi, parseFlags_cons hname, List.drop_drop,
    show i + 1 + f.arity = i + f.arity + 1 by omega]

/-- **The flags are read as from the front of a list**, and no word is looked up that is not
there. -/
theorem scanFlags_eq (args : List Text) (o : RunOptions) (i : Nat) :
    scanFlags args o i = some (o.parseFlags (args.drop i)) := by
  fun_induction scanFlags args o i with
  | case1 o i hi hnone =>
      rw [List.getElem?_eq_getElem hi] at hnone
      exact nomatch hnone
  | case2 o i hi flag hflag hname =>
      obtain ⟨_, rfl⟩ := List.getElem?_eq_some_iff.1 hflag
      rw [List.drop_eq_getElem_cons hi, parseFlags_of_unknown hname]
  | case3 o i hi flag hflag f hname hmissing =>
      have hfew : (args.drop (i + 1)).length < f.arity := by
        rw [List.length_drop]
        omega
      rw [parseFlags_drop hflag hname, setFlag_of_length_lt hfew,
        OptionFlag.eq_name_of_ofName? hname]
      rfl
  | case4 o i hi flag hflag f hname henough hnone =>
      obtain ⟨values, hvalues, -⟩ := exists_valuesAt (Nat.not_le.1 henough) o
      exact nomatch hnone.symm.trans hvalues
  | case5 o i hi flag hflag f hname henough values hvalues e hset =>
      obtain ⟨_, hsame, hdrop⟩ := exists_valuesAt (Nat.not_le.1 henough) o
      obtain rfl := Option.some.inj (hvalues.symm.trans hsame)
      rw [parseFlags_drop hflag hname, ← hdrop, hset]
      rfl
  | case6 o i hi flag hflag f hname henough values hvalues o' hset ih =>
      obtain ⟨_, hsame, hdrop⟩ := exists_valuesAt (Nat.not_le.1 henough) o
      obtain rfl := Option.some.inj (hvalues.symm.trans hsame)
      rw [parseFlags_drop hflag hname, ← hdrop, hset, ih]
      rfl
  | case7 o i hi =>
      rw [List.drop_eq_nil_of_le (Nat.not_lt.1 hi)]
      rfl

/-- **No word is looked up behind the last one**, and the arguments are read as from the front of a
list. -/
theorem scanArguments_eq (argv : List Text) : scanArguments argv = some (parse argv.tail) := by
  match argv with
  | [] | [_] => rfl
  | tool :: path :: flags => exact scanFlags_eq (tool :: path :: flags) { path } 2

/-! ### The arguments -/

/-- **The arguments fall into groups**: behind the name of the tool stands a path, and behind the
path stand the words of groups whose values are read. -/
structure IsGrouping (argv : List Text) (path : Text) (groups : List OptionGroup) : Prop where
  path : argv[1]? = some path
  words : argv.drop 2 = groups.flatMap OptionGroup.words
  read : ∀ g ∈ groups, g.IsRead

/-- **What is made of the arguments**, of which the first is the name of the tool. -/
structure Gathers (argv : List Text) : Prop where
  /-- The options are those of the groups. -/
  accepted : ∀ o, parse argv.tail = .ok o ↔
    ∃ path groups, IsGrouping argv path groups ∧ o.Collects path groups
  /-- There are options whenever there are groups. -/
  succeeds : (∃ o, parse argv.tail = .ok o) ↔ ∃ path groups, IsGrouping argv path groups
  /-- Arguments fall into groups in one way. -/
  unique : ∀ path path' groups groups', IsGrouping argv path groups →
    IsGrouping argv path' groups' → path = path' ∧ groups = groups'
  /-- Groups of different kinds can change places. -/
  reordered : ∀ path groups groups', IsGrouping argv path groups → Reorders groups groups' →
    parse (argv.take 2 ++ groups'.flatMap OptionGroup.words).tail = parse argv.tail
  /-- All other arguments are refused. -/
  refused : (∃ e, parse argv.tail = .error e) ↔ ¬ ∃ path groups, IsGrouping argv path groups
  /-- No word is looked up behind the last one. -/
  inside : scanArguments argv = some (parse argv.tail)

/-- The options of arguments that fall into groups. -/
theorem parse_of_isGrouping (h : IsGrouping argv path groups) :
    parse argv.tail = .ok (groups.foldl setGroup { path }) := by
  obtain ⟨hpath, hwords, hread⟩ := h
  match argv with
  | [] | [_] => exact nomatch hpath
  | _ :: path' :: flags =>
      obtain rfl : path' = path := Option.some.inj hpath
      obtain rfl : flags = groups.flatMap OptionGroup.words := hwords
      exact parseFlags_flatMap hread

/-- Arguments that are read fall into groups. -/
theorem exists_isGrouping_of_parse (h : parse argv.tail = .ok o) :
    ∃ path groups, IsGrouping argv path groups := by
  match argv with
  | [] | [_] => exact nomatch h
  | _ :: path :: flags =>
      obtain ⟨groups, hwords, hread, -⟩ := exists_groups_of_parseFlags h
      exact ⟨path, groups, rfl, hwords, hread⟩

theorem IsGrouping.unique {path' : Text} (h : IsGrouping argv path groups)
    (h' : IsGrouping argv path' groups') : path = path' ∧ groups = groups' :=
  ⟨Option.some.inj (h.path.symm.trans h'.path),
    OptionGroup.eq_of_words_eq h.read h'.read (h.words.symm.trans h'.words)⟩

theorem IsGrouping.reorder (h : IsGrouping argv path groups) (hreorders : Reorders groups groups') :
    IsGrouping (argv.take 2 ++ groups'.flatMap OptionGroup.words) path groups' where
  path := by
    obtain ⟨hlength, -⟩ := List.getElem?_eq_some_iff.1 h.path
    rw [List.getElem?_append_left (by rw [List.length_take]; omega),
      List.getElem?_take_of_lt (by decide), h.path]
  words := by
    obtain ⟨hlength, -⟩ := List.getElem?_eq_some_iff.1 h.path
    exact List.drop_left' (by rw [List.length_take]; omega)
  read g hg := h.read g (hreorders.perm.mem_iff.2 hg)

theorem parse_eq_ok_iff : parse argv.tail = .ok o ↔
    ∃ path groups, IsGrouping argv path groups ∧ o.Collects path groups := by
  constructor
  · intro h
    obtain ⟨path, groups, hgroups⟩ := exists_isGrouping_of_parse h
    obtain rfl := Except.ok.inj ((parse_of_isGrouping hgroups).symm.trans h)
    exact ⟨path, groups, hgroups, collects_foldl path groups⟩
  · rintro ⟨path, groups, hgroups, hcollects⟩
    rw [parse_of_isGrouping hgroups, (collects_foldl path groups).unique hcollects]

/-- **The arguments are read group by group**, from left to right. -/
theorem parse_gathers (argv : List Text) : Gathers argv where
  accepted _ := parse_eq_ok_iff
  succeeds := by
    constructor
    · rintro ⟨o, ho⟩
      exact exists_isGrouping_of_parse ho
    · rintro ⟨path, groups, hgroups⟩
      exact ⟨_, parse_of_isGrouping hgroups⟩
  unique _ _ _ _ h h' := h.unique h'
  reordered path groups groups' hgroups hreorders := by
    have hcollects := (collects_foldl path groups).reorder hreorders
    rw [parse_of_isGrouping hgroups, parse_of_isGrouping (hgroups.reorder hreorders),
      hcollects.unique (collects_foldl path groups')]
  refused := by
    constructor
    · rintro ⟨e, he⟩ ⟨path, groups, hgroups⟩
      exact nomatch (parse_of_isGrouping hgroups).symm.trans he
    · intro hnone
      cases hparse : parse argv.tail with
      | error e => exact ⟨e, rfl⟩
      | ok o => exact absurd (exists_isGrouping_of_parse hparse) hnone
  inside := scanArguments_eq argv

/-- What stands where the input is due is the input, also when it looks like a flag. -/
example : parse ["halt.asm".toList, "--input".toList, "--trace".toList, "--dump-regs".toList] =
    .ok { path := "halt.asm".toList, dumpRegisters := true, input := "--trace".toList } := rfl

end RunOptions

end WordMachine
