/-
**Computations that may fail.**

A computation in `Except` succeeds exactly when each of its parts does.  The lemmas here take a
successful computation apart, one part at a time, and restate a computation in other terms by
restating its parts.

Main definitions:

* `Except.bimap` — an outcome in other terms.

Main results:

* `Except.bind_eq_ok`, `Except.mapError_eq_ok` — what a success says about the parts;
* `Except.bind_bimap` — a sequence in other terms.
-/

import WordMachine.Text.Basic

set_option relaxedAutoImplicit false
set_option autoImplicit false

namespace WordMachine.Except

variable {ε δ α β : Type}

/-- A sequence succeeds when its first part does, and then the rest on its result. -/
theorem bind_eq_ok {x : Except ε α} {f : α → Except ε β} {b : β} :
    (x >>= f) = .ok b ↔ ∃ a, x = .ok a ∧ f a = .ok b := by
  cases x with
  | error e => simp [bind, Except.bind]
  | ok a => simp [bind, Except.bind]

/-- A sequence whose first part succeeds is the rest on its result. -/
theorem exists_bind_eq_ok {x : Except ε α} {f : α → Except ε β} {a : α} (hx : x = .ok a)
    (hf : ∃ b, f a = .ok b) : ∃ b, (x >>= f) = .ok b := by
  obtain ⟨b, hb⟩ := hf
  exact ⟨b, bind_eq_ok.2 ⟨a, hx, hb⟩⟩

/-- Changing the error changes nothing about success. -/
theorem mapError_eq_ok {x : Except ε α} {f : ε → δ} {a : α} :
    x.mapError f = .ok a ↔ x = .ok a := by
  cases x with
  | error e => exact ⟨nofun, nofun⟩
  | ok b =>
      constructor
      · intro h
        rw [Except.ok.inj h]
      · intro h
        rw [Except.ok.inj h]
        rfl

/-- The error of a computation is the original one, changed. -/
theorem mapError_eq_error {x : Except ε α} {f : ε → δ} {d : δ} :
    x.mapError f = .error d ↔ ∃ e, x = .error e ∧ f e = d := by
  cases x with
  | error e =>
      constructor
      · intro h
        exact ⟨e, rfl, Except.error.inj h⟩
      · rintro ⟨e', he, rfl⟩
        rw [Except.error.inj he]
        rfl
  | ok b =>
      constructor
      · intro h
        cases h
      · rintro ⟨e, he, -⟩
        cases he

/-! ### Outcomes in other terms -/

section Bimap

variable {ε' δ' α' β' : Type}

/-- The same outcome in other terms, whether it is a success or a failure. -/
def bimap (f : ε → ε') (g : α → α') : Except ε α → Except ε' α'
  | .error e => .error (f e)
  | .ok a => .ok (g a)

/-- A sequence in other terms is a sequence of its parts in other terms. -/
theorem bind_bimap {f : ε → ε'} {g : α → α'} {g' : β → β'} {x : Except ε α} {k : α → Except ε β}
    {k' : α' → Except ε' β'} (hk : ∀ a, k' (g a) = bimap f g' (k a)) :
    (bimap f g x >>= k') = bimap f g' (x >>= k) := by
  cases x with
  | error e => rfl
  | ok a => exact hk a

/-- A computation with another kind of failure, in other terms. -/
theorem mapError_bimap {f : ε → ε'} {g : α → α'} {h : ε → δ} {h' : ε' → δ'} {f' : δ → δ'}
    (hf : ∀ e, f' (h e) = h' (f e)) (x : Except ε α) :
    (bimap f g x).mapError h' = bimap f' g (x.mapError h) := by
  cases x with
  | error e => exact congrArg Except.error (hf e).symm
  | ok a => rfl

end Bimap

end WordMachine.Except
