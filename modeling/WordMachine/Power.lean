/-
**Powers of numbers.**

Words, fields and addresses are described by powers of natural numbers.  A library for algebra brings
powers of its own, which are equal to those of the core library but are not the same term.  The ones
here are those of the core library, in every module, whatever else it imports.
-/

set_option relaxedAutoImplicit false
set_option autoImplicit false

namespace WordMachine

/-- The powers of natural numbers.  The first priority is for exponents that are numbers, the second
for all others; both are above the ones of algebra. -/
@[default_instance 20000]
instance (priority := 2000) natPow : Pow Nat Nat := instPowNat

end WordMachine
