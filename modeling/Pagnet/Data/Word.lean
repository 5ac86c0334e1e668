import Mathlib.Algebra.Ring.Nat

/-!
# Unsigned counters

`uint64` addition and subtraction on natural numbers, and that they are the
exact ones as long as nothing overflows or underflows.
-/

namespace Pagnet

def add64 (a b : Nat) : Nat := (a + b) % 2 ^ 64

def sub64 (a b : Nat) : Nat := (a + (2 ^ 64 - b % 2 ^ 64)) % 2 ^ 64

theorem add64_eq {a b : Nat} (fits : a + b < 2 ^ 64) : add64 a b = a + b := Nat.mod_eq_of_lt fits

theorem sub64_eq {a b : Nat} (le : b ≤ a) (fits : a < 2 ^ 64) : sub64 a b = a - b := by
  unfold sub64
  omega

end Pagnet
