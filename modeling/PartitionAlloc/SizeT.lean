/-
`size_t` arithmetic for the roots' statistics of both quarantines (`std::atomic<size_t>`): a `fetch_add` or
`fetch_sub` wraps modulo `2 ^ 64`, and so do the `size_t` expressions the calls compute from them.

- `addT`, `subT`: `a + b` and `a - b` in `size_t`;
- `addT_mod`, `subT_mod`: a counter kept modulo `2 ^ 64` follows the unbounded one it counts, as long as no
  subtraction takes that one below zero;
- `addT_of_lt`, `subT_of_le`: below `2 ^ 64` and above zero, `size_t` arithmetic does not wrap.
-/
import Mathlib.Algebra.Order.Ring.Nat

namespace PartitionAlloc

/-- `a + b` in `size_t` -/
def addT (a b : Nat) : Nat := (a + b) % 2 ^ 64

/-- `a - b` in `size_t` -/
def subT (a b : Nat) : Nat := (a + (2 ^ 64 - b % 2 ^ 64)) % 2 ^ 64

theorem two_pow_64 : (2 : Nat) ^ 64 = 18446744073709551616 := rfl

theorem addT_lt (a b : Nat) : addT a b < 2 ^ 64 := Nat.mod_lt _ (Nat.two_pow_pos 64)

theorem subT_lt (a b : Nat) : subT a b < 2 ^ 64 := Nat.mod_lt _ (Nat.two_pow_pos 64)

/-- `a - b` in `size_t` does not wrap when `b ≤ a < 2 ^ 64` -/
theorem subT_of_le {a b : Nat} (hba : b ≤ a) (ha : a < 2 ^ 64) : subT a b = a - b := by
  simp only [subT, two_pow_64] at ha ⊢
  omega

/-- `a + b` in `size_t` does not wrap below `2 ^ 64` -/
theorem addT_of_lt {a b : Nat} (h : a + b < 2 ^ 64) : addT a b = a + b := Nat.mod_eq_of_lt h

/-- the counters modulo `2 ^ 64` -/
theorem addT_mod (a b : Nat) : addT (a % 2 ^ 64) b = (a + b) % 2 ^ 64 := by
  simp only [addT, Nat.mod_add_mod]

theorem subT_mod {a b : Nat} (hba : b ≤ a) : subT (a % 2 ^ 64) b = (a - b) % 2 ^ 64 := by
  simp only [subT, two_pow_64]
  omega

end PartitionAlloc
