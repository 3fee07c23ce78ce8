import Mathlib.Tactic

namespace SmartPerf.Data

/-! Arithmetic of unsigned machine words. -/

def invalidUint64 : Nat := 2 ^ 64 - 1
def invalidUint32 : Nat := 2 ^ 32 - 1

/-- The difference of two `uint64_t`. -/
def subUint64 (left right : Nat) : Nat := (left + 2 ^ 64 - right) % 2 ^ 64

theorem subUint64_of_le {left right : Nat} (ordered : right ≤ left) (small : left < 2 ^ 64) :
    subUint64 left right = left - right := by
  unfold subUint64
  rw [show left + 2 ^ 64 - right = left - right + 2 ^ 64 by omega, Nat.add_mod_right]
  exact Nat.mod_eq_of_lt (by omega)

end SmartPerf.Data
