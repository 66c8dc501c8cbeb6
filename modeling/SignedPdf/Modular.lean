/-!
# Arithmetic modulo a number

Differences, powers and inverses of natural numbers modulo `m`. Powers are
taken by squaring, and `pow_eq` says that they are the usual ones; inverses
are powers, for a prime modulus.
-/

namespace SignedPdf.Modular

/-- The difference of two numbers below `m`. -/
def sub (m a b : Nat) : Nat := (a + (m - b % m)) % m

/-- The power of a number. -/
def pow (m base exponent : Nat) : Nat :=
  if exponent = 0 then 1 % m
  else
    let rest := pow m (base * base % m) (exponent / 2)
    if exponent % 2 = 1 then base * rest % m else rest
termination_by exponent
decreasing_by omega

theorem pow_eq (m base exponent : Nat) : pow m base exponent = Nat.pow base exponent % m := by
  fun_induction pow m base exponent with
  | case1 base => simp
  | case2 base exponent h rest hodd ih =>
    have hexp : exponent = 2 * (exponent / 2) + 1 := by omega
    have hrest : rest = Nat.pow (base * base) (exponent / 2) % m := by
      rw [show rest = pow m (base * base % m) (exponent / 2) from rfl, ih, Nat.pow_eq, Nat.pow_eq,
        ← Nat.pow_mod]
    rw [hrest, Nat.mul_mod_mod, Nat.pow_eq, Nat.pow_eq]
    conv => rhs; rw [hexp, Nat.pow_succ, Nat.pow_mul, Nat.pow_two, Nat.mul_comm]
  | case3 base exponent h rest hodd ih =>
    have hexp : exponent = 2 * (exponent / 2) := by omega
    rw [show rest = pow m (base * base % m) (exponent / 2) from rfl, ih, Nat.pow_eq, Nat.pow_eq,
      ← Nat.pow_mod]
    conv => rhs; rw [hexp, Nat.pow_mul, Nat.pow_two]

/-- The inverse of a number that is not zero, for a prime `m`. -/
def inverse (m a : Nat) : Nat := pow m a (m - 2)

end SignedPdf.Modular
