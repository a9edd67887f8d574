import Mathlib.Data.Nat.ModEq
import Mathlib.Data.Nat.Bitwise

/-! A window of `n` consecutive positions meets each residue modulo `n` exactly
once; positions are stored modulo a larger power of two. -/

namespace Window

variable {n a b lo r : Nat}

theorem eq_of_mod_eq (ha : lo ≤ a) (ha' : a < lo + n) (hb : lo ≤ b) (hb' : b < lo + n)
    (h : a % n = b % n) : a = b := by
  rcases Nat.lt_trichotomy a b with hlt | heq | hgt
  · have := Nat.ModEq.add_le_of_lt h hlt
    omega
  · exact heq
  · have := Nat.ModEq.add_le_of_lt (Nat.ModEq.symm h) hgt
    omega

theorem exists_mod_eq (hn : 0 < n) (lo a : Nat) : ∃ b, lo ≤ b ∧ b < lo + n ∧ b % n = a % n := by
  have hlo := Nat.mod_lt lo hn
  have ha := Nat.mod_lt a hn
  -- the first position from `lo` on, or from the next multiple of `n` on, with that residue
  by_cases h : lo % n ≤ a % n
  · refine ⟨lo + (a % n - lo % n), by omega, by omega, ?_⟩
    have : lo + (a % n - lo % n) = n * (lo / n) + a % n := by
      have := Nat.div_add_mod lo n
      omega
    rw [this, Nat.mul_add_mod, Nat.mod_mod]
  · refine ⟨lo + (a % n + n - lo % n), by omega, by omega, ?_⟩
    have : lo + (a % n + n - lo % n) = n * (lo / n + 1) + a % n := by
      have := Nat.div_add_mod lo n
      rw [Nat.mul_add, Nat.mul_one]
      omega
    rw [this, Nat.mul_add_mod, Nat.mod_mod]

theorem add_le_of_mod_eq (h : a % n = b % n) (hlt : a < b) : a + n ≤ b :=
  Nat.ModEq.add_le_of_lt h hlt

theorem succ_mod_ne (hn : 2 ≤ n) (a : Nat) : (a + 1) % n ≠ a % n := by
  intro h
  have := Nat.ModEq.add_le_of_lt (Nat.ModEq.symm h) (Nat.lt_succ_self a)
  omega

end Window
