import Mathlib.Data.Nat.Digits.Lemmas

/-!
# Numerals

The digits of a number in a base, the most significant one first; 0 has one digit. A numeral is
read back by Horner's rule (`value_numeral`). Two ways to make one: dividing by the base, from the
end (`numeral_div_append`), and taking the digits by their place (`numeral_eq_map_range`).
-/

namespace Instrew.Lib.Numeral

def numeral (b n : Nat) : List Nat := if n = 0 then [0] else (b.digits n).reverse

/-- Horner's rule. -/
def value (b : Nat) (ds : List Nat) : Nat := ds.foldl (fun v d => b * v + d) 0

variable {b n : Nat}

theorem value_append (ds : List Nat) (d : Nat) : value b (ds ++ [d]) = b * value b ds + d := by
  unfold value
  rw [List.foldl_append]
  rfl

theorem value_reverse (ds : List Nat) : value b ds.reverse = Nat.ofDigits b ds := by
  induction ds with
  | nil => rfl
  | cons d ds ih =>
      rw [List.reverse_cons, value_append, ih, Nat.ofDigits_cons]
      exact Nat.add_comm _ _

theorem value_numeral : value b (numeral b n) = n := by
  unfold numeral
  split_ifs with h
  · rw [h]
    rfl
  · rw [value_reverse, Nat.ofDigits_digits]

theorem lt_of_mem_numeral (hb : 1 < b) {d : Nat} (h : d ∈ numeral b n) : d < b := by
  unfold numeral at h
  split_ifs at h with hn
  · rw [List.mem_singleton.mp h]
    omega
  · exact Nat.digits_lt_base hb (List.mem_reverse.mp h)

theorem numeral_of_lt (h : n < b) : numeral b n = [n] := by
  unfold numeral
  split_ifs with hn
  · rw [hn]
  · rw [Nat.digits_of_lt b n hn h]
    rfl

/-- The last digit is the remainder. -/
theorem numeral_div_append (hb : 1 < b) (h : b ≤ n) :
    numeral b n = numeral b (n / b) ++ [n % b] := by
  have hn : n ≠ 0 := by omega
  have hdiv : n / b ≠ 0 := (Nat.div_pos h (by omega)).ne'
  unfold numeral
  rw [if_neg hn, if_neg hdiv, Nat.digits_def' hb (Nat.pos_of_ne_zero hn), List.reverse_cons]

/-- The digits by their place, where `k` is the number of places. -/
theorem numeral_eq_map_range (hb : 1 < b) (k : Nat) : ∀ {n : Nat}, n < b ^ (k + 1) →
    (k = 0 ∨ b ^ k ≤ n) → numeral b n = (List.range (k + 1)).reverse.map fun i => n / b ^ i % b := by
  induction k with
  | zero =>
      intro n hn _
      rw [Nat.zero_add, pow_one] at hn
      rw [numeral_of_lt hn]
      simp [Nat.mod_eq_of_lt hn]
  | succ k ih =>
      intro n hn hk
      have hk : b ^ (k + 1) ≤ n := hk.resolve_left (Nat.succ_ne_zero k)
      have hle : b ≤ n := (Nat.le_self_pow (Nat.succ_ne_zero k) b).trans hk
      have hlt : n / b < b ^ (k + 1) := by
        rw [Nat.div_lt_iff_lt_mul (by omega), ← pow_succ]
        exact hn
      have hge : b ^ k ≤ n / b := by
        rw [Nat.le_div_iff_mul_le (by omega), ← pow_succ]
        exact hk
      rw [numeral_div_append hb hle, ih hlt (.inr hge), List.range_succ_eq_map (n := k + 1)]
      simp only [List.reverse_cons, List.map_append, List.map_reverse, List.map_map,
        List.map_cons, List.map_nil, Function.comp_def, Nat.div_div_eq_div_mul, ← pow_succ',
        pow_zero, Nat.div_one, Nat.succ_eq_add_one]

end Instrew.Lib.Numeral
