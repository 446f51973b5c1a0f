import Instrew.Lib.Imm
import Mathlib.Data.Rat.Floor

/-!
# Binary floating-point formats

A pattern of `w` bits is a sign, an exponent field and a fraction (`Format`). Without its
sign it is a number `a`, and on each binade the rational it stands for is linear in `a`, up
to and including the first pattern of the next binade (`magnitude_of_binade`). So a carry
from the fraction into the exponent does no harm: to add `j` to the pattern and clear its
last `k` bits is to add `j / 2 ^ k` to the value and take the floor (`magnitude_round`).

`Rounds f r` says that a function of patterns computes a function from rationals to
integers, with the sign of its argument on a zero.
-/

namespace Instrew.Lib.FloatFormat

open Imm

/-- A binary format of `w` bits, whose exponents are large enough that the integers start
before the infinities do. -/
structure Format (w : Nat) : Type where
  expBits : Nat
  manBits : Nat
  width_eq : w = 1 + expBits + manBits
  manBits_lt : manBits < 2 ^ (expBits - 1)
  three_le : 3 ≤ expBits

namespace Format

variable {w : Nat} (F : Format w)

def bias : Nat := 2 ^ (F.expBits - 1) - 1

def expField (a : Nat) : Nat := a / 2 ^ F.manBits

def fraction (a : Nat) : Nat := a % 2 ^ F.manBits

/-- The rational that a pattern without sign stands for. -/
def magnitude (a : Nat) : ℚ :=
  if F.expField a = 0 then F.fraction a * 2 ^ (1 - F.bias - F.manBits : ℤ)
  else (2 ^ F.manBits + F.fraction a) * 2 ^ (F.expField a - F.bias - F.manBits : ℤ)

/-- The bits below the sign. -/
def absBits (v : BitVec w) : Nat := v.toNat % 2 ^ (w - 1)

/-- Neither an infinity nor a NaN. -/
def IsFinite (v : BitVec w) : Prop := F.expField (absBits v) ≠ 2 ^ F.expBits - 1

def value (v : BitVec w) : ℚ :=
  if v.msb then -F.magnitude (absBits v) else F.magnitude (absBits v)

/-! ## Binades -/

theorem three_le_bias : 3 ≤ F.bias := by
  have hpow : 2 ^ 2 ≤ 2 ^ (F.expBits - 1) :=
    Nat.pow_le_pow_right Nat.two_pos (Nat.le_sub_one_of_lt F.three_le)
  rw [bias]
  omega

theorem one_le_bias : 1 ≤ F.bias := le_trans (by decide) F.three_le_bias

/-- The exponent field of the infinities and NaNs. -/
theorem two_bias_succ : 2 ^ F.expBits - 1 = 2 * F.bias + 1 := by
  have hsplit : 2 ^ F.expBits = 2 * 2 ^ (F.expBits - 1) := by
    rw [← Nat.pow_succ']
    congr 1
    have := F.three_le
    omega
  have hpos : 0 < 2 ^ (F.expBits - 1) := by positivity
  rw [bias]
  omega

theorem manBits_le_bias : F.manBits ≤ F.bias := by
  have := F.manBits_lt
  rw [bias]
  omega

theorem fraction_lt (a : Nat) : F.fraction a < 2 ^ F.manBits := Nat.mod_lt _ (by positivity)

theorem expField_mul_add_fraction (a : Nat) :
    F.expField a * 2 ^ F.manBits + F.fraction a = a := Nat.div_add_mod' a _

theorem magnitude_nonneg (a : Nat) : 0 ≤ F.magnitude a := by
  rw [magnitude]
  split_ifs <;> positivity

theorem magnitude_eq_zero_iff {a : Nat} : F.magnitude a = 0 ↔ a = 0 := by
  rw [magnitude]
  split_ifs with h
  · have hpow : (2 : ℚ) ^ (1 - F.bias - F.manBits : ℤ) ≠ 0 := by positivity
    have hsum := F.expField_mul_add_fraction a
    rw [h, zero_mul, zero_add] at hsum
    rw [mul_eq_zero, or_iff_left hpow, Nat.cast_eq_zero, hsum]
  · have hne : a ≠ 0 := by
      rintro rfl
      exact h (Nat.zero_div _)
    refine iff_of_false (ne_of_gt ?_) hne
    positivity

/-- **A binade is linear in the pattern**, and so is its step to the next one. -/
theorem magnitude_of_binade {e a : Nat} (he : 1 ≤ e) (hlo : e * 2 ^ F.manBits ≤ a)
    (hhi : a ≤ (e + 1) * 2 ^ F.manBits) :
    F.magnitude a = (a - (e - 1) * 2 ^ F.manBits) * 2 ^ (e - F.bias - F.manBits : ℤ) := by
  have hpos : 0 < 2 ^ F.manBits := by positivity
  rcases Nat.eq_or_lt_of_le hhi with rfl | hlt
  · have hexp : F.expField ((e + 1) * 2 ^ F.manBits) = e + 1 := Nat.mul_div_cancel _ hpos
    have hfrac : F.fraction ((e + 1) * 2 ^ F.manBits) = 0 := Nat.mul_mod_left _ _
    rw [magnitude, if_neg (by omega), hexp, hfrac]
    push_cast
    rw [show (e + 1 - F.bias - F.manBits : ℤ) = e - F.bias - F.manBits + 1 by ring,
      zpow_add_one₀ two_ne_zero]
    ring
  · have hexp : F.expField a = e := Nat.div_eq_of_lt_le hlo hlt
    have hsum := F.expField_mul_add_fraction a
    rw [hexp] at hsum
    rw [magnitude, if_neg (by omega), hexp, ← hsum]
    have hfrac : F.fraction (e * 2 ^ F.manBits + F.fraction a) = F.fraction a := by rw [hsum]
    rw [hfrac]
    push_cast
    ring

/-- Powers of two in units of the last place. -/
theorem two_zpow_eq (x : ℤ) : (2 : ℚ) ^ x = 2 ^ F.manBits * 2 ^ (x - F.manBits) := by
  rw [← zpow_natCast, ← zpow_add₀ two_ne_zero]
  congr 1
  ring

theorem magnitude_lt (a : Nat) : F.magnitude a < 2 ^ (F.expField a + 1 - F.bias : ℤ) := by
  have hfrac : (F.fraction a : ℚ) < 2 ^ F.manBits := by exact_mod_cast F.fraction_lt a
  rw [magnitude]
  split_ifs with h
  · rw [h, Nat.cast_zero, zero_add, F.two_zpow_eq (1 - F.bias)]
    gcongr
  · rw [show (F.expField a + 1 - F.bias : ℤ) = F.expField a - F.bias + 1 by ring,
      zpow_add_one₀ two_ne_zero, F.two_zpow_eq (F.expField a - F.bias), mul_right_comm]
    gcongr
    linarith

theorem le_magnitude {a : Nat} (h : F.expField a ≠ 0) :
    2 ^ (F.expField a - F.bias : ℤ) ≤ F.magnitude a := by
  rw [magnitude, if_neg h, F.two_zpow_eq (F.expField a - F.bias)]
  gcongr
  exact le_add_of_nonneg_right (Nat.cast_nonneg _)

theorem magnitude_lt_one {a : Nat} (h : F.expField a < F.bias) : F.magnitude a < 1 := by
  refine (F.magnitude_lt a).trans_le (zpow_le_one_of_nonpos₀ one_le_two ?_)
  omega

/-- From the exponent `manBits` on there are integers only. -/
theorem exists_magnitude_eq {a : Nat} (h : F.bias + F.manBits ≤ F.expField a) :
    ∃ n : Nat, F.magnitude a = n := by
  have hne : F.expField a ≠ 0 := by
    have := F.one_le_bias
    omega
  refine ⟨(2 ^ F.manBits + F.fraction a) * 2 ^ (F.expField a - F.bias - F.manBits), ?_⟩
  rw [magnitude, if_neg hne,
    show (F.expField a - F.bias - F.manBits : ℤ) = ((F.expField a - F.bias - F.manBits : ℕ) : ℤ) by
      omega,
    zpow_natCast]
  push_cast
  rfl

/-! ## Rounding a pattern -/

section Round

variable {F} {a k : Nat}

/-- Where the last `k` bits of the pattern stand for a fraction: the value in units of
`2 ^ -k`. -/
theorem magnitude_units (hexp : F.expField a + k = F.bias + F.manBits) {b : Nat}
    (hlo : F.expField a * 2 ^ F.manBits ≤ b) (hhi : b ≤ (F.expField a + 1) * 2 ^ F.manBits)
    (hkm : k ≤ F.manBits) :
    F.magnitude b = (b : ℚ) / 2 ^ k - ((F.expField a - 1) * 2 ^ (F.manBits - k) : ℕ) := by
  have hbias := F.one_le_bias
  have he : 1 ≤ F.expField a := by omega
  have hsplit : (2 : ℚ) ^ F.manBits = 2 ^ (F.manBits - k) * 2 ^ k := by
    rw [← pow_add]
    congr 1
    omega
  rw [F.magnitude_of_binade he hlo hhi,
    show (F.expField a - F.bias - F.manBits : ℤ) = -(k : ℤ) by omega, zpow_neg, zpow_natCast, hsplit]
  push_cast [Nat.cast_sub he]
  field_simp

/-- **Adding to a pattern and clearing its last bits rounds its value.** -/
theorem magnitude_round (hexp : F.expField a + k = F.bias + F.manBits)
    (hkm : k ≤ F.manBits) {j : Nat} (hj : j < 2 ^ k) :
    F.magnitude ((a + j) / 2 ^ k * 2 ^ k) = ⌊F.magnitude a + j / 2 ^ k⌋ := by
  have hpos : 0 < 2 ^ k := by positivity
  have hsplit : 2 ^ F.manBits = 2 ^ (F.manBits - k) * 2 ^ k := by
    rw [← pow_add]
    congr 1
    omega
  have hsum := F.expField_mul_add_fraction a
  have hfrac := F.fraction_lt a
  have hlo : F.expField a * 2 ^ F.manBits ≤ (a + j) / 2 ^ k * 2 ^ k := by
    rw [hsplit, ← mul_assoc]
    refine Nat.mul_le_mul_right _ ((Nat.le_div_iff_mul_le hpos).mpr ?_)
    rw [mul_assoc, ← hsplit]
    omega
  have hhi : (a + j) / 2 ^ k * 2 ^ k ≤ (F.expField a + 1) * 2 ^ F.manBits := by
    rw [hsplit, ← mul_assoc]
    refine Nat.mul_le_mul_right _ (Nat.le_of_lt_succ ((Nat.div_lt_iff_lt_mul hpos).mpr ?_))
    rw [Nat.succ_mul, mul_assoc, ← hsplit, Nat.succ_mul]
    omega
  have hunits := magnitude_units hexp (b := a) (by omega) (by rw [Nat.succ_mul]; omega) hkm
  rw [magnitude_units hexp hlo hhi hkm, hunits, Nat.cast_mul, Nat.cast_pow, Nat.cast_ofNat,
    mul_div_cancel_right₀ _ (by positivity), sub_add_eq_add_sub, ← add_div, ← Nat.cast_add,
    Int.floor_sub_natCast]
  have hfloor : ⌊((a + j : ℕ) : ℚ) / 2 ^ k⌋ = ((a + j) / 2 ^ k : ℕ) := by
    have h := Rat.floor_natCast_div_natCast (a + j) (2 ^ k)
    push_cast at h ⊢
    exact h
  rw [hfloor]
  push_cast
  rfl

/-- Adding all but one unit gives the ceiling. -/
theorem floor_magnitude_add_ones (hexp : F.expField a + k = F.bias + F.manBits)
    (hkm : k ≤ F.manBits) :
    ⌊F.magnitude a + ((2 ^ k - 1 : ℕ) : ℚ) / 2 ^ k⌋ = ⌈F.magnitude a⌉ := by
  have hpos : 0 < 2 ^ k := by positivity
  have hsum := F.expField_mul_add_fraction a
  have hfrac := F.fraction_lt a
  rw [magnitude_units hexp (b := a) (by omega) (by rw [Nat.succ_mul]; omega) hkm,
    sub_add_eq_add_sub, Int.floor_sub_natCast, Int.ceil_sub_natCast]
  congr 1
  rw [eq_comm, Int.ceil_eq_iff, ← add_div, Nat.cast_sub (Nat.one_le_two_pow)]
  push_cast
  have hfloor := Int.floor_le (((a : ℚ) + (2 ^ k - 1)) / 2 ^ k)
  have hlt := Int.lt_floor_add_one (((a : ℚ) + (2 ^ k - 1)) / 2 ^ k)
  generalize ⌊((a : ℚ) + (2 ^ k - 1)) / 2 ^ k⌋ = z at hfloor hlt
  rw [le_div_iff₀ (by positivity)] at hfloor
  rw [div_lt_iff₀ (by positivity)] at hlt
  constructor
  · rw [lt_div_iff₀ (by positivity)]
    linarith
  · rw [div_le_iff₀ (by positivity)]
    -- numbers of units are integers
    have hunits : (a : ℤ) < z * 2 ^ k + 1 := by
      have : (a : ℚ) < z * 2 ^ k + 1 := by linarith
      exact_mod_cast this
    have hle : (a : ℤ) ≤ z * 2 ^ k := by omega
    exact_mod_cast hle

end Round

/-! ## Signs -/

variable {F}

theorem two_pow_width (F : Format w) : 2 ^ w = 2 * 2 ^ (w - 1) := by
  have hw := F.width_eq
  rw [← Nat.pow_succ']
  congr 1
  omega

/-- The infinities and what is before them fit below the sign. -/
theorem mul_le_two_pow (F : Format w) {e : Nat} (he : e ≤ 2 * F.bias + 2) :
    e * 2 ^ F.manBits ≤ 2 ^ (w - 1) := by
  have hw : w - 1 = F.expBits + F.manBits := by
    have := F.width_eq
    omega
  have hinf := F.two_bias_succ
  rw [hw, pow_add]
  exact Nat.mul_le_mul_right _ (by omega)

theorem absBits_lt (v : BitVec w) : absBits v < 2 ^ (w - 1) := Nat.mod_lt _ (by positivity)

/-- A pattern is its sign and the rest. -/
theorem toNat_eq (F : Format w) (v : BitVec w) :
    v.toNat = v.msb.toNat * 2 ^ (w - 1) + absBits v := by
  have hlt := v.isLt
  have hw := F.two_pow_width
  rw [absBits, BitVec.msb_eq_decide]
  by_cases h : 2 ^ (w - 1) ≤ v.toNat
  · have hmod : v.toNat % 2 ^ (w - 1) = v.toNat - 2 ^ (w - 1) := by
      rw [Nat.mod_eq_sub_mod h, Nat.mod_eq_of_lt (by omega)]
    rw [hmod]
    simp only [h, decide_true, Bool.toNat_true]
    omega
  · rw [Nat.mod_eq_of_lt (by omega)]
    simp [h]

theorem parts_of_toNat (F : Format w) {v : BitVec w} {s : Bool} {a : Nat} (ha : a < 2 ^ (w - 1))
    (h : v.toNat = s.toNat * 2 ^ (w - 1) + a) : v.msb = s ∧ absBits v = a := by
  have hv := (F.toNat_eq v).symm.trans h
  have habs := absBits_lt v
  cases hs : v.msb <;> cases s <;> rw [hs] at hv <;>
    simp only [Bool.toNat_false, Bool.toNat_true, zero_mul, one_mul, zero_add] at hv
  · exact ⟨rfl, hv⟩
  · omega
  · omega
  · exact ⟨rfl, by omega⟩

/-- Adding below the sign and clearing the last bits, for patterns with a sign. -/
theorem parts_round {ones j : BitVec w} {k : Nat} (F : Format w) (hones : ones.toNat = 2 ^ k - 1)
    (hk : k < w) {v : BitVec w} (hsum : absBits v + j.toNat < 2 ^ (w - 1)) :
    ((v + j) &&& ~~~ones).msb = v.msb ∧
      absBits ((v + j) &&& ~~~ones) = (absBits v + j.toNat) / 2 ^ k * 2 ^ k := by
  have hpos : 0 < 2 ^ k := by positivity
  have hw := F.two_pow_width
  have hsplit : 2 ^ (w - 1) = 2 ^ (w - 1 - k) * 2 ^ k := by
    rw [← pow_add]
    congr 1
    omega
  have hle := Nat.div_mul_le_self (absBits v + j.toNat) (2 ^ k)
  refine F.parts_of_toNat (by omega) ?_
  have hsign : v.msb.toNat * 2 ^ (w - 1) ≤ 2 ^ (w - 1) := by cases v.msb <;> simp
  rw [toNat_and_not_ones hones, BitVec.toNat_add, F.toNat_eq v, Nat.mod_eq_of_lt (by omega),
    add_assoc, hsplit, ← mul_assoc, add_comm, Nat.add_mul_div_right _ _ hpos, add_mul, add_comm]

/-- The patterns with the exponent field of an integer, or just behind it, are finite. -/
theorem isFinite_of_le {v : BitVec w} (h : F.expField (absBits v) ≤ F.bias + F.manBits) :
    F.IsFinite v := by
  have := F.manBits_le_bias
  rw [IsFinite, F.two_bias_succ]
  omega

@[simp] theorem magnitude_zero : F.magnitude 0 = 0 := F.magnitude_eq_zero_iff.mpr rfl

theorem expField_one : F.expField (F.bias * 2 ^ F.manBits) = F.bias :=
  Nat.mul_div_cancel _ (by positivity)

theorem magnitude_one : F.magnitude (F.bias * 2 ^ F.manBits) = 1 := by
  rw [F.magnitude_of_binade F.one_le_bias le_rfl (Nat.mul_le_mul_right _ (Nat.le_succ _)),
    show (F.bias - F.bias - F.manBits : ℤ) = -(F.manBits : ℤ) by ring, zpow_neg, zpow_natCast]
  push_cast
  field_simp
  ring

end Format

/-! ## Rounding functions -/

/-- Towards zero. -/
def truncate (q : ℚ) : ℤ := if q < 0 then ⌈q⌉ else ⌊q⌋

/-- To the nearest integer, the larger one in absolute value if there are two. -/
def nearestAway (q : ℚ) : ℤ := if q < 0 then -⌊-q + 1 / 2⌋ else ⌊q + 1 / 2⌋

/-- The function computes `r` on the values of finite patterns, a zero has the sign of the
argument, and infinities and NaNs are returned as they are. -/
structure Rounds {w : Nat} (F : Format w) (f : BitVec w → BitVec w) (r : ℚ → ℤ) : Prop where
  finite : ∀ v, F.IsFinite v → F.IsFinite (f v)
  value : ∀ v, F.IsFinite v → F.value (f v) = r (F.value v)
  zero : ∀ v, F.IsFinite v → F.value (f v) = 0 → (f v).msb = v.msb
  special : ∀ v, ¬ F.IsFinite v → f v = v

/-- The pattern `v'` has the sign of `v` and stands for `g` of its absolute value. -/
structure Computes {w : Nat} (F : Format w) (g : ℚ → ℤ) (v v' : BitVec w) : Prop where
  sign : v'.msb = v.msb
  finite : F.IsFinite v'
  magnitude : F.magnitude (Format.absBits v') = g (F.magnitude (Format.absBits v))

/-- **Rounding by sign and absolute value.** -/
theorem Rounds.of_computes {w : Nat} {F : Format w} {f : BitVec w → BitVec w} {r : ℚ → ℤ}
    {g : Bool → ℚ → ℤ} (hr : ∀ q, 0 ≤ q → r q = g false q ∧ r (-q) = -g true q)
    (hf : ∀ v, F.IsFinite v → Computes F (g v.msb) v (f v))
    (hspecial : ∀ v, ¬ F.IsFinite v → f v = v) : Rounds F f r where
  finite v hv := (hf v hv).finite
  value v hv := by
    obtain ⟨hpos, hneg⟩ := hr _ (F.magnitude_nonneg (Format.absBits v))
    have hmag := (hf v hv).magnitude
    rw [Format.value, Format.value, (hf v hv).sign]
    cases hs : v.msb with
    | false =>
        rw [hs] at hmag
        simp only [Bool.false_eq_true, if_false]
        rw [hmag, hpos]
    | true =>
        rw [hs] at hmag
        simp only [if_true]
        rw [hmag, hneg, Int.cast_neg]
  zero v hv _ := (hf v hv).sign
  special := hspecial

section Computes

variable {w : Nat} {F : Format w} {v : BitVec w}

/-- A pattern of an integer stands for itself. -/
theorem Computes.same {g : ℚ → ℤ} (hv : F.IsFinite v)
    (h : F.bias + F.manBits ≤ F.expField (Format.absBits v)) (hg : ∀ n : Nat, g n = n) :
    Computes F g v v := by
  refine ⟨rfl, hv, ?_⟩
  obtain ⟨n, hn⟩ := F.exists_magnitude_eq h
  rw [hn, hg]
  rfl

/-- The last `k` bits are a fraction: add `j` and clear them. -/
theorem Computes.round {ones j : BitVec w} {k : Nat} (hk : 0 < k)
    (hexp : F.expField (Format.absBits v) + k = F.bias + F.manBits) (hkm : k ≤ F.manBits)
    (hones : ones.toNat = 2 ^ k - 1) (hj : j.toNat < 2 ^ k) :
    Computes F (fun q => ⌊q + j.toNat / 2 ^ k⌋) v ((v + j) &&& ~~~ones) := by
  have hpow : 2 ^ k ≤ 2 ^ F.manBits := Nat.pow_le_pow_right Nat.two_pos hkm
  have hsum := F.expField_mul_add_fraction (Format.absBits v)
  have hfrac := F.fraction_lt (Format.absBits v)
  have hbound : Format.absBits v + j.toNat < (F.expField (Format.absBits v) + 2) * 2 ^ F.manBits := by
    rw [add_mul]
    omega
  have htop : (F.expField (Format.absBits v) + 2) * 2 ^ F.manBits ≤ 2 ^ (w - 1) := by
    have hman := F.manBits_le_bias
    exact F.mul_le_two_pow (by omega)
  have hkw : k < w := by
    have := F.width_eq
    omega
  obtain ⟨hsign, habs⟩ := F.parts_round hones hkw (v := v) (hbound.trans_le htop)
  refine ⟨hsign, Format.isFinite_of_le ?_, ?_⟩
  · rw [habs]
    have hle := Nat.div_mul_le_self (Format.absBits v + j.toNat) (2 ^ k)
    have hlt : F.expField ((Format.absBits v + j.toNat) / 2 ^ k * 2 ^ k) <
        F.expField (Format.absBits v) + 2 :=
      (Nat.div_lt_iff_lt_mul (by positivity)).mpr (hle.trans_lt hbound)
    omega
  · rw [habs]
    exact Format.magnitude_round hexp hkm hj

/-- A zero with the sign of `v`. -/
theorem Computes.zero {v' : BitVec w} {g : ℚ → ℤ} (F : Format w)
    (h : v'.toNat = v.msb.toNat * 2 ^ (w - 1)) (hg : g (F.magnitude (Format.absBits v)) = 0) :
    Computes F g v v' := by
  obtain ⟨hsign, habs⟩ := F.parts_of_toNat (v := v') (a := 0) (by positivity) h
  refine ⟨hsign, Format.isFinite_of_le ?_, ?_⟩
  · rw [habs, Format.expField, Nat.zero_div]
    exact Nat.zero_le _
  · rw [habs, hg, Format.magnitude_zero, Int.cast_zero]

/-- A one with the sign of `v`. -/
theorem Computes.one {v' : BitVec w} {g : ℚ → ℤ} (F : Format w)
    (h : v'.toNat = v.msb.toNat * 2 ^ (w - 1) + F.bias * 2 ^ F.manBits)
    (hg : g (F.magnitude (Format.absBits v)) = 1) : Computes F g v v' := by
  have hlt : F.bias * 2 ^ F.manBits < 2 ^ (w - 1) := by
    have hlt : F.bias * 2 ^ F.manBits < (F.bias + 1) * 2 ^ F.manBits :=
      Nat.mul_lt_mul_of_pos_right (Nat.lt_succ_self _) (by positivity)
    exact hlt.trans_le (F.mul_le_two_pow (by omega))
  obtain ⟨hsign, habs⟩ := F.parts_of_toNat (v := v') hlt h
  refine ⟨hsign, Format.isFinite_of_le ?_, ?_⟩
  · rw [habs, Format.expField_one]
    exact Nat.le_add_right _ _
  · rw [habs, hg, Format.magnitude_one, Int.cast_one]

end Computes

def binary32 : Format 32 := ⟨8, 23, rfl, by decide, by decide⟩

def binary64 : Format 64 := ⟨11, 52, rfl, by decide, by decide⟩

end Instrew.Lib.FloatFormat
