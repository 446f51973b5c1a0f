import Instrew.Lib.FloatFormat

/-!
# Rounding to integers

`floor`, `ceil`, `round` and `trunc` of `client/math.c` and their float versions, as
functions of the bit patterns. The two versions of a function differ in their constants
only (`FloatTy`).

`round_functions_exact` says that each of them computes the function it is named after, for
every pattern.
-/

namespace Instrew.Client.Math

open Lib.Imm Lib.FloatFormat Lib.FloatFormat.Format

/-! ## The functions -/

/-- The constants of the 32-bit and of the 64-bit functions. -/
structure FloatTy (w : Nat) : Type where
  man : Nat
  expMask : BitVec w
  expBias : Int
  manMask : BitVec w
  /-- `INT32_MIN`, which is the pattern of `-0.0f`. -/
  signBit : BitVec w
  one : BitVec w
  negOne : BitVec w

def f32 : FloatTy 32 where
  man := 23
  expMask := 0xff#32
  expBias := 0x7f
  manMask := 0x7fffff#32
  signBit := 0x80000000#32
  one := 0x3f800000#32
  negOne := 0xbf800000#32

def f64 : FloatTy 64 where
  man := 52
  expMask := 0x7ff#64
  expBias := 0x3ff
  manMask := 0xfffffffffffff#64
  signBit := 0x8000000000000000#64
  one := 0x3ff0000000000000#64
  negOne := 0xbff0000000000000#64

namespace FloatTy

variable {w : Nat} (T : FloatTy w)

/-- `EXP_F32` and `EXP_F64`. -/
def exp (vi : BitVec w) : Int := (vi.sshiftRight T.man &&& T.expMask).toNat - T.expBias

/-- The bits of the fraction for an exponent below `man`. -/
def msk (exp : Int) : BitVec w := T.manMask >>> exp.toNat

def floor (vi : BitVec w) : BitVec w :=
  if T.exp vi < 0 then
    -- less than one
    if vi = T.signBit then T.signBit else if vi.toInt < 0 then T.negOne else 0#w
  else if T.exp vi < T.man then
    (vi + if vi.toInt < 0 then T.msk (T.exp vi) else 0#w) &&& ~~~T.msk (T.exp vi)
  else vi

def ceil (vi : BitVec w) : BitVec w :=
  if T.exp vi < 0 then
    if vi.toInt < 0 then T.signBit else if vi = 0#w then 0#w else T.one
  else if T.exp vi < T.man then
    (vi + if 0 ≤ vi.toInt then T.msk (T.exp vi) else 0#w) &&& ~~~T.msk (T.exp vi)
  else vi

def round (vi : BitVec w) : BitVec w :=
  if T.exp vi < -1 then vi &&& T.signBit
  else if T.exp vi = -1 then if vi.toInt < 0 then T.negOne else T.one
  else if T.exp vi < T.man then
    if vi &&& T.msk (T.exp vi) ≠ 0#w then
      (vi + (1#w + T.msk (T.exp vi) >>> 1)) &&& ~~~T.msk (T.exp vi)
    else vi
  else vi

def trunc (vi : BitVec w) : BitVec w :=
  if T.exp vi < 0 then if vi.toInt < 0 then T.signBit else 0#w
  else if T.exp vi < T.man then vi &&& ~~~T.msk (T.exp vi)
  else vi

end FloatTy

def floorf : BitVec 32 → BitVec 32 := f32.floor
def floor : BitVec 64 → BitVec 64 := f64.floor
def ceilf : BitVec 32 → BitVec 32 := f32.ceil
def ceil : BitVec 64 → BitVec 64 := f64.ceil
def roundf : BitVec 32 → BitVec 32 := f32.round
def round : BitVec 64 → BitVec 64 := f64.round
def truncf : BitVec 32 → BitVec 32 := f32.trunc
def trunc : BitVec 64 → BitVec 64 := f64.trunc

/-! ## What the constants are -/

/-- The constants are those of a format. -/
structure FloatTy.Matches {w : Nat} (T : FloatTy w) (F : Format w) : Prop where
  man : T.man = F.manBits
  expMask : T.expMask.toNat = 2 ^ F.expBits - 1
  expBias : T.expBias = F.bias
  manMask : T.manMask.toNat = 2 ^ F.manBits - 1
  signBit : T.signBit.toNat = 2 ^ (w - 1)
  one : T.one.toNat = F.bias * 2 ^ F.manBits
  negOne : T.negOne.toNat = 2 ^ (w - 1) + F.bias * 2 ^ F.manBits

theorem f32_matches : f32.Matches binary32 := by constructor <;> decide

theorem f64_matches : f64.Matches binary64 := by constructor <;> decide

namespace FloatTy.Matches

variable {w : Nat} {T : FloatTy w} {F : Format w} (h : T.Matches F) {v : BitVec w}
include h

/-- The arithmetic shift brings no sign bits into the field. -/
theorem exp_eq (v : BitVec w) : T.exp v = F.expField (absBits v) - F.bias := by
  have hwidth := F.width_eq
  have hshift : v.sshiftRight T.man &&& T.expMask = v >>> F.manBits &&& T.expMask := by
    apply BitVec.eq_of_getLsbD_eq
    intro i hi
    have hbit : T.expMask.getLsbD i = decide (i < F.expBits) := by
      rw [BitVec.getLsbD, h.expMask, Nat.testBit_two_pow_sub_one]
    rw [BitVec.getLsbD_and, BitVec.getLsbD_and, hbit, BitVec.getLsbD_sshiftRight,
      BitVec.getLsbD_ushiftRight, h.man]
    by_cases hexp : i < F.expBits
    · have hin : F.manBits + i < w := by omega
      have hle : ¬ w ≤ i := by omega
      simp [hin, hle]
    · simp [hexp]
  have hfield : v.toNat / 2 ^ F.manBits % 2 ^ F.expBits = F.expField (absBits v) := by
    have hw : w - 1 = F.manBits + F.expBits := by omega
    rw [expField, absBits, hw, pow_add, Nat.mod_mul_right_div_self]
  rw [exp, hshift, toNat_and_ones h.expMask, BitVec.toNat_ushiftRight, Nat.shiftRight_eq_div_pow,
    hfield, h.expBias]

/-- In the branch for exponents below `man`, `msk` covers the bits of the fraction. -/
theorem exists_msk (hlo : ¬ T.exp v < 0) (hhi : T.exp v < T.man) :
    ∃ k, 0 < k ∧ k ≤ F.manBits ∧ F.expField (absBits v) + k = F.bias + F.manBits ∧
      (T.msk (T.exp v)).toNat = 2 ^ k - 1 := by
  have hmsk := toNat_ones_ushiftRight h.manMask (T.exp v).toNat
  have hexp := h.exp_eq v
  have hman := h.man
  exact ⟨F.manBits - (T.exp v).toNat, by omega, by omega, by omega, hmsk⟩

/-- Infinities and NaNs are in the last branch of every function. -/
theorem exp_of_not_isFinite (hv : ¬ F.IsFinite v) : (T.man : Int) ≤ T.exp v := by
  have hinf : F.expField (absBits v) = 2 * F.bias + 1 := by
    rw [IsFinite, F.two_bias_succ, not_not] at hv
    exact hv
  have hman := F.manBits_le_bias
  rw [h.exp_eq, h.man, hinf]
  push_cast
  omega

/-- The integers are there too. -/
theorem same {g : ℚ → ℤ} (hv : F.IsFinite v) (hexp : ¬ T.exp v < T.man) (hg : ∀ n : Nat, g n = n) :
    Computes F g v v := by
  refine .same hv ?_ hg
  rw [h.exp_eq, h.man] at hexp
  omega

theorem magnitude_lt_one (hexp : T.exp v < 0) : F.magnitude (absBits v) < 1 := by
  rw [h.exp_eq] at hexp
  exact F.magnitude_lt_one (by omega)

theorem zero_toNat (v : BitVec w) :
    (if v.toInt < 0 then T.signBit else 0#w).toNat = v.msb.toNat * 2 ^ (w - 1) := by
  rw [BitVec.msb_eq_toInt]
  split_ifs with hs
  · rw [h.signBit]
    simp [hs]
  · simp [hs]

theorem one_toNat (v : BitVec w) :
    (if v.toInt < 0 then T.negOne else T.one).toNat =
      v.msb.toNat * 2 ^ (w - 1) + F.bias * 2 ^ F.manBits := by
  rw [BitVec.msb_eq_toInt]
  split_ifs with hs
  · rw [h.negOne]
    simp [hs]
  · rw [h.one]
    simp [hs]

theorem signBit_neg : T.signBit.toInt < 0 := by
  have hmsb := (F.parts_of_toNat (v := T.signBit) (s := true) (a := 0) (by positivity)
    (by rw [h.signBit]; simp)).1
  rw [BitVec.msb_eq_toInt] at hmsb
  exact of_decide_eq_true hmsb

/-- What the comparisons with `INT32_MIN` and 0 find. -/
theorem magnitude_eq_zero_iff (v : BitVec w) :
    F.magnitude (absBits v) = 0 ↔ v = if v.toInt < 0 then T.signBit else 0#w := by
  have hv := F.toNat_eq v
  have hzero := h.zero_toNat v
  rw [F.magnitude_eq_zero_iff, ← BitVec.toNat_inj]
  omega

/-! ## Branches that several functions have -/

/-- Towards zero. -/
theorem round_down (hlo : ¬ T.exp v < 0) (hhi : T.exp v < T.man) :
    Computes F (⌊·⌋) v (v &&& ~~~T.msk (T.exp v)) := by
  obtain ⟨k, hk, hkm, hexp, hmsk⟩ := h.exists_msk hlo hhi
  have hround := Computes.round (j := 0#w) hk hexp hkm hmsk (by simp)
  simpa using hround

/-- Away from zero. -/
theorem round_up (hlo : ¬ T.exp v < 0) (hhi : T.exp v < T.man) :
    Computes F (⌈·⌉) v ((v + T.msk (T.exp v)) &&& ~~~T.msk (T.exp v)) := by
  obtain ⟨k, hk, hkm, hexp, hmsk⟩ := h.exists_msk hlo hhi
  have hpos : 0 < 2 ^ k := by positivity
  obtain ⟨hsign, hfinite, hmag⟩ := Computes.round (j := T.msk (T.exp v)) hk hexp hkm hmsk (by omega)
  refine ⟨hsign, hfinite, ?_⟩
  rw [hmag, hmsk, floor_magnitude_add_ones hexp hkm]

/-! ## The four functions -/

/-- Below one, towards zero. -/
theorem small_down (hlo : T.exp v < 0) :
    Computes F (⌊·⌋) v (if v.toInt < 0 then T.signBit else 0#w) :=
  .zero F (h.zero_toNat v) (Int.floor_eq_zero_iff.mpr ⟨F.magnitude_nonneg _, h.magnitude_lt_one hlo⟩)

/-- Below one, away from zero, for a zero. -/
theorem small_zero (hz : v = if v.toInt < 0 then T.signBit else 0#w) :
    Computes F (⌈·⌉) v (if v.toInt < 0 then T.signBit else 0#w) := by
  refine .zero F (h.zero_toNat v) ?_
  rw [(h.magnitude_eq_zero_iff v).mpr hz]
  exact Int.ceil_zero

/-- Below one, away from zero, for the other numbers. -/
theorem small_up (hlo : T.exp v < 0) (hz : v ≠ if v.toInt < 0 then T.signBit else 0#w) :
    Computes F (⌈·⌉) v (if v.toInt < 0 then T.negOne else T.one) := by
  have hne : F.magnitude (absBits v) ≠ 0 := fun hzero => hz ((h.magnitude_eq_zero_iff v).mp hzero)
  have hpos : 0 < F.magnitude (absBits v) := lt_of_le_of_ne (F.magnitude_nonneg _) hne.symm
  refine .one F (h.one_toNat v) (Int.ceil_eq_iff.mpr ⟨?_, ?_⟩)
  · rw [Int.cast_one, sub_self]
    exact hpos
  · rw [Int.cast_one]
    exact (h.magnitude_lt_one hlo).le

theorem floor_rounds : Rounds F T.floor Int.floor := by
  refine .of_computes (g := fun s q => if s then ⌈q⌉ else ⌊q⌋) (fun q _ => ?_) (fun v hv => ?_)
    fun v hv => ?_
  · exact ⟨rfl, Int.floor_neg⟩
  · rw [BitVec.msb_eq_toInt, floor]
    have hdown := h.small_down (v := v)
    have hzero := h.small_zero (v := v)
    have hup := h.small_up (v := v)
    by_cases hs : v.toInt < 0
    · simp only [hs, decide_true, if_true] at hzero hup ⊢
      split_ifs with hlo hz hhi
      · exact hzero hz
      · exact hup hlo hz
      · exact h.round_up hlo hhi
      · exact h.same hv hhi fun n => Int.ceil_natCast n
    · have hne : v ≠ T.signBit := by
        rintro rfl
        exact hs h.signBit_neg
      simp only [hs, hne, decide_false, if_false, Bool.false_eq_true, BitVec.add_zero] at hdown ⊢
      split_ifs with hlo hhi
      · exact hdown hlo
      · exact h.round_down hlo hhi
      · exact h.same hv hhi fun n => Int.floor_natCast n
  · have hexp := h.exp_of_not_isFinite hv
    rw [floor, if_neg (by omega), if_neg (by omega)]

theorem ceil_rounds : Rounds F T.ceil Int.ceil := by
  refine .of_computes (g := fun s q => if s then ⌊q⌋ else ⌈q⌉) (fun q _ => ?_) (fun v hv => ?_)
    fun v hv => ?_
  · exact ⟨rfl, Int.ceil_neg⟩
  · rw [BitVec.msb_eq_toInt, ceil]
    have hdown := h.small_down (v := v)
    have hzero := h.small_zero (v := v)
    have hup := h.small_up (v := v)
    by_cases hs : v.toInt < 0
    · simp only [hs, not_le.mpr hs, decide_true, if_true, if_false, BitVec.add_zero] at hdown ⊢
      split_ifs with hlo hhi
      · exact hdown hlo
      · exact h.round_down hlo hhi
      · exact h.same hv hhi fun n => Int.floor_natCast n
    · simp only [hs, not_lt.mp hs, decide_false, if_true, if_false, Bool.false_eq_true] at hzero hup ⊢
      split_ifs with hlo hz hhi
      · exact hzero hz
      · exact hup hlo hz
      · exact h.round_up hlo hhi
      · exact h.same hv hhi fun n => Int.ceil_natCast n
  · have hexp := h.exp_of_not_isFinite hv
    rw [ceil, if_neg (by omega), if_neg (by omega)]

theorem trunc_rounds : Rounds F T.trunc truncate := by
  refine .of_computes (g := fun _ q => ⌊q⌋) (fun q hq => ?_) (fun v hv => ?_) fun v hv => ?_
  · refine ⟨if_neg (not_lt.mpr hq), ?_⟩
    rw [truncate]
    split_ifs with hneg
    · exact Int.ceil_neg
    · rw [show q = 0 by linarith]
      decide
  · rw [trunc]
    split_ifs with hlo hs hhi
    · have hdown := h.small_down hlo
      rwa [if_pos hs] at hdown
    · have hdown := h.small_down hlo
      rwa [if_neg hs] at hdown
    · exact h.round_down hlo hhi
    · exact h.same hv hhi fun n => Int.floor_natCast n
  · have hexp := h.exp_of_not_isFinite hv
    rw [trunc, if_neg (by omega), if_neg (by omega)]

/-- Below one half. -/
theorem round_small (hlo : T.exp v < -1) :
    Computes F (fun q => ⌊q + 1 / 2⌋) v (v &&& T.signBit) := by
  have hbit : (v &&& T.signBit).toNat = v.msb.toNat * 2 ^ (w - 1) := by
    have hones : (~~~T.signBit).toNat = 2 ^ (w - 1) - 1 := by
      rw [BitVec.toNat_not, h.signBit, F.two_pow_width]
      omega
    have hclear := toNat_and_not_ones hones v
    rw [BitVec.not_not] at hclear
    rw [hclear, F.toNat_eq v, add_comm, Nat.add_mul_div_right _ _ (by positivity),
      Nat.div_eq_of_lt (absBits_lt v), zero_add]
  refine .zero F hbit (Int.floor_eq_zero_iff.mpr ⟨?_, ?_⟩)
  · exact add_nonneg (F.magnitude_nonneg _) one_half_pos.le
  · rw [h.exp_eq] at hlo
    have hlt : F.magnitude (absBits v) < 2 ^ (-1 : ℤ) :=
      (F.magnitude_lt _).trans_le (zpow_le_zpow_right₀ one_le_two (by omega))
    norm_num at hlt ⊢
    linarith

/-- From one half to one. -/
theorem round_half (hexp : T.exp v = -1) :
    Computes F (fun q => ⌊q + 1 / 2⌋) v (if v.toInt < 0 then T.negOne else T.one) := by
  have hlt := h.magnitude_lt_one (v := v) (by omega)
  have hle : 2 ^ (-1 : ℤ) ≤ F.magnitude (absBits v) := by
    rw [h.exp_eq] at hexp
    rcases Nat.eq_zero_or_pos (F.expField (absBits v)) with hzero | hpos
    · -- the exponent of the subnormals is smaller
      have := F.three_le_bias
      omega
    · have hle := F.le_magnitude (Nat.pos_iff_ne_zero.mp hpos)
      rwa [hexp] at hle
  refine .one F (h.one_toNat v) (Int.floor_eq_iff.mpr ⟨?_, ?_⟩)
  · norm_num at hle ⊢
    linarith
  · norm_num
    linarith

/-- To the nearest, with half a unit added. -/
theorem round_nearest (hlo : ¬ T.exp v < 0) (hhi : T.exp v < T.man) :
    Computes F (fun q => ⌊q + 1 / 2⌋) v
      (if v &&& T.msk (T.exp v) ≠ 0#w then
        (v + (1#w + T.msk (T.exp v) >>> 1)) &&& ~~~T.msk (T.exp v) else v) := by
  obtain ⟨k, hk, hkm, hexp, hmsk⟩ := h.exists_msk hlo hhi
  have hhalf : 2 ^ k = 2 * 2 ^ (k - 1) := by
    rw [← Nat.pow_succ']
    congr 1
    omega
  have hpos : 0 < 2 ^ (k - 1) := by positivity
  have hlt := (T.msk (T.exp v)).isLt
  have hj : (1#w + T.msk (T.exp v) >>> 1).toNat = 2 ^ (k - 1) := by
    rw [BitVec.toNat_add, toNat_ones_ushiftRight hmsk, BitVec.toNat_ofNat,
      Nat.mod_eq_of_lt (a := 1) (by omega), Nat.mod_eq_of_lt (by omega)]
    omega
  have hunit : ((2 ^ (k - 1) : ℕ) : ℚ) / 2 ^ k = 1 / 2 := by
    have hcast : (2 : ℚ) ^ k = 2 * (2 ^ (k - 1) : ℕ) := by exact_mod_cast hhalf
    rw [hcast]
    field_simp
  split_ifs with hfrac
  · have hround := Computes.round (v := v) hk hexp hkm hmsk (j := 1#w + T.msk (T.exp v) >>> 1)
      (by rw [hj]; omega)
    rwa [hj, hunit] at hround
  · -- an integer: half a unit would be cleared again
    refine ⟨rfl, isFinite_of_le (by omega), ?_⟩
    have hdvd : 2 ^ k ∣ absBits v := by
      have hzero := congrArg BitVec.toNat (not_not.mp hfrac)
      have hw := F.width_eq
      rw [toNat_and_ones hmsk, BitVec.toNat_ofNat, Nat.zero_mod,
        ← Nat.mod_mod_of_dvd _ (Nat.pow_dvd_pow 2 (show k ≤ w - 1 by omega))] at hzero
      exact Nat.dvd_of_mod_eq_zero hzero
    have hround := magnitude_round (a := absBits v) hexp hkm (j := 2 ^ (k - 1)) (by omega)
    rw [hunit] at hround
    rw [← hround]
    congr 1
    obtain ⟨n, hn⟩ := hdvd
    rw [hn, Nat.mul_add_div (by positivity), Nat.div_eq_of_lt (by omega), add_zero, mul_comm]

theorem round_rounds : Rounds F T.round nearestAway := by
  refine .of_computes (g := fun _ q => ⌊q + 1 / 2⌋) (fun q hq => ?_) (fun v hv => ?_) fun v hv => ?_
  · refine ⟨if_neg (not_lt.mpr hq), ?_⟩
    rw [nearestAway]
    split_ifs with hneg
    · rw [neg_neg]
    · rw [show q = 0 by linarith]
      norm_num
  · rw [round]
    split_ifs with hlt heq hs hhi hfrac
    · exact h.round_small hlt
    · have hhalf := h.round_half heq
      rwa [if_pos hs] at hhalf
    · have hhalf := h.round_half heq
      rwa [if_neg hs] at hhalf
    · have hnear := h.round_nearest (v := v) (by omega) hhi
      rwa [if_pos hfrac] at hnear
    · have hnear := h.round_nearest (v := v) (by omega) hhi
      rwa [if_neg hfrac] at hnear
    · refine h.same hv hhi fun n => ?_
      rw [Int.floor_natCast_add]
      norm_num
  · have hexp := h.exp_of_not_isFinite hv
    rw [round, if_neg (by omega), if_neg (by omega), if_neg (by omega)]

end FloatTy.Matches

/-- **The eight functions are exact.** -/
theorem round_functions_exact :
    (Rounds binary32 floorf Int.floor ∧ Rounds binary64 floor Int.floor) ∧
      (Rounds binary32 ceilf Int.ceil ∧ Rounds binary64 ceil Int.ceil) ∧
      (Rounds binary32 roundf nearestAway ∧ Rounds binary64 round nearestAway) ∧
      Rounds binary32 truncf truncate ∧ Rounds binary64 trunc truncate :=
  ⟨⟨f32_matches.floor_rounds, f64_matches.floor_rounds⟩,
    ⟨f32_matches.ceil_rounds, f64_matches.ceil_rounds⟩,
    ⟨f32_matches.round_rounds, f64_matches.round_rounds⟩,
    f32_matches.trunc_rounds, f64_matches.trunc_rounds⟩

end Instrew.Client.Math
