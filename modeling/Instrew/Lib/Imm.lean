import Mathlib.Data.BitVec
import Mathlib.Tactic

/-!
# Fields of a machine word

`blend` replaces the bits of a word under a mask and keeps the others. A field of the
blended word is the field of the data if the mask covers it and the field of the old word
if the mask leaves it out (`extractLsb'_blend`). A signed number survives being cut to a
field of `k` bits and sign-extended again exactly when it is in the range of `k` bits
(`signExtend_setWidth_iff`). Clearing the bits below a power of two rounds down
(`toNat_and_not_ones`).
-/

namespace Instrew.Lib.Imm

variable {n : Nat}

/-- `old` with the bits under `mask` taken from `data`. -/
def blend (mask data old : BitVec n) : BitVec n := data &&& mask ||| old &&& ~~~mask

theorem getLsbD_blend (mask data old : BitVec n) (i : Nat) :
    (blend mask data old).getLsbD i =
      if mask.getLsbD i then data.getLsbD i else old.getLsbD i := by
  rw [blend, BitVec.getLsbD_or, BitVec.getLsbD_and, BitVec.getLsbD_and, BitVec.getLsbD_not]
  by_cases hi : i < n
  · cases hm : mask.getLsbD i <;> simp [hi]
  · simp [BitVec.getLsbD_of_ge _ _ (Nat.le_of_not_lt hi)]

/-- The mask covers every bit of a field. -/
def Covers (mask : BitVec n) (start len : Nat) : Prop :=
  ∀ i < len, mask.getLsbD (start + i) = true

/-- The mask leaves out every bit of a field. -/
def Spares (mask : BitVec n) (start len : Nat) : Prop :=
  ∀ i < len, mask.getLsbD (start + i) = false

instance (mask : BitVec n) (start len : Nat) : Decidable (Covers mask start len) :=
  inferInstanceAs (Decidable (∀ i < len, _))

instance (mask : BitVec n) (start len : Nat) : Decidable (Spares mask start len) :=
  inferInstanceAs (Decidable (∀ i < len, _))

variable {mask : BitVec n} {start len : Nat}

theorem Covers.extractLsb'_blend (h : Covers mask start len) (data old : BitVec n) :
    (blend mask data old).extractLsb' start len = data.extractLsb' start len := by
  apply BitVec.eq_of_getLsbD_eq
  intro i hi
  rw [BitVec.getLsbD_extractLsb', BitVec.getLsbD_extractLsb', getLsbD_blend, h i hi, if_pos rfl]

theorem Spares.extractLsb'_blend (h : Spares mask start len) (data old : BitVec n) :
    (blend mask data old).extractLsb' start len = old.extractLsb' start len := by
  apply BitVec.eq_of_getLsbD_eq
  intro i hi
  rw [BitVec.getLsbD_extractLsb', BitVec.getLsbD_extractLsb', getLsbD_blend, h i hi,
    if_neg Bool.false_ne_true]

theorem spares_of_extractLsb' (h : mask.extractLsb' start len = 0) :
    Spares mask start len := by
  intro i hi
  have hbit := congrArg (fun w => w.getLsbD i) h
  simpa [hi] using hbit

/-- Blending in wider arithmetic and cutting the result is blending. -/
theorem setWidth_blend {w : Nat} (hw : n ≤ w) (mask data : BitVec w) (old : BitVec n) :
    (data &&& mask ||| old.setWidth w &&& ~~~mask).setWidth n =
      blend (mask.setWidth n) (data.setWidth n) old := by
  apply BitVec.eq_of_getLsbD_eq
  intro i hi
  have hiw : i < w := Nat.lt_of_lt_of_le hi hw
  simp [blend, hi, hiw]

theorem blend_setWidth {w : Nat} (hw : n ≤ w) (mask data old : BitVec w) :
    (blend mask data old).setWidth n =
      blend (mask.setWidth n) (data.setWidth n) (old.setWidth n) := by
  apply BitVec.eq_of_getLsbD_eq
  intro i hi
  have hiw : i < w := Nat.lt_of_lt_of_le hi hw
  simp [blend, hi, hiw]

theorem blend_allOnes (data old : BitVec n) : blend (BitVec.allOnes n) data old = data := by
  apply BitVec.eq_of_getLsbD_eq
  intro i hi
  rw [getLsbD_blend, BitVec.getLsbD_allOnes, decide_eq_true hi, if_pos rfl]

/-- Bits the mask leaves out do not see the blending. -/
theorem blend_and {mask bits : BitVec n} (h : mask &&& bits = 0#n) (data old : BitVec n) :
    blend mask data old &&& bits = old &&& bits := by
  apply BitVec.eq_of_getLsbD_eq
  intro i hi
  have hbit := congrArg (BitVec.getLsbD · i) h
  simp only [BitVec.getLsbD_and, BitVec.getLsbD_zero] at hbit
  rw [BitVec.getLsbD_and, BitVec.getLsbD_and, getLsbD_blend]
  cases hm : mask.getLsbD i with
  | false => rfl
  | true =>
      rw [hm, Bool.true_and] at hbit
      rw [hbit, Bool.and_false, Bool.and_false]

/-- The bits outside the mask are kept. -/
theorem blend_and_not (mask data old : BitVec n) :
    blend mask data old &&& ~~~mask = old &&& ~~~mask :=
  blend_and (by simp) data old

/-- The later of two blends under one mask counts. -/
theorem blend_blend (mask data data' old : BitVec n) :
    blend mask data (blend mask data' old) = blend mask data old := by
  apply BitVec.eq_of_getLsbD_eq
  intro i _
  rw [getLsbD_blend, getLsbD_blend, getLsbD_blend]
  cases mask.getLsbD i <;> rfl

/-- Two blends are one under both masks. -/
theorem blend_blend_or (mask mask' data data' old : BitVec n) :
    blend mask' data' (blend mask data old) =
      blend (mask ||| mask') (blend mask' data' data) old := by
  apply BitVec.eq_of_getLsbD_eq
  intro i _
  rw [getLsbD_blend, getLsbD_blend, getLsbD_blend, getLsbD_blend, BitVec.getLsbD_or]
  cases mask.getLsbD i <;> cases mask'.getLsbD i <;> rfl

/-- Or-ing a field above bit `k` into the kept low bits is blending. -/
theorem or_shiftLeft_eq_blend (old x : BitVec n) (k : Nat) :
    old &&& ~~~(BitVec.allOnes n <<< k) ||| x <<< k =
      blend (BitVec.allOnes n <<< k) (x <<< k) old := by
  rw [blend, ← BitVec.shiftLeft_and_distrib, BitVec.and_allOnes, BitVec.or_comm]

/-! ## Signed ranges -/

/-- The signed numbers of `k` bits. -/
def InSigned (k : Nat) (v : BitVec n) : Prop :=
  -2 ^ (k - 1) ≤ v.toInt ∧ v.toInt < 2 ^ (k - 1)

instance (k : Nat) (v : BitVec n) : Decidable (InSigned k v) :=
  inferInstanceAs (Decidable (_ ∧ _))

theorem toInt_signExtend_setWidth {k : Nat} (hk : k ≤ n) (v : BitVec n) :
    ((v.setWidth k).signExtend n).toInt = v.toInt.bmod (2 ^ k) := by
  have hdvd : 2 ^ k ∣ 2 ^ n := Nat.pow_dvd_pow 2 hk
  rw [BitVec.toInt_signExtend_of_le hk, BitVec.toInt_setWidth, BitVec.toInt_eq_toNat_bmod,
    Int.bmod_bmod_of_dvd hdvd]

/-- **Exactly the numbers in range survive a field.** -/
theorem signExtend_setWidth_iff {k : Nat} (hpos : 0 < k) (hk : k ≤ n) (v : BitVec n) :
    (v.setWidth k).signExtend n = v ↔ InSigned k v := by
  have htwo : (2 : Nat) ^ k = 2 * 2 ^ (k - 1) := by
    rw [← pow_succ', Nat.sub_add_cancel hpos]
  have hhalf : (((2 ^ k : Nat) : Int) + 1) / 2 = 2 ^ (k - 1) := by
    rw [htwo]
    push_cast
    omega
  have hhalf' : ((2 ^ k : Nat) : Int) / 2 = 2 ^ (k - 1) := by
    rw [htwo]
    push_cast
    omega
  rw [← BitVec.toInt_inj, toInt_signExtend_setWidth hk, Int.bmod_eq_iff (by positivity),
    hhalf, hhalf', sub_self]
  simp [InSigned]

/-- The sum of two narrower signed numbers does not overflow. -/
theorem toInt_signExtend_add {a b : Nat} (ha : a < n) (hb : b < n) (x : BitVec a) (y : BitVec b) :
    (x.signExtend n + y.signExtend n).toInt = x.toInt + y.toInt := by
  have hx := BitVec.toInt_lt (x := x)
  have hx' := BitVec.le_toInt x
  have hy := BitVec.toInt_lt (x := y)
  have hy' := BitVec.le_toInt y
  have hpa : (2 : Int) ^ (a - 1) ≤ 2 ^ (n - 2) := pow_le_pow_right₀ (by decide) (by omega)
  have hpb : (2 : Int) ^ (b - 1) ≤ 2 ^ (n - 2) := pow_le_pow_right₀ (by decide) (by omega)
  rw [BitVec.toInt_add, BitVec.toInt_signExtend_of_le ha.le, BitVec.toInt_signExtend_of_le hb.le]
  obtain rfl | ⟨k, rfl⟩ : n = 1 ∨ ∃ k, n = k + 2 := by
    rcases n with _ | _ | k
    · omega
    · exact .inl rfl
    · exact .inr ⟨k, rfl⟩
  · -- both numbers have no bits at all
    obtain rfl : a = 0 := by omega
    obtain rfl : b = 0 := by omega
    rw [BitVec.toInt_zero_length, BitVec.toInt_zero_length]
    rfl
  · have hpow : (2 : Int) ^ (k + 2) = 4 * 2 ^ k := by rw [pow_add]; omega
    rw [Nat.add_sub_cancel] at hpa hpb
    apply Int.bmod_eq_of_le <;> push_cast <;> omega

/-! ## Powers of two -/

theorem toNat_sub_one {a : BitVec n} {k : Nat} (ha : a.toNat = 2 ^ k) :
    (a - 1#n).toNat = 2 ^ k - 1 := by
  have hlt := a.isLt
  have hpos : 0 < 2 ^ k := by positivity
  rw [ha] at hlt
  have hone : (1#n).toNat = 1 := by
    rw [BitVec.toNat_ofNat]
    exact Nat.mod_eq_of_lt (by omega)
  rw [BitVec.toNat_sub_of_le (by rw [BitVec.le_def, ha, hone]; omega), ha, hone]

/-- Clearing the low `k` bits rounds down to a multiple of `2 ^ k`. -/
theorem toNat_and_not_ones {ones : BitVec n} {k : Nat} (h : ones.toNat = 2 ^ k - 1) (x : BitVec n) :
    (x &&& ~~~ones).toNat = x.toNat / 2 ^ k * 2 ^ k := by
  have hsplit : x &&& ~~~ones = x >>> k <<< k := by
    apply BitVec.eq_of_getLsbD_eq
    intro i hi
    have hbit : ones.getLsbD i = decide (i < k) := by
      rw [BitVec.getLsbD, h, Nat.testBit_two_pow_sub_one]
    rw [BitVec.getLsbD_and, BitVec.getLsbD_not, hbit, BitVec.getLsbD_shiftLeft,
      BitVec.getLsbD_ushiftRight]
    by_cases hik : i < k
    · simp [hik]
    · simp [hi, hik, Nat.add_sub_cancel' (Nat.le_of_not_lt hik)]
  have hle : x.toNat / 2 ^ k * 2 ^ k ≤ x.toNat := Nat.div_mul_le_self _ _
  rw [hsplit, BitVec.toNat_shiftLeft, BitVec.toNat_ushiftRight, Nat.shiftLeft_eq,
    Nat.shiftRight_eq_div_pow, Nat.mod_eq_of_lt (Nat.lt_of_le_of_lt hle x.isLt)]

/-- Keeping the low `k` bits is the remainder. -/
theorem toNat_and_ones {ones : BitVec n} {k : Nat} (h : ones.toNat = 2 ^ k - 1) (x : BitVec n) :
    (x &&& ones).toNat = x.toNat % 2 ^ k := by
  rw [BitVec.toNat_and, h, Nat.and_two_pow_sub_one_eq_mod]

theorem toNat_ones_ushiftRight {ones : BitVec n} {k : Nat} (h : ones.toNat = 2 ^ k - 1) (i : Nat) :
    (ones >>> i).toNat = 2 ^ (k - i) - 1 := by
  rw [BitVec.toNat_ushiftRight, h]
  apply Nat.eq_of_testBit_eq
  intro j
  rw [Nat.testBit_shiftRight, Nat.testBit_two_pow_sub_one, Nat.testBit_two_pow_sub_one]
  exact decide_eq_decide.mpr (by omega)

/-- The same with the mask written as a power of two less one. -/
theorem toNat_and_not_sub_one {a : BitVec n} {k : Nat} (ha : a.toNat = 2 ^ k) (x : BitVec n) :
    (x &&& ~~~(a - 1#n)).toNat = x.toNat / 2 ^ k * 2 ^ k :=
  toNat_and_not_ones (toNat_sub_one ha) x

/-- Clearing one bit, which is set or not. -/
theorem toNat_and_not_bit {a : BitVec n} {k : Nat} (ha : a.toNat = 2 ^ k) (x : BitVec n) :
    (x &&& ~~~a).toNat = x.toNat ∨ (x &&& ~~~a).toNat + 2 ^ k = x.toNat := by
  have hbit : ∀ i, a.getLsbD i = decide (k = i) := fun i => by
    rw [BitVec.getLsbD, ha, Nat.testBit_two_pow]
  cases hx : x.getLsbD k with
  | false =>
      left
      congr 1
      apply BitVec.eq_of_getLsbD_eq
      intro i hi
      rw [BitVec.getLsbD_and, BitVec.getLsbD_not, hbit]
      rcases eq_or_ne k i with rfl | hne
      · rw [hx, Bool.false_and]
      · simp [hi, hne]
  | true =>
      right
      have hapart : (x &&& ~~~a) &&& a = 0#n := by
        rw [BitVec.and_assoc, BitVec.and_comm _ a, BitVec.and_not_self]
        exact BitVec.and_zero
      have hor : (x &&& ~~~a) ||| a = x := by
        apply BitVec.eq_of_getLsbD_eq
        intro i hi
        rw [BitVec.getLsbD_or, BitVec.getLsbD_and, BitVec.getLsbD_not, hbit]
        rcases eq_or_ne k i with rfl | hne
        · simp [hx]
        · simp [hi, hne]
      rw [← ha, ← BitVec.toNat_add_of_and_eq_zero hapart, BitVec.add_eq_or_of_and_eq_zero _ _ hapart,
        hor]

/-- The bit test for powers of two. -/
theorem exists_two_pow_of_and_sub_one {a : BitVec n} (hpos : 0 < a.toNat)
    (h : a &&& (a - 1#n) = 0#n) : ∃ k, a.toNat = 2 ^ k := by
  refine ⟨a.toNat.log2, ?_⟩
  by_contra hne
  have hlow : 2 ^ a.toNat.log2 ≤ a.toNat := Nat.log2_self_le (by omega)
  have hhigh : a.toNat < 2 ^ (a.toNat.log2 + 1) := Nat.lt_log2_self
  have hlt := a.isLt
  have hone : (1#n).toNat = 1 := by
    rw [BitVec.toNat_ofNat]
    exact Nat.mod_eq_of_lt (by omega)
  have hsub : (a - 1#n).toNat = a.toNat - 1 := by
    rw [BitVec.toNat_sub_of_le (by rw [BitVec.le_def, hone]; omega), hone]
  -- the highest bit is set in both numbers
  have hbit : ∀ x : Nat, 2 ^ a.toNat.log2 ≤ x → x < 2 ^ (a.toNat.log2 + 1) →
      x.testBit a.toNat.log2 = true := by
    intro x hx hx'
    have hdiv : x / 2 ^ a.toNat.log2 = 1 :=
      Nat.div_eq_of_lt_le (by omega) (by rw [pow_succ] at hx'; omega)
    rw [Nat.testBit_eq_decide_div_mod_eq, hdiv]
    rfl
  have hand := congrArg (BitVec.getLsbD · a.toNat.log2) h
  simp only [BitVec.getLsbD_and] at hand
  rw [BitVec.getLsbD, BitVec.getLsbD, hsub, hbit _ hlow hhigh, hbit _ (by omega) (by omega)] at hand
  simp at hand

end Instrew.Lib.Imm
