import Instrew.Basic

/-!
# Byte serialisation

Fixed-width little-endian integers (`le`, read back by `unle`) and lists of
self-delimiting records (`Delimited`). Both are injective, the second because a record
can be split off the front of any byte string in one way only.
-/

namespace Instrew.Lib.Bytes

/-- The `n` low bytes of `v`, least significant first. -/
def le : Nat → Nat → List Byte
  | 0, _ => []
  | n + 1, v => BitVec.ofNat 8 v :: le n (v / 256)

@[simp] theorem length_le : ∀ n v : Nat, (le n v).length = n
  | 0, _ => rfl
  | n + 1, v => by rw [le, List.length_cons, length_le n]

theorem le_add : ∀ n k v : Nat, le (n + k) v = le n v ++ le k (v / 256 ^ n)
  | 0, k, v => by rw [Nat.zero_add, le, List.nil_append, pow_zero, Nat.div_one]
  | n + 1, k, v => by
      rw [Nat.add_right_comm, le, le, le_add n k, Nat.div_div_eq_div_mul, ← pow_succ',
        List.cons_append]

/-- Only the bytes within the width count. -/
theorem le_congr : ∀ {n v w : Nat}, v % 256 ^ n = w % 256 ^ n → le n v = le n w
  | 0, _, _, _ => rfl
  | n + 1, v, w, h => by
      rw [pow_succ', Nat.mod_mul, Nat.mod_mul] at h
      have hhigh : v / 256 % 256 ^ n = w / 256 % 256 ^ n := by omega
      have hlow : BitVec.ofNat 8 v = BitVec.ofNat 8 w := by
        apply BitVec.eq_of_toNat_eq
        rw [BitVec.toNat_ofNat, BitVec.toNat_ofNat]
        omega
      rw [le, le, le_congr hhigh, hlow]

theorem le_inj : ∀ {n v w : Nat}, v < 256 ^ n → w < 256 ^ n → le n v = le n w → v = w
  | 0, v, w, hv, hw, _ => by
      rw [pow_zero] at hv hw
      omega
  | n + 1, v, w, hv, hw, h => by
      rw [pow_succ] at hv hw
      rw [le, le, List.cons.injEq] at h
      have hlow : v % 256 = w % 256 := by
        have hnat := congrArg BitVec.toNat h.1
        rwa [BitVec.toNat_ofNat, BitVec.toNat_ofNat] at hnat
      have hhigh : v / 256 = w / 256 := le_inj (by omega) (by omega) h.2
      omega

/-- A word of `8 * n` bits is determined by its bytes. -/
theorem le_toNat_inj {n k : Nat} (hk : 2 ^ k = 256 ^ n) {x y : BitVec k}
    (h : le n x.toNat = le n y.toNat) : x = y :=
  BitVec.eq_of_toNat_eq (le_inj (hk ▸ x.isLt) (hk ▸ y.isLt) h)

/-- The number of which these are the bytes, least significant first. -/
def unle : List Byte → Nat
  | [] => 0
  | b :: l => b.toNat + 256 * unle l

theorem unle_le : ∀ {n v : Nat}, v < 256 ^ n → unle (le n v) = v
  | 0, v, h => by
      rw [pow_zero] at h
      rw [le, unle]
      omega
  | n + 1, v, h => by
      rw [pow_succ] at h
      rw [le, unle, BitVec.toNat_ofNat, unle_le (n := n) (by omega)]
      omega

theorem ofNat_unle_le {n k : Nat} (hk : 2 ^ k = 256 ^ n) (x : BitVec k) :
    BitVec.ofNat k (unle (le n x.toNat)) = x := by
  rw [unle_le (hk ▸ x.isLt), BitVec.ofNat_toNat, BitVec.setWidth_eq]

section Records

variable {R α : Type} {enc : R → List α}

/-- The encoding of a record is not empty and can be split off in one way. -/
structure Delimited (enc : R → List α) : Prop where
  ne_nil : ∀ r, enc r ≠ []
  split : ∀ r r' t t', enc r ++ t = enc r' ++ t' → r = r' ∧ t = t'

/-- **Lists of self-delimiting records need no count and no terminator.** -/
theorem Delimited.flatMap_inj (h : Delimited enc) :
    ∀ {rs rs' : List R}, rs.flatMap enc = rs'.flatMap enc → rs = rs'
  | [], [], _ => rfl
  | [], r' :: rs', heq => by
      rw [List.flatMap_nil, List.flatMap_cons] at heq
      exact absurd (List.append_eq_nil_iff.mp heq.symm).1 (h.ne_nil r')
  | r :: rs, [], heq => by
      rw [List.flatMap_nil, List.flatMap_cons] at heq
      exact absurd (List.append_eq_nil_iff.mp heq).1 (h.ne_nil r)
  | r :: rs, r' :: rs', heq => by
      rw [List.flatMap_cons, List.flatMap_cons] at heq
      obtain ⟨rfl, hrest⟩ := h.split r r' _ _ heq
      rw [h.flatMap_inj hrest]

end Records

end Instrew.Lib.Bytes
