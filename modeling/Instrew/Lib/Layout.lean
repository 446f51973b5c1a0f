import Mathlib.Tactic

/-!
# Laying out pieces one behind the other

Pieces with a size and an alignment are placed at the next multiple of their alignment; an
alignment of 0 asks for nothing. The places are computed in the natural numbers: pieces do
not overlap (`start_add_size_le`) and end before the cursor (`start_add_size_le_cursor`).
-/

namespace Instrew.Lib.Layout

structure Piece : Type where
  size : Nat
  align : Nat
deriving DecidableEq

/-- The next multiple of `a`. -/
def roundUp (v a : Nat) : Nat := if a = 0 then v else (v + (a - 1)) / a * a

theorem le_roundUp (v a : Nat) : v ≤ roundUp v a := by
  rw [roundUp]
  split_ifs with ha
  · exact le_rfl
  · have hdm := Nat.div_add_mod (v + (a - 1)) a
    have hlt := Nat.mod_lt (v + (a - 1)) (Nat.pos_of_ne_zero ha)
    rw [Nat.mul_comm] at hdm
    omega

theorem dvd_roundUp (v : Nat) {a : Nat} (ha : a ≠ 0) : a ∣ roundUp v a := by
  rw [roundUp, if_neg ha]
  exact Nat.dvd_mul_left a _

theorem roundUp_le_of_dvd {v w a : Nat} (ha : a ∣ w) (h : v ≤ w) : roundUp v a ≤ w := by
  rw [roundUp]
  split_ifs with hzero
  · exact h
  · have hpos := Nat.pos_of_ne_zero hzero
    obtain ⟨c, rfl⟩ := ha
    rw [Nat.mul_comm a c]
    refine Nat.mul_le_mul_right a (Nat.lt_succ_iff.mp ((Nat.div_lt_iff_lt_mul hpos).mpr ?_))
    rw [Nat.succ_mul, Nat.mul_comm c a]
    omega

theorem roundUp_mono {v w : Nat} (a : Nat) (h : v ≤ w) : roundUp v a ≤ roundUp w a := by
  rcases Nat.eq_zero_or_pos a with rfl | hpos
  · exact h
  · exact roundUp_le_of_dvd (dvd_roundUp w hpos.ne') (h.trans (le_roundUp w a))

theorem lt_roundUp_iff {v a : Nat} (ha : a ≠ 0) : v < roundUp v a ↔ ¬ a ∣ v := by
  constructor
  · intro hlt hdvd
    exact absurd (roundUp_le_of_dvd hdvd le_rfl) (Nat.not_le.mpr hlt)
  · intro hdvd
    refine lt_of_le_of_ne (le_roundUp v a) fun heq => hdvd ?_
    rw [heq]
    exact dvd_roundUp v ha

/-- The multiple below `v` and the next one. -/
theorem div_mul_add_le {v w a : Nat} (ha : a ∣ w) (h : v < w) : v / a * a + a ≤ w := by
  obtain ⟨c, rfl⟩ := ha
  rw [← Nat.succ_mul, Nat.mul_comm a c]
  exact Nat.mul_le_mul_right a (Nat.div_lt_of_lt_mul h)

theorem add_roundUp {u a : Nat} (ha : a ∣ u) (v : Nat) : u + roundUp v a = roundUp (u + v) a := by
  rw [roundUp, roundUp]
  split_ifs with hzero
  · rfl
  · obtain ⟨c, rfl⟩ := ha
    rw [Nat.add_assoc, Nat.mul_add_div (Nat.pos_of_ne_zero hzero), Nat.add_mul, Nat.mul_comm c a]

@[simp] theorem roundUp_zero (a : Nat) : roundUp 0 a = 0 := by
  rw [roundUp]
  split_ifs with ha
  · rfl
  · rw [Nat.zero_add, Nat.div_eq_of_lt (by omega), Nat.zero_mul]

variable (pieces : Nat → Option Piece)

/-- Where the pieces before the `i`-th end. -/
def cursor : Nat → Nat
  | 0 => 0
  | i + 1 =>
      match pieces i with
      | none => cursor i
      | some p => roundUp (cursor i) p.align + p.size

variable {pieces} {i j n : Nat} {p q : Piece}

theorem cursor_none (h : pieces i = none) : cursor pieces (i + 1) = cursor pieces i := by
  rw [cursor, h]

theorem cursor_some (h : pieces i = some p) :
    cursor pieces (i + 1) = roundUp (cursor pieces i) p.align + p.size := by
  rw [cursor, h]

theorem cursor_le_succ (i : Nat) : cursor pieces i ≤ cursor pieces (i + 1) := by
  cases h : pieces i with
  | none => rw [cursor_none h]
  | some p =>
      rw [cursor_some h]
      exact Nat.le_add_right_of_le (le_roundUp _ _)

theorem cursor_mono (h : i ≤ j) : cursor pieces i ≤ cursor pieces j :=
  monotone_nat_of_le_succ cursor_le_succ h

/-- A piece ends before every later cursor. -/
theorem start_add_size_le_cursor (h : pieces i = some p) (hn : i < n) :
    roundUp (cursor pieces i) p.align + p.size ≤ cursor pieces n := by
  rw [← cursor_some h]
  exact cursor_mono hn

/-- A piece ends before every later piece starts. -/
theorem start_add_size_le (h : pieces i = some p) (hij : i < j) (q : Piece) :
    roundUp (cursor pieces i) p.align + p.size ≤ roundUp (cursor pieces j) q.align :=
  (start_add_size_le_cursor h hij).trans (le_roundUp _ _)

/-- The cursor does not move over empty pieces. -/
theorem cursor_eq_zero_iff :
    cursor pieces n = 0 ↔ ∀ i < n, ∀ p ∈ pieces i, p.size = 0 := by
  induction n with
  | zero => simp [cursor]
  | succ n ih =>
      rw [Nat.forall_lt_succ_right, ← ih]
      cases h : pieces n with
      | none =>
          rw [cursor_none h]
          simp
      | some p =>
          have hle := le_roundUp (cursor pieces n) p.align
          rw [cursor_some h]
          constructor
          · intro hzero
            refine ⟨by omega, ?_⟩
            rintro _ ⟨⟩
            omega
          · rintro ⟨hn, hp⟩
            rw [hn, roundUp_zero, hp p rfl]

end Instrew.Lib.Layout
