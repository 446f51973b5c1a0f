import Mathlib.Tactic

/-!
# Transfers in pieces

A number of bytes is moved by calls that may move fewer of them than asked for. The loop
(`transferAll`) asks again for the rest until everything is moved, and gives up at the first
call that fails or moves nothing. What the calls return is a sequence; a result may depend on
how much has been moved before it, as it does at the end of a file.

The loop moves everything exactly when positive counts come until everything is moved
(`transferAll_complete_iff`): a single failure on the way ends it, whatever would have come
afterwards.
-/

namespace Instrew.Lib.Transfer

/-- What one call returns: how much it has moved at most, or an error number. -/
inductive Res : Type where
  | count (n : Nat)
  | error (e : Nat)
deriving DecidableEq

/-- Something was moved. -/
def Res.Positive (r : Res) : Prop := ∃ k, r = .count (k + 1)

def Res.bytes : Res → Nat
  | .count n => n
  | .error _ => 0

/-- A call where no more than `left` is left. -/
def Res.upTo (r : Res) (left : Nat) : Res :=
  match r with
  | .count n => .count (min n left)
  | .error e => .error e

/-- The result of the loop. -/
structure Outcome : Type where
  ret : Int
  moved : Nat
  /-- The index of the next call. -/
  next : Nat
deriving DecidableEq

/-- The loop, with `total` moved before call `i`. `eof` is the error number for a call that
moves nothing. -/
def transferAll (res : Nat → Nat → Res) (eof nbytes total i : Nat) : Outcome :=
  if total < nbytes then
    match res total i with
    | .error e => ⟨-(e : Int), total, i + 1⟩
    | .count 0 => ⟨-(eof : Int), total, i + 1⟩
    | .count (k + 1) => transferAll res eof nbytes (total + min (k + 1) (nbytes - total)) (i + 1)
  else ⟨total, total, i⟩
termination_by nbytes - total

/-- The positive counts from call `i` on. -/
def delivered (script : Nat → Res) : Nat → Nat → Nat
  | _, 0 => 0
  | i, m + 1 => (script i).bytes + delivered script (i + 1) m

/-- Positive counts come from call `i` on until `n` bytes are moved. -/
def Delivers (script : Nat → Res) (i n : Nat) : Prop :=
  ∃ m, n ≤ delivered script i m ∧ ∀ j < m, (script (i + j)).Positive

section Spec

variable {res : Nat → Nat → Res} {script : Nat → Res} {eof nbytes total i : Nat}

/-- How the loop has ended: with everything moved, or by its last call. -/
inductive Ended (res : Nat → Nat → Res) (eof nbytes : Nat) (r : Outcome) : Prop where
  | complete : r.ret = nbytes → r.moved = nbytes → Ended res eof nbytes r
  | failed {j e : Nat} : r.moved < nbytes → r.next = j + 1 → res r.moved j = .error e →
      r.ret = -(e : Int) → Ended res eof nbytes r
  | stuck {j : Nat} : r.moved < nbytes → r.next = j + 1 → res r.moved j = .count 0 →
      r.ret = -(eof : Int) → Ended res eof nbytes r

theorem transferAll_nothing : transferAll res eof 0 0 i = ⟨0, 0, i⟩ := by
  rw [transferAll, if_neg (Nat.lt_irrefl 0), Nat.cast_zero]

theorem transferAll_first_error {e : Nat} (h : total < nbytes) (hres : res total i = .error e) :
    transferAll res eof nbytes total i = ⟨-(e : Int), total, i + 1⟩ := by
  rw [transferAll, if_pos h]
  simp only [hres]

theorem transferAll_ended (res : Nat → Nat → Res) (eof i : Nat) (h : total ≤ nbytes) :
    Ended res eof nbytes (transferAll res eof nbytes total i) := by
  fun_induction transferAll res eof nbytes total i with
  | case1 total i hlt e hres => exact .failed hlt rfl hres rfl
  | case2 total i hlt hres => exact .stuck hlt rfl hres rfl
  | case3 total i hlt k hres ih => exact ih (by omega)
  | case4 total i hge => exact .complete (by simp; omega) (by simp; omega)

theorem le_transferAll_next : i ≤ (transferAll res eof nbytes total i).next := by
  fun_induction transferAll res eof nbytes total i with
  | case1 | case2 => exact Nat.le_succ _
  | case3 total i hlt k hres ih => exact (Nat.le_succ i).trans ih
  | case4 => exact le_rfl

theorem lt_transferAll_next (h : total < nbytes) : i < (transferAll res eof nbytes total i).next := by
  rw [transferAll, if_pos h]
  split
  · exact Nat.lt_succ_self i
  · exact Nat.lt_succ_self i
  · exact le_transferAll_next

/-- No more is moved than there is. -/
theorem transferAll_moved_le {cap : Nat} (hres : ∀ t j n, res t j = .count n → n ≤ cap - t)
    (h : total ≤ cap) : (transferAll res eof nbytes total i).moved ≤ cap := by
  fun_induction transferAll res eof nbytes total i with
  | case1 | case2 | case4 => exact h
  | case3 total i hlt k hcount ih =>
      have := hres total i (k + 1) hcount
      exact ih (by omega)

/-- A loop that does not get to the end does not return the number of bytes. -/
theorem transferAll_ret_eq_iff (h : total ≤ nbytes) :
    (transferAll res eof nbytes total i).ret = nbytes ↔
      (transferAll res eof nbytes total i).moved = nbytes := by
  cases transferAll_ended res eof i h with
  | complete hret hmoved => exact iff_of_true hret hmoved
  | failed hlt _ _ hret | stuck hlt _ _ hret => exact iff_of_false (by omega) hlt.ne

/-- Every result used is a positive count, except the last one of a loop that fails. -/
theorem transferAll_used (script : Nat → Res) :
    ∀ j, i ≤ j → j < (transferAll (fun _ => script) eof nbytes total i).next →
      (script j).Positive ∨
        (transferAll (fun _ => script) eof nbytes total i).moved < nbytes := by
  fun_induction transferAll (fun _ => script) eof nbytes total i with
  | case1 total i hlt e hres | case2 total i hlt hres => exact fun j _ _ => .inr hlt
  | case3 total i hlt k hres ih =>
      intro j hij hj
      rcases Nat.eq_or_lt_of_le hij with rfl | hlt'
      · exact .inl ⟨k, hres⟩
      · exact ih j hlt' hj
  | case4 total i hge => exact fun j hij hj => absurd hj (Nat.not_lt.mpr hij)

theorem not_delivers_of_not_positive {n : Nat} (h : ¬ (script i).Positive) (hn : 0 < n) :
    ¬ Delivers script i n := by
  rintro ⟨m, hm, hpos⟩
  cases m with
  | zero =>
      rw [delivered] at hm
      omega
  | succ m => exact h (hpos 0 (Nat.succ_pos m))

/-- **The loop moves everything exactly when nothing interrupts the counts.** -/
theorem transferAll_complete_iff (script : Nat → Res) (eof : Nat) (h : total ≤ nbytes) :
    (transferAll (fun _ => script) eof nbytes total i).moved = nbytes ↔
      Delivers script i (nbytes - total) := by
  fun_induction transferAll (fun _ => script) eof nbytes total i with
  | case1 total i hlt e hres | case2 total i hlt hres =>
      refine iff_of_false hlt.ne (not_delivers_of_not_positive ?_ (Nat.sub_pos_of_lt hlt))
      rintro ⟨k, hk⟩
      cases hres.symm.trans hk
  | case3 total i hlt k hres ih =>
      have hbytes : (script i).bytes = k + 1 := by rw [hres]; rfl
      rw [ih (by omega)]
      constructor
      · rintro ⟨m, hm, hpos⟩
        refine ⟨m + 1, ?_, fun j hj => ?_⟩
        · rw [delivered, hbytes]
          omega
        · cases j with
          | zero => exact ⟨k, hres⟩
          | succ j =>
              have := hpos j (Nat.lt_of_succ_lt_succ hj)
              rwa [Nat.add_right_comm] at this
      · rintro ⟨m, hm, hpos⟩
        cases m with
        | zero =>
            rw [delivered] at hm
            omega
        | succ m =>
            refine ⟨m, ?_, fun j hj => ?_⟩
            · rw [delivered, hbytes] at hm
              omega
            · rw [Nat.add_right_comm]
              exact hpos (j + 1) (Nat.succ_lt_succ hj)
  | case4 total i hge =>
      exact iff_of_true (by simp; omega) ⟨0, by rw [delivered]; omega, fun j hj => nomatch hj⟩

/-! ### A source that ends -/

/-- The end does not matter to a loop that does not get there. -/
theorem transferAll_upTo_eq {cap : Nat} (script : Nat → Res) (hcap : nbytes ≤ cap) :
    transferAll (fun t j => (script j).upTo (cap - t)) eof nbytes total i =
      transferAll (fun _ => script) eof nbytes total i := by
  fun_induction transferAll (fun _ => script) eof nbytes total i with
  | case1 total i hlt e hres =>
      rw [transferAll, if_pos hlt]
      simp only [hres, Res.upTo]
  | case2 total i hlt hres =>
      rw [transferAll, if_pos hlt]
      simp only [hres, Res.upTo, Nat.zero_min]
  | case3 total i hlt k hres ih =>
      have hmin : min (k + 1) (cap - total) = min k (cap - total - 1) + 1 := by omega
      have hmoved : min (min k (cap - total - 1) + 1) (nbytes - total) =
          min (k + 1) (nbytes - total) := by
        omega
      rw [transferAll, if_pos hlt]
      simp only [hres, Res.upTo, hmin]
      rw [hmoved]
      exact ih
  | case4 total i hge => rw [transferAll, if_neg hge]

theorem transferAll_upTo_moved_le {cap : Nat} (script : Nat → Res) (eof nbytes i : Nat)
    (h : total ≤ cap) :
    (transferAll (fun t j => (script j).upTo (cap - t)) eof nbytes total i).moved ≤ cap := by
  refine transferAll_moved_le (fun t j n hcount => ?_) h
  cases hres : script j with
  | error e =>
      rw [hres] at hcount
      cases hcount
  | count m =>
      rw [hres] at hcount
      cases hcount
      exact min_le_right _ _

/-- **A source of `cap` bytes** has to be long enough, and nothing may interrupt the
counts. -/
theorem transferAll_upTo_complete_iff (script : Nat → Res) (eof cap nbytes i : Nat) :
    (transferAll (fun t j => (script j).upTo (cap - t)) eof nbytes 0 i).moved = nbytes ↔
      nbytes ≤ cap ∧ Delivers script i nbytes := by
  by_cases hcap : nbytes ≤ cap
  · rw [transferAll_upTo_eq script hcap, transferAll_complete_iff script eof (Nat.zero_le nbytes),
      Nat.sub_zero, and_iff_right hcap]
  · refine iff_of_false (fun hmoved => hcap ?_) fun h => hcap h.1
    have hle := transferAll_upTo_moved_le script eof nbytes i (Nat.zero_le cap)
    rwa [hmoved] at hle

end Spec

end Instrew.Lib.Transfer
