import Mathlib.Data.List.Nodup
import Mathlib.Data.Finset.Card
import Mathlib.Tactic

/-!
# Worklists

A worklist that visits everything that can be reached from the items it starts with: an
item is taken from the queue, and those of its successors that have not been seen are
noted and queued. With as much fuel as there are items, what has been seen is closed
under successors (`close_closed`).
-/

namespace Instrew.Lib.Worklist

variable {α : Type} [DecidableEq α] {succ : α → List α}

/-- Note and queue what has not been seen. -/
def push (q seen : List α) : List α → List α × List α
  | [] => (q, seen)
  | x :: l => if x ∈ seen then push q seen l else push (x :: q) (x :: seen) l

def close (succ : α → List α) : Nat → List α → List α → List α
  | 0, _, seen => seen
  | _ + 1, [], seen => seen
  | n + 1, x :: q, seen =>
      close succ n (push q seen (succ x)).1 (push q seen (succ x)).2

section Push

variable (l q seen : List α)

attribute [local simp] push

theorem push_seen_subset : seen ⊆ (push q seen l).2 := by
  induction l generalizing q seen with
  | nil => simp
  | cons x l ih =>
      rw [push]
      split_ifs with hx
      · exact ih q seen
      · exact fun y hy => ih (x :: q) (x :: seen) (List.mem_cons_of_mem x hy)

theorem push_queue_subset : q ⊆ (push q seen l).1 := by
  induction l generalizing q seen with
  | nil => simp
  | cons x l ih =>
      rw [push]
      split_ifs with hx
      · exact ih q seen
      · exact fun y hy => ih (x :: q) (x :: seen) (List.mem_cons_of_mem x hy)

theorem subset_push_seen : l ⊆ (push q seen l).2 := by
  induction l generalizing q seen with
  | nil => exact List.nil_subset _
  | cons x l ih =>
      rw [push]
      split_ifs with hx
      · exact List.cons_subset.mpr ⟨push_seen_subset l q seen hx, ih q seen⟩
      · exact List.cons_subset.mpr ⟨push_seen_subset l (x :: q) (x :: seen) List.mem_cons_self,
          ih (x :: q) (x :: seen)⟩

/-- What is newly seen is queued, and comes from the list. -/
theorem mem_push_seen {y : α} (hy : y ∈ (push q seen l).2) :
    y ∈ seen ∨ (y ∈ (push q seen l).1 ∧ y ∈ l) := by
  induction l generalizing q seen with
  | nil => exact .inl hy
  | cons x l ih =>
      rw [push] at hy ⊢
      split_ifs at hy ⊢ with hx
      · exact (ih q seen hy).imp_right (fun h => ⟨h.1, List.mem_cons_of_mem x h.2⟩)
      · rcases ih (x :: q) (x :: seen) hy with hseen | hnew
        · rcases List.mem_cons.mp hseen with rfl | hseen
          · exact .inr ⟨push_queue_subset l (y :: q) (y :: seen) List.mem_cons_self,
              List.mem_cons_self⟩
          · exact .inl hseen
        · exact .inr ⟨hnew.1, List.mem_cons_of_mem x hnew.2⟩

theorem push_queued (h : q ⊆ seen) : (push q seen l).1 ⊆ (push q seen l).2 := by
  induction l generalizing q seen with
  | nil => simpa using h
  | cons x l ih =>
      rw [push]
      split_ifs with hx
      · exact ih q seen h
      · exact ih (x :: q) (x :: seen) (List.cons_subset_cons x h)

theorem push_nodup (h : seen.Nodup) : (push q seen l).2.Nodup := by
  induction l generalizing q seen with
  | nil => simpa using h
  | cons x l ih =>
      rw [push]
      split_ifs with hx
      · exact ih q seen h
      · exact ih (x :: q) (x :: seen) (List.nodup_cons.mpr ⟨hx, h⟩)

/-- Queue and seen items grow by the same items. -/
theorem push_length :
    (push q seen l).1.length + seen.length = (push q seen l).2.length + q.length := by
  induction l generalizing q seen with
  | nil => simp [Nat.add_comm]
  | cons x l ih =>
      rw [push]
      split_ifs with hx
      · exact ih q seen
      · have h := ih (x :: q) (x :: seen)
        rw [List.length_cons, List.length_cons] at h
        omega

end Push

/-- What holds while the list is worked off: what has been seen lies in `univ`, and is
queued or has its successors seen. -/
structure Inv (succ : α → List α) (univ q seen : List α) : Prop where
  nodup : seen.Nodup
  queued : q ⊆ seen
  subset : seen ⊆ univ
  closed : ∀ x ∈ seen, x ∈ q ∨ succ x ⊆ seen

/-- One item is taken from the queue. -/
theorem Inv.step {univ : List α} {x : α} {q seen : List α} (hsucc : succ x ⊆ univ)
    (h : Inv succ univ (x :: q) seen) :
    Inv succ univ (push q seen (succ x)).1 (push q seen (succ x)).2 where
  nodup := push_nodup _ _ _ h.nodup
  queued := push_queued _ _ _ (List.cons_subset.mp h.queued).2
  subset := by
    intro y hy
    rcases mem_push_seen _ _ _ hy with hseen | hnew
    · exact h.subset hseen
    · exact hsucc hnew.2
  closed := by
    intro y hy
    rcases mem_push_seen _ _ _ hy with hseen | hnew
    · rcases h.closed y hseen with hq | hold
      · rcases List.mem_cons.mp hq with rfl | hq
        · exact .inr (subset_push_seen _ _ _)
        · exact .inl (push_queue_subset _ _ _ hq)
      · exact .inr (fun z hz => push_seen_subset _ _ _ (hold hz))
    · exact .inl hnew.1

theorem seen_subset_close : ∀ (n : Nat) (q seen : List α), seen ⊆ close succ n q seen
  | 0, _, _ => List.Subset.refl _
  | _ + 1, [], _ => List.Subset.refl _
  | n + 1, x :: q, seen => by
      rw [close]
      exact List.Subset.trans (push_seen_subset _ _ _) (seen_subset_close n _ _)

/-- **The worklist computes a closed set.** Each step uses one unit of fuel and takes one
item for good, so `univ.length` units are enough for an empty queue. -/
theorem close_closed {univ : List α} (hsucc : ∀ x ∈ univ, succ x ⊆ univ) :
    ∀ (n : Nat) {q seen : List α}, Inv succ univ q seen →
      univ.length + q.length ≤ n + seen.length →
      ∀ x ∈ close succ n q seen, succ x ⊆ close succ n q seen
  | 0, q, seen, h, hfuel => by
      have hle : seen.length ≤ univ.length := h.nodup.subperm h.subset |>.length_le
      have hq : q = [] := List.eq_nil_of_length_eq_zero (by omega)
      intro x hx
      rw [close] at hx ⊢
      exact (h.closed x hx).resolve_left (by rw [hq]; exact List.not_mem_nil)
  | n + 1, [], seen, h, _ => by
      intro x hx
      exact (h.closed x hx).resolve_left List.not_mem_nil
  | n + 1, x :: q, seen, h, hfuel => by
      have hx : x ∈ univ := h.subset (h.queued List.mem_cons_self)
      have hlen := push_length (succ x) q seen
      rw [List.length_cons] at hfuel
      exact close_closed hsucc n (h.step (hsucc x hx)) (by omega)

end Instrew.Lib.Worklist
