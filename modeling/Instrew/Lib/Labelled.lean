import Mathlib.Tactic

/-!
# Program texts with labels

A text is a list of blocks of instructions, each under a label, in the order in which
control falls from one block into the next. An instruction changes the state and says where
control goes from it.

`run` executes a text with a bound on the number of blocks entered. `Ends` is total
correctness from a label: some bound suffices, and the state at the return meets the
postcondition. There is one rule for each way to leave a block and one for loops.
-/

namespace Instrew.Lib.Labelled

/-- Where control goes after an instruction. -/
inductive Next (L : Type) : Type where
  | fall
  | goto (l : L)
  | ret

abbrev Text (L I : Type) : Type := List (L × List I)

variable {L I S : Type} [DecidableEq L]

/-- The block under a label. -/
def Text.body (p : Text L I) (l : L) : List I := (p.lookup l).getD []

/-- The label of the next block of the text. -/
def Text.after : Text L I → L → Option L
  | [], _ => none
  | (l, _) :: p, k => if l = k then p.head?.map Prod.fst else Text.after p k

/-- Execute the instructions of a block, up to the first that does not fall through. -/
def runBlock (exec : S → I → S × Next L) : List I → S → S × Next L
  | [], s => (s, .fall)
  | i :: is, s =>
      match exec s i with
      | (s', .fall) => runBlock exec is s'
      | (s', .goto l) => (s', .goto l)
      | (s', .ret) => (s', .ret)

/-- Enter at most the given number of blocks; `none` when they do not suffice, or when
control falls out of the text. -/
def run (exec : S → I → S × Next L) (p : Text L I) : Nat → L → S → Option S
  | 0, _, _ => none
  | n + 1, l, s =>
      match runBlock exec (p.body l) s with
      | (s', .ret) => some s'
      | (s', .goto l') => run exec p n l' s'
      | (s', .fall) => (p.after l).bind (fun l' => run exec p n l' s')

/-- From the label `l` and the state `s`, the text returns, in a state that meets `Q`. -/
def Ends (exec : S → I → S × Next L) (p : Text L I) (l : L) (s : S) (Q : S → Prop) : Prop :=
  ∃ n s', run exec p n l s = some s' ∧ Q s'

variable {exec : S → I → S × Next L} {p : Text L I} {l l' : L} {s s' : S} {Q Q' : S → Prop}

theorem Ends.mono (h : Ends exec p l s Q) (hQ : ∀ s', Q s' → Q' s') : Ends exec p l s Q' := by
  obtain ⟨n, s', hrun, hs'⟩ := h
  exact ⟨n, s', hrun, hQ s' hs'⟩

/-- What is left to show when a block is left. -/
def Leaves (exec : S → I → S × Next L) (p : Text L I) (l : L) (Q : S → Prop) : S × Next L → Prop
  | (s, .ret) => Q s
  | (s, .goto l') => Ends exec p l' s Q
  | (s, .fall) => ∃ l', p.after l = some l' ∧ Ends exec p l' s Q

/-- The same from the middle of a block, with the instructions `is` to come. -/
def Rest (exec : S → I → S × Next L) (p : Text L I) (l : L) (Q : S → Prop) (is : List I) (s : S) :
    Prop :=
  Leaves exec p l Q (runBlock exec is s)

/-- **The rule for blocks.** -/
theorem Ends.enter (h : Rest exec p l Q (p.body l) s) : Ends exec p l s Q := by
  unfold Rest at h
  generalize hrun : runBlock exec (p.body l) s = r at h
  rcases r with ⟨s', next⟩
  cases next with
  | ret =>
      refine ⟨1, s', ?_, h⟩
      rw [run, hrun]
  | goto l' =>
      obtain ⟨n, s'', hn, hQ⟩ := h
      refine ⟨n + 1, s'', ?_, hQ⟩
      rw [run, hrun]
      exact hn
  | fall =>
      obtain ⟨l', hafter, n, s'', hn, hQ⟩ := h
      refine ⟨n + 1, s'', ?_, hQ⟩
      rw [run, hrun]
      simp only [hafter, Option.bind_some]
      exact hn

section Rules

variable {i : I} {is : List I}

/-- An instruction after which control falls through. -/
theorem Rest.next (h : (exec s i).2 = .fall) (hrest : Rest exec p l Q is (exec s i).1) :
    Rest exec p l Q (i :: is) s := by
  unfold Rest runBlock
  generalize exec s i = r at h hrest
  rcases r with ⟨s', next⟩
  obtain rfl := h
  exact hrest

theorem Rest.jump (h : (exec s i).2 = .goto l') (hrest : Ends exec p l' (exec s i).1 Q) :
    Rest exec p l Q (i :: is) s := by
  unfold Rest runBlock
  generalize exec s i = r at h hrest
  rcases r with ⟨s', next⟩
  obtain rfl := h
  exact hrest

theorem Rest.ret (h : (exec s i).2 = .ret) (hQ : Q (exec s i).1) : Rest exec p l Q (i :: is) s := by
  unfold Rest runBlock
  generalize exec s i = r at h hQ
  rcases r with ⟨s', next⟩
  obtain rfl := h
  exact hQ

theorem Rest.fall (hafter : p.after l = some l') (hrest : Ends exec p l' s Q) :
    Rest exec p l Q [] s := ⟨l', hafter, hrest⟩

end Rules

/-- **The rule for loops**: a label may be entered again where the invariant holds and the
variant has decreased. -/
theorem ends_of_loop {Inv : S → Prop} (variant : S → Nat)
    (hround : ∀ s, Inv s → (∀ s', Inv s' → variant s' < variant s → Ends exec p l s' Q) →
      Ends exec p l s Q) :
    ∀ s, Inv s → Ends exec p l s Q := by
  intro s
  induction hv : variant s using Nat.strong_induction_on generalizing s with
  | _ n ih =>
      intro hs
      exact hround s hs (fun s' hs' hlt => ih (variant s') (hv ▸ hlt) s' rfl hs')

end Instrew.Lib.Labelled
