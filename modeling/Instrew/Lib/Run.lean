import Mathlib.Tactic

/-!
# Runs of a deterministic step function

A system is a step function `step : S → A → Option S`: the action `a` is
possible in `s` when the step is defined. A run is a list of actions. Two rules
turn what one step preserves into what a whole run preserves: `run_invariant`
for steps that always preserve it, `run_invariant_of` for runs whose steps all
meet a condition on the state before the step (`AllSteps`). A third,
`allSteps_iff`, compares two such conditions along a run, and a fourth, `run_simulates`,
turns steps that another system can do into runs of that system. A machine without input
takes `steps`.
-/

namespace Instrew.Lib.Run

variable {S A : Type} {step : S → A → Option S}

/-- The state after a list of actions. -/
def run (step : S → A → Option S) : S → List A → Option S
  | s, [] => some s
  | s, a :: as => (step s a).bind fun s' => run step s' as

/-- Every step of the run meets `ok`, a condition on the state before it and
its action. -/
def AllSteps (step : S → A → Option S) (ok : S → A → Prop) : S → List A → Prop
  | _, [] => True
  | s, a :: as => ok s a ∧ ∀ s', step s a = some s' → AllSteps step ok s' as

theorem run_cons {s s' : S} {a : A} {as : List A}
    (h : run step s (a :: as) = some s') :
    ∃ t, step s a = some t ∧ run step t as = some s' :=
  Option.bind_eq_some_iff.mp h

/-- A condition along a run is checked one step at a time. -/
theorem AllSteps.cons {ok : S → A → Prop} {s s' : S} {a : A} {as : List A}
    (hs : step s a = some s') (hok : ok s a) (h : AllSteps step ok s' as) :
    AllSteps step ok s (a :: as) := by
  refine ⟨hok, fun t ht => ?_⟩
  obtain rfl := Option.some.inj (hs.symm.trans ht)
  exact h

/-- A condition that can be checked can be checked along a run. -/
instance AllSteps.decidable {ok : S → A → Prop} [∀ s a, Decidable (ok s a)] :
    ∀ (as : List A) (s : S), Decidable (AllSteps step ok s as)
  | [], _ => .isTrue trivial
  | a :: as, s =>
      match h : step s a with
      | none => decidable_of_iff (ok s a) ⟨fun hok => ⟨hok, by simp [h]⟩, And.left⟩
      | some s' =>
          have : Decidable (AllSteps step ok s' as) := AllSteps.decidable as s'
          decidable_of_iff (ok s a ∧ AllSteps step ok s' as)
            ⟨fun hall => .cons h hall.1 hall.2, fun hall => ⟨hall.1, hall.2 s' h⟩⟩

/-- **The guarded run rule.** What every step meeting `ok` preserves holds at
the end of every run whose steps all meet `ok`. -/
theorem run_invariant_of {Inv : S → Prop} {ok : S → A → Prop}
    (hstep : ∀ s a s', Inv s → ok s a → step s a = some s' → Inv s') :
    ∀ (as : List A) {s s' : S}, Inv s → AllSteps step ok s as →
      run step s as = some s' → Inv s'
  | [], s, s', h, _, hrun => by
      cases hrun
      exact h
  | a :: as, s, s', h, hok, hrun => by
      obtain ⟨t, hs, hrest⟩ := run_cons hrun
      exact run_invariant_of hstep as (hstep s a t h hok.1 hs) (hok.2 t hs) hrest

theorem allSteps_true : ∀ (as : List A) (s : S), AllSteps step (fun _ _ => True) s as
  | [], _ => trivial
  | _ :: as, _ => ⟨trivial, fun s' _ => allSteps_true as s'⟩

/-- **The run rule.** What every step preserves holds at the end of every run. -/
theorem run_invariant {Inv : S → Prop}
    (hstep : ∀ s a s', Inv s → step s a = some s' → Inv s')
    (as : List A) {s s' : S} (h : Inv s) (hrun : run step s as = some s') : Inv s' :=
  run_invariant_of (fun s a s' hi _ hs => hstep s a s' hi hs) as h (allSteps_true as s) hrun

/-- **The exact run rule.** If in the states of an invariant a step is good exactly
when it meets `ok`, and steps that meet it keep the invariant, then a run is good
exactly when all its steps meet `ok`. -/
theorem allSteps_iff {Inv : S → Prop} {good ok : S → A → Prop}
    (hiff : ∀ s a, Inv s → (good s a ↔ ok s a))
    (hstep : ∀ s a s', Inv s → ok s a → step s a = some s' → Inv s') :
    ∀ (as : List A) {s : S}, Inv s → (AllSteps step good s as ↔ AllSteps step ok s as)
  | [], _, _ => Iff.rfl
  | a :: as, s, h => by
      rw [AllSteps, AllSteps, hiff s a h]
      refine and_congr_right (fun hok => ?_)
      exact forall₂_congr (fun s' hs => allSteps_iff hiff hstep as (hstep s a s' h hok hs))

/-- **The simulation rule.** If each step of a system, in the states of an invariant, is a
step of another one as `abs` sees it, or no step at all, then each run is a run of the other
one. -/
theorem run_simulates {S' A' : Type} {step' : S' → A' → Option S'} {abs : S → S'} {Inv : S → Prop}
    (hstep : ∀ s a s', Inv s → step s a = some s' →
      Inv s' ∧ (abs s' = abs s ∨ ∃ a', step' (abs s) a' = some (abs s'))) :
    ∀ (as : List A) {s s' : S}, Inv s → run step s as = some s' →
      Inv s' ∧ ∃ as', run step' (abs s) as' = some (abs s')
  | [], s, s', h, hrun => by
      cases hrun
      exact ⟨h, [], rfl⟩
  | a :: as, s, s', h, hrun => by
      obtain ⟨t, hs, hrest⟩ := run_cons hrun
      obtain ⟨ht, hsim⟩ := hstep s a t h hs
      obtain ⟨hs', as', hrun'⟩ := run_simulates hstep as ht hrest
      refine ⟨hs', ?_⟩
      rcases hsim with heq | ⟨a', ha'⟩
      · exact ⟨as', heq ▸ hrun'⟩
      · exact ⟨a' :: as', by rw [run, ha', Option.bind_some, hrun']⟩

/-! ## Machines without input -/

/-- The state after `n` steps. -/
def steps (next : S → Option S) : Nat → S → Option S
  | 0, s => some s
  | n + 1, s => (next s).bind (steps next n)

theorem steps_succ {next : S → Option S} {s s' : S} (h : next s = some s') (n : Nat) :
    steps next (n + 1) s = steps next n s' := by
  rw [steps, h, Option.bind_some]

theorem steps_add (next : S → Option S) : ∀ (n k : Nat) (s : S),
    steps next (n + k) s = (steps next n s).bind (steps next k)
  | 0, k, s => by rw [Nat.zero_add, steps, Option.bind_some]
  | n + 1, k, s => by
      rw [Nat.add_right_comm, steps, steps]
      cases next s with
      | none => rfl
      | some s' => exact steps_add next n k s'

end Instrew.Lib.Run
