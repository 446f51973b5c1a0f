import Mathlib.Data.List.Forall2

/-!
# Programs that make requests

A program makes requests of type `E`, goes on with the answers of type `R`, and ends with a
result. A run is a program with a sequence of answers (`Prog.run`). Two programs that take
the same steps are compared on the programs themselves (`Prog.Sim`), which is as good as
comparing all their runs (`Prog.sim_iff_run`).
-/

namespace Instrew.Lib.Requests

inductive Prog (E R α : Type) : Type where
  | ret (a : α)
  | request (e : E) (k : R → Prog E R α)

variable {E R α β γ δ : Type}

namespace Prog

def bind (f : α → Prog E R β) : Prog E R α → Prog E R β
  | .ret a => f a
  | .request e k => .request e fun r => (k r).bind f

instance : Monad (Prog E R) where
  pure := .ret
  bind p f := p.bind f

/-- A single request. -/
def ask (e : E) : Prog E R R := .request e .ret

@[simp] theorem pure_eq (a : α) : (pure a : Prog E R α) = .ret a := rfl

@[simp] theorem ret_bind (a : α) (f : α → Prog E R β) : (Prog.ret a >>= f) = f a := rfl

@[simp] theorem request_bind (e : E) (k : R → Prog E R α) (f : α → Prog E R β) :
    (Prog.request e k >>= f) = .request e fun r => k r >>= f := rfl

@[simp] theorem ask_bind (e : E) (f : R → Prog E R β) : (ask e >>= f) = .request e f := rfl

/-- The requests that are made, and the result, if these are the answers. -/
def run : Prog E R α → (Nat → R) → List E × α
  | .ret a, _ => ([], a)
  | .request e k, answers =>
      let rest := (k (answers 0)).run fun n => answers (n + 1)
      (e :: rest.1, rest.2)

@[simp] theorem run_ret (a : α) (answers : Nat → R) : (ret a : Prog E R α).run answers = ([], a) :=
  rfl

/-- What a program does before it ends with a fixed result does not change that result. -/
@[simp] theorem run_bind_ret_snd (p : Prog E R α) (b : β) (answers : Nat → R) :
    ((p >>= fun _ => ret b).run answers).2 = b := by
  induction p generalizing answers with
  | ret a => rfl
  | request e k ih => exact ih (answers 0) fun n => answers (n + 1)

/-! ## Two programs -/

/-- The programs make related requests, whatever the answers, and come to related results. -/
def Sim (re : E → E → Prop) (ra : α → β → Prop) : Prog E R α → Prog E R β → Prop
  | .ret a, .ret b => ra a b
  | .request e k, .request e' k' => re e e' ∧ ∀ r, Sim re ra (k r) (k' r)
  | .ret _, .request _ _ | .request _ _, .ret _ => False

section Sim

variable {re : E → E → Prop} {ra : α → β → Prop} {rb : γ → δ → Prop}

theorem sim_refl (hre : ∀ e, re e e) {ra : α → α → Prop} (hra : ∀ a, ra a a) (p : Prog E R α) :
    Sim re ra p p := by
  induction p with
  | ret a => exact hra a
  | request e k ih => exact ⟨hre e, ih⟩

theorem Sim.bind {p : Prog E R α} {q : Prog E R β} {f : α → Prog E R γ} {g : β → Prog E R δ}
    (h : Sim re ra p q) (hfg : ∀ a b, ra a b → Sim re rb (f a) (g b)) :
    Sim re rb (p >>= f) (q >>= g) := by
  induction p generalizing q with
  | ret a =>
      cases q with
      | ret b => exact hfg a b h
      | request => exact h.elim
  | request e k ih =>
      cases q with
      | ret => exact h.elim
      | request e' k' => exact ⟨h.1, fun r => ih r (h.2 r)⟩

/-- A program that is run for its requests only, and then a result on either side. -/
theorem sim_bind_ret_iff [Nonempty R] (hre : ∀ e, re e e) {rb : β → γ → Prop} (p : Prog E R α)
    {b : β} {c : γ} : Sim re rb (p >>= fun _ => ret b) (p >>= fun _ => ret c) ↔ rb b c := by
  induction p with
  | ret a => exact Iff.rfl
  | request e k ih =>
      constructor
      · intro h
        obtain ⟨r⟩ := ‹Nonempty R›
        exact (ih r).mp (h.2 r)
      · exact fun h => ⟨hre e, fun r => (ih r).mpr h⟩

/-- **Comparing programs is comparing their runs.** -/
theorem sim_iff_run [Nonempty R] {p : Prog E R α} {q : Prog E R β} :
    Sim re ra p q ↔
      ∀ answers, List.Forall₂ re (p.run answers).1 (q.run answers).1 ∧
        ra (p.run answers).2 (q.run answers).2 := by
  obtain ⟨r₀⟩ := ‹Nonempty R›
  induction p generalizing q with
  | ret a =>
      cases q with
      | ret b => exact ⟨fun h _ => ⟨.nil, h⟩, fun h => (h fun _ => r₀).2⟩
      | request e k => exact ⟨False.elim, fun h => nomatch (h fun _ => r₀).1⟩
  | request e k ih =>
      cases q with
      | ret b => exact ⟨False.elim, fun h => nomatch (h fun _ => r₀).1⟩
      | request e' k' =>
          constructor
          · intro h answers
            have hrest := (ih (answers 0)).mp (h.2 (answers 0)) fun n => answers (n + 1)
            exact ⟨.cons h.1 hrest.1, hrest.2⟩
          · intro h
            refine ⟨(List.forall₂_cons.mp (h fun _ => r₀).1).1, fun r => (ih r).mpr fun answers => ?_⟩
            -- the answer `r` goes in front of the others
            have hrun := h fun n => Nat.casesOn n r answers
            exact ⟨(List.forall₂_cons.mp hrun.1).2, hrun.2⟩

end Sim

end Prog

end Instrew.Lib.Requests
