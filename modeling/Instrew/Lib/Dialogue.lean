import Mathlib.Tactic

/-!
# Programs that talk over streams

A program writes to one stream and reads from another (`Prog`); a write or a read
may go through in any number of pieces (`Prog.step`). Two programs connected by two
streams are followed in terms of what they do with all the input they will get
(`Reaches`): a state is right if, with each one's output as the other's input, they
come to rest in a wanted state (`Meets`). Moving any piece of data keeps that
(`Meets.step_left`, `Meets.step_right`), so that only the points where a program is at
rest, and the environment decides what it does next, are left to the protocol.
-/

namespace Instrew.Lib.Dialogue

/-- A program over streams of `T` up to a result `α`. `recvOnce` is a read that is not
repeated when it yields less than asked for; `fail` is a broken assertion. -/
inductive Prog (T α : Type) : Type where
  | ret (a : α)
  | send (l : List T) (k : Prog T α)
  | recv (n : Nat) (k : List T → Prog T α)
  | recvOnce (n : Nat) (k : List T → Prog T α)
  | fail

variable {T α β : Type}

def Prog.bind (f : α → Prog T β) : Prog T α → Prog T β
  | .ret a => f a
  | .send l k => .send l (k.bind f)
  | .recv n k => .recv n (fun l => (k l).bind f)
  | .recvOnce n k => .recvOnce n (fun l => (k l).bind f)
  | .fail => .fail

instance : Monad (Prog T) where
  pure := .ret
  bind p f := p.bind f

@[simp] theorem pure_eq (a : α) : (pure a : Prog T α) = .ret a := rfl

@[simp] theorem ret_bind (a : α) (f : α → Prog T β) : (Prog.ret a >>= f) = f a := rfl

@[simp] theorem send_bind (l : List T) (k : Prog T α) (f : α → Prog T β) :
    (Prog.send l k >>= f) = .send l (k >>= f) := rfl

@[simp] theorem recv_bind (n : Nat) (k : List T → Prog T α) (f : α → Prog T β) :
    (Prog.recv n k >>= f) = .recv n (fun l => k l >>= f) := rfl

@[simp] theorem recvOnce_bind (n : Nat) (k : List T → Prog T α) (f : α → Prog T β) :
    (Prog.recvOnce n k >>= f) = .recvOnce n (fun l => k l >>= f) := rfl

/-- Move a piece of `n` items; `cont` says with which program one that has a result goes
on by itself. The result is the program, its remaining input and its new output. -/
def Prog.step (cont : α → Option (Prog T α)) (n : Nat) (i : List T) :
    Prog T α → Option (Prog T α × List T × List T)
  | .ret a => (cont a).map (fun p => (p, i, []))
  | .send l k =>
      if n < l.length then if n = 0 then none else some (.send (l.drop n) k, i, l.take n)
      else if n = l.length then some (k, i, l) else none
  | .recv m k =>
      if i.length < n then none
      else if n < m then
        if n = 0 then none else some (.recv (m - n) (fun l => k (i.take n ++ l)), i.drop n, [])
      else if n = m then some (k (i.take n), i.drop n, []) else none
  | .recvOnce m k =>
      if i.length < n ∨ m < n ∨ (n = 0 ∧ m ≠ 0) then none else some (k (i.take n), i.drop n, [])
  | .fail => none

/-- A piece of `n` items is all that a single read asks for. -/
def Prog.Whole (n : Nat) : Prog T α → Prop
  | .recvOnce m _ => n = m
  | .ret _ | .send _ _ | .recv _ _ | .fail => True

instance (n : Nat) : ∀ p : Prog T α, Decidable (p.Whole n)
  | .recvOnce m _ => inferInstanceAs (Decidable (n = m))
  | .ret _ | .send _ _ | .recv _ _ | .fail => .isTrue trivial

/-- With the input `i`, and any number of steps, the program writes `o`, becomes `p'` and
leaves `r` of the input. -/
inductive Reaches (cont : α → Option (Prog T α)) :
    Prog T α → List T → List T → Prog T α → List T → Prop where
  | refl (p : Prog T α) (i : List T) : Reaches cont p i [] p i
  | send {l : List T} {k : Prog T α} {i o r : List T} {p' : Prog T α} :
      Reaches cont k i o p' r → Reaches cont (.send l k) i (l ++ o) p' r
  | recv {n : Nat} {k : List T → Prog T α} {l i o r : List T} {p' : Prog T α} :
      l.length = n → Reaches cont (k l) i o p' r → Reaches cont (.recv n k) (l ++ i) o p' r
  | recvOnce {n : Nat} {k : List T → Prog T α} {l i o r : List T} {p' : Prog T α} :
      l.length = n → Reaches cont (k l) i o p' r → Reaches cont (.recvOnce n k) (l ++ i) o p' r
  | cont {a : α} {p p' : Prog T α} {i o r : List T} :
      cont a = some p → Reaches cont p i o p' r → Reaches cont (.ret a) i o p' r

/-- The program is at rest: it has a result that it does not go on from by itself, or it
waits for input and there is none. -/
def AtRest (cont : α → Option (Prog T α)) (p : Prog T α) (i : List T) : Prop :=
  match p with
  | .ret a => cont a = none
  | .recv n _ | .recvOnce n _ => 0 < n ∧ i = []
  | .send _ _ | .fail => False

/-- The next thing the program does is to wait for input. -/
def Prog.Waits : Prog T α → Prop
  | .recv n _ | .recvOnce n _ => 0 < n
  | .ret _ | .send _ _ | .fail => False

theorem Prog.Waits.bind {p : Prog T α} (h : p.Waits) (f : α → Prog T β) : (p >>= f).Waits := by
  cases p with
  | recv | recvOnce => exact h
  | ret | send | fail => exact h.elim

variable {cont : α → Option (Prog T α)} {p p' p'' q : Prog T α} {i o r : List T}

theorem Prog.Waits.ne_ret (h : p.Waits) (a : α) : Prog.ret a ≠ p := by
  rintro rfl
  exact h

theorem Prog.Waits.atRest (h : p.Waits) : AtRest cont p [] := by
  cases p with
  | recv | recvOnce => exact ⟨h, rfl⟩
  | ret | send | fail => exact h.elim

theorem Reaches.trans {i2 o2 r2 : List T} (h : Reaches cont p i o p' r)
    (h2 : Reaches cont p' (r ++ i2) o2 p'' r2) : Reaches cont p (i ++ i2) (o ++ o2) p'' r2 := by
  induction h with
  | refl => exact h2
  | send _ ih =>
      rw [List.append_assoc]
      exact .send (ih h2)
  | recv hl _ ih =>
      rw [List.append_assoc]
      exact .recv hl (ih h2)
  | recvOnce hl _ ih =>
      rw [List.append_assoc]
      exact .recvOnce hl (ih h2)
  | cont ha _ ih => exact .cont ha (ih h2)

/-- At rest, nothing that is there of the input allows a step. -/
theorem AtRest.step_eq_none {future : List T} (h : AtRest cont p (i ++ future)) (n : Nat) :
    p.step cont n i = none := by
  cases p with
  | ret a =>
      rw [Prog.step, show cont a = none from h]
      rfl
  | send | fail => exact h.elim
  | recv m k =>
      obtain ⟨hm, hnil⟩ := h
      obtain rfl := (List.append_eq_nil_iff.mp hnil).1
      simp only [Prog.step, List.length_nil]
      split_ifs <;> first | rfl | omega
  | recvOnce m k =>
      obtain ⟨hm, hnil⟩ := h
      obtain rfl := (List.append_eq_nil_iff.mp hnil).1
      simp only [Prog.step, List.length_nil]
      split_ifs <;> first | rfl | omega

/-- Where the input is cut does not matter to a front piece of it. -/
private theorem take_drop_of_append {n : Nat} {l rest future : List T}
    (h : l ++ rest = i ++ future) (hl : n ≤ l.length) (hi : n ≤ i.length) :
    i.take n = l.take n ∧ i.drop n ++ future = l.drop n ++ rest := by
  constructor
  · have htake := congrArg (List.take n) h
    rw [List.take_append_of_le_length hl, List.take_append_of_le_length hi] at htake
    exact htake.symm
  · rw [← List.drop_append_of_le_length hi, ← h, List.drop_append_of_le_length hl]

/-- **Pieces do not matter.** A program that comes to rest still does, with the same
remaining output, after a step on the part of its input that is already there. A single
read must have been whole. -/
theorem Reaches.step {n : Nat} {i' o' future : List T}
    (h : Reaches cont p (i ++ future) o p' r) (hrest : AtRest cont p' r)
    (hstep : p.step cont n i = some (q, i', o')) (hwhole : p.Whole n) :
    ∃ o2, o = o' ++ o2 ∧ Reaches cont q (i' ++ future) o2 p' r := by
  generalize hinput : i ++ future = input at h
  cases h with
  | refl =>
      subst hinput
      rw [hrest.step_eq_none n] at hstep
      cases hstep
  | @send l k _ o2 _ _ h =>
      subst hinput
      simp only [Prog.step] at hstep
      split_ifs at hstep with hlt h0 heq
      · cases hstep
        refine ⟨l.drop n ++ o2, ?_, .send h⟩
        rw [← List.append_assoc, List.take_append_drop]
      · cases hstep
        exact ⟨o2, rfl, h⟩
  | @recv m k l i0 _ _ _ hl h =>
      subst hl
      simp only [Prog.step] at hstep
      split_ifs at hstep with hshort hlt h0 heq
      · cases hstep
        obtain ⟨htake, hdrop⟩ := take_drop_of_append hinput.symm hlt.le (not_lt.mp hshort)
        refine ⟨o, rfl, ?_⟩
        rw [hdrop]
        refine .recv List.length_drop ?_
        rwa [htake, List.take_append_drop]
      · cases hstep
        obtain ⟨htake, hdrop⟩ := take_drop_of_append hinput.symm heq.le (not_lt.mp hshort)
        refine ⟨o, rfl, ?_⟩
        rwa [hdrop, htake, heq, List.take_length, List.drop_length, List.nil_append]
  | @recvOnce m k l i0 _ _ _ hl h =>
      subst hl
      obtain rfl : n = l.length := hwhole
      simp only [Prog.step] at hstep
      split_ifs at hstep with hshort
      cases hstep
      push Not at hshort
      obtain ⟨htake, hdrop⟩ := take_drop_of_append hinput.symm le_rfl hshort.1
      refine ⟨o, rfl, ?_⟩
      rwa [hdrop, htake, List.take_length, List.drop_length, List.nil_append]
  | @cont a p2 _ _ _ _ ha h =>
      subst hinput
      rw [Prog.step, ha] at hstep
      cases hstep
      exact ⟨o, rfl, h⟩

/-- From a result that the program does not go on from, it goes nowhere. -/
theorem Reaches.of_ret {a : α} (h : Reaches cont (.ret a) i o p' r) (ha : cont a = none) :
    p' = .ret a ∧ o = [] ∧ r = i := by
  cases h with
  | refl => exact ⟨rfl, rfl, rfl⟩
  | cont hc _ => rw [ha] at hc; cases hc

theorem Reaches.of_fail (h : Reaches cont .fail i o p' r) : p' = .fail := by
  cases h
  rfl

/-! ## A part of a program -/

/-- The program reads all of `i`, writes `o` and has the result `a`. -/
def Runs (p : Prog T α) (i o : List T) (a : α) : Prop := Reaches (fun _ => none) p i o (.ret a) []

theorem Runs.ret (a : α) : Runs (.ret a : Prog T α) [] [] a := .refl _ _

theorem Runs.send (l : List T) (a : α) : Runs (.send l (.ret a)) [] l a := by
  have h := Reaches.send (l := l) (Runs.ret a)
  rwa [List.append_nil] at h

/-- A program goes on with what follows the result of its first part. -/
theorem Runs.reaches {p : Prog T α} {a : α} {cont : β → Option (Prog T β)} {f : α → Prog T β}
    {q : Prog T β} {i2 o2 : List T} (h : Runs p i o a) (h2 : Reaches cont (f a) i2 o2 q r) :
    Reaches cont (p >>= f) (i ++ i2) (o ++ o2) q r := by
  unfold Runs at h
  generalize hret : Prog.ret a = p', hnil : ([] : List T) = r' at h
  induction h with
  | refl =>
      subst hret hnil
      exact h2
  | send _ ih =>
      rw [send_bind, List.append_assoc]
      exact .send (ih hret hnil)
  | recv hl _ ih =>
      rw [recv_bind, List.append_assoc]
      exact .recv hl (ih hret hnil)
  | recvOnce hl _ ih =>
      rw [recvOnce_bind, List.append_assoc]
      exact .recvOnce hl (ih hret hnil)
  | cont ha => cases ha

/-- What runs to a result does so whatever would follow. -/
theorem Runs.reaches_ret {a : α} (h : Runs p i o a) : Reaches cont p i o (.ret a) [] := by
  unfold Runs at h
  generalize hret : Prog.ret a = p', hnil : ([] : List T) = r' at h
  induction h with
  | refl => exact .refl _ _
  | send _ ih => exact .send (ih hret hnil)
  | recv hl _ ih => exact .recv hl (ih hret hnil)
  | recvOnce hl _ ih => exact .recvOnce hl (ih hret hnil)
  | cont ha => cases ha

/-- What is not read is left. -/
theorem Runs.leaves {a : α} (h : Runs p i o a) (more : List T) :
    Reaches cont p (i ++ more) o (.ret a) more := by
  have hrest : Reaches cont (.ret a) ([] ++ more) [] (.ret a) more := .refl _ _
  have htrans := h.reaches_ret.trans hrest
  rwa [List.append_nil] at htrans

/-- The program goes on from its result by itself. -/
theorem Runs.goes_on {a : α} (h : Runs p i o a) (ha : cont a = some q) :
    Reaches cont p i o q [] := by
  have htrans := h.reaches_ret.trans (Reaches.cont (i := [] ++ []) ha (.refl _ _))
  rwa [List.append_nil, List.append_nil] at htrans

theorem Runs.bind {p : Prog T α} {a : α} {f : α → Prog T β} {b : β} {i2 o2 : List T}
    (h : Runs p i o a) (h2 : Runs (f a) i2 o2 b) : Runs (p >>= f) (i ++ i2) (o ++ o2) b :=
  h.reaches h2

/-- A first part that only reads. -/
theorem Runs.bind_read {p : Prog T α} {a : α} {f : α → Prog T β} {b : β} {i2 : List T}
    (h : Runs p i [] a) (h2 : Runs (f a) i2 o b) : Runs (p >>= f) (i ++ i2) o b :=
  h.bind h2

/-- A first part that only writes. -/
theorem Runs.bind_write {p : Prog T α} {a : α} {f : α → Prog T β} {b : β} {o2 : List T}
    (h : Runs p [] o a) (h2 : Runs (f a) i o2 b) : Runs (p >>= f) i (o ++ o2) b :=
  h.bind h2

theorem Runs.map {p : Prog T α} {a : α} (h : Runs p i o a) (f : α → β) :
    Runs (p >>= fun x => .ret (f x)) i o (f a) := by
  simpa only [List.append_nil] using h.bind (f := fun x => .ret (f x)) (.ret (f a))

/-! ## Two programs -/

section Pair

variable {β : Type} {contL : α → Option (Prog T α)} {contR : β → Option (Prog T β)}
variable {goal : Prog T α → List T → Prog T β → List T → Prop}
variable {l l' : Prog T α} {rt rt' : Prog T β} {toL toR : List T}

/-- With what is on the way to each and what they will write to each other, the two
programs come to rest in a state of `goal`. -/
def Meets (contL : α → Option (Prog T α)) (contR : β → Option (Prog T β))
    (goal : Prog T α → List T → Prog T β → List T → Prop)
    (l : Prog T α) (toL : List T) (rt : Prog T β) (toR : List T) : Prop :=
  ∃ outL outR l' restL rt' restR,
    Reaches contL l (toL ++ outR) outL l' restL ∧ Reaches contR rt (toR ++ outL) outR rt' restR ∧
      AtRest contL l' restL ∧ AtRest contR rt' restR ∧ goal l' restL rt' restR

theorem Meets.step_left {n : Nat} {i' o' : List T} (h : Meets contL contR goal l toL rt toR)
    (hstep : l.step contL n toL = some (l', i', o')) (hwhole : l.Whole n) :
    Meets contL contR goal l' i' rt (toR ++ o') := by
  obtain ⟨outL, outR, l2, restL, rt2, restR, hl, hr, hrestl, hrestr, hgoal⟩ := h
  obtain ⟨o2, rfl, hl2⟩ := hl.step hrestl hstep hwhole
  refine ⟨o2, outR, l2, restL, rt2, restR, hl2, ?_, hrestl, hrestr, hgoal⟩
  rwa [List.append_assoc]

theorem Meets.symm (h : Meets contL contR goal l toL rt toR) :
    Meets contR contL (fun r ir l il => goal l il r ir) rt toR l toL := by
  obtain ⟨outL, outR, l2, restL, rt2, restR, hl, hr, hrestl, hrestr, hgoal⟩ := h
  exact ⟨outR, outL, rt2, restR, l2, restL, hr, hl, hrestr, hrestl, hgoal⟩

theorem Meets.step_right {n : Nat} {i' o' : List T} (h : Meets contL contR goal l toL rt toR)
    (hstep : rt.step contR n toR = some (rt', i', o')) (hwhole : rt.Whole n) :
    Meets contL contR goal l (toL ++ o') rt' i' :=
  (h.symm.step_left hstep hwhole).symm

theorem Meets.left_ne_fail (h : Meets contL contR goal l toL rt toR) : l ≠ .fail := by
  rintro rfl
  obtain ⟨_, _, l2, _, _, _, hl, _, hrestl, _⟩ := h
  rw [hl.of_fail] at hrestl
  exact hrestl

theorem Meets.right_ne_fail (h : Meets contL contR goal l toL rt toR) : rt ≠ .fail :=
  h.symm.left_ne_fail

/-- A result that the left program stays with is the one of the goal. -/
theorem Meets.left_ret {a : α} (h : Meets contL contR goal (.ret a) toL rt toR)
    (ha : contL a = none) : ∃ restL rt' restR, goal (.ret a) restL rt' restR := by
  obtain ⟨_, _, l2, restL, rt2, restR, hl, _, _, _, hgoal⟩ := h
  obtain ⟨rfl, -, -⟩ := hl.of_ret ha
  exact ⟨restL, rt2, restR, hgoal⟩

theorem Meets.right_ret {b : β} (h : Meets contL contR goal l toL (.ret b) toR)
    (hb : contR b = none) : ∃ l' restL restR, goal l' restL (.ret b) restR := by
  obtain ⟨restR, l2, restL, hgoal⟩ := h.symm.left_ret hb
  exact ⟨l2, restL, restR, hgoal⟩

/-- **A decision needs a look at the states of rest only.** If from every state of the
goal the left program, resumed as `l'`, and the right one meet again, then they do from
where they are. -/
theorem Meets.resume_left {a : α} {goal' : Prog T α → List T → Prog T β → List T → Prop}
    (h : Meets contL contR goal (.ret a) toL rt toR) (ha : contL a = none)
    (hgoal : ∀ restL rt' restR, goal (.ret a) restL rt' restR →
      Meets contL contR goal' l' restL rt' restR) :
    Meets contL contR goal' l' toL rt toR := by
  obtain ⟨outL, outR, l2, restL, rt2, restR, hl, hr, -, -, hg⟩ := h
  obtain ⟨rfl, rfl, rfl⟩ := hl.of_ret ha
  obtain ⟨outL2, outR2, l3, restL, rt3, restR3, hl2, hr2, hgoal⟩ := hgoal _ _ _ hg
  rw [List.append_nil] at hr
  rw [List.append_assoc] at hl2
  exact ⟨outL2, outR ++ outR2, l3, restL, rt3, restR3, hl2, hr.trans hr2, hgoal⟩

theorem Meets.resume_right {b : β} {goal' : Prog T α → List T → Prog T β → List T → Prop}
    (h : Meets contL contR goal l toL (.ret b) toR) (hb : contR b = none)
    (hgoal : ∀ l' restL restR, goal l' restL (.ret b) restR →
      Meets contL contR goal' l' restL rt' restR) :
    Meets contL contR goal' l toL rt' toR :=
  (h.symm.resume_left hb (fun restR l' restL hg => (hgoal l' restL restR hg).symm)).symm

end Pair

end Instrew.Lib.Dialogue
