import Instrew.Lib.Dialogue

/-!
# Programs that write through a buffer

A program over streams whose output goes to a buffer, which is written out when the program
says so and, in pieces, whenever the library under it likes to (`Move.spill`). Some output
goes past the buffer.

Seen from outside, what counts is the output followed by what the buffer holds: in these
terms a buffered program does what the program without the buffer (`BProg.erase`) does, as
long as it has an empty buffer whenever it writes past the buffer, waits for input or has a
result. `Drains` says so in terms of the program text, as a rule of pre- and postconditions
for whether the buffer may hold something.
-/

namespace Instrew.Lib.Dialogue

inductive BProg (T α : Type) : Type where
  | ret (a : α)
  | write (l : List T) (k : BProg T α)
  | flush (k : BProg T α)
  /-- Output past the buffer. -/
  | direct (l : List T) (k : BProg T α)
  | recv (n : Nat) (k : List T → BProg T α)
  | fail

variable {T α β γ δ : Type}

/-- The program only reads. -/
def Prog.Reads : Prog T α → Prop
  | .ret _ | .fail => True
  | .recv _ k => ∀ l, (k l).Reads
  | .send _ _ | .recvOnce _ _ => False

theorem Prog.Reads.bind {p : Prog T α} {f : α → Prog T β} (hp : p.Reads) (hf : ∀ a, (f a).Reads) :
    (p >>= f).Reads := by
  induction p with
  | ret a => exact hf a
  | recv n k ih => exact fun l => ih l (hp l)
  | send | recvOnce => exact hp.elim
  | fail => trivial

theorem Prog.bind_ret (p : Prog T α) : (p >>= Prog.ret) = p := by
  show Prog.bind Prog.ret p = p
  induction p with
  | ret a => rfl
  | send l k ih =>
      simp only [Prog.bind]
      rw [ih]
  | recv n k ih | recvOnce n k ih =>
      simp only [Prog.bind]
      congr 1
      funext l
      exact ih l
  | fail => rfl

theorem Prog.bind_assoc (p : Prog T α) (f : α → Prog T β) (g : β → Prog T γ) :
    (p >>= f >>= g) = (p >>= fun a => f a >>= g) := by
  show Prog.bind g (Prog.bind f p) = Prog.bind (fun a => Prog.bind g (f a)) p
  induction p with
  | ret a => rfl
  | send l k ih =>
      simp only [Prog.bind]
      rw [ih]
  | recv n k ih | recvOnce n k ih =>
      simp only [Prog.bind]
      congr 1
      funext l
      exact ih l
  | fail => rfl

/-- More input behind what there is changes nothing. -/
theorem Prog.step_append {cont : α → Option (Prog T α)} {p p' : Prog T α} {n : Nat}
    {i i' o : List T} (h : p.step cont n i = some (p', i', o)) (more : List T) :
    p.step cont n (i ++ more) = some (p', i' ++ more, o) := by
  cases p with
  | ret a =>
      obtain ⟨q, hq, heq⟩ := Option.map_eq_some_iff.mp h
      cases heq
      simp only [Prog.step, hq, Option.map_some]
  | send l k =>
      simp only [Prog.step] at h ⊢
      split_ifs at h ⊢
      · cases h
        rfl
      · cases h
        rfl
  | recv m k =>
      simp only [Prog.step] at h ⊢
      split_ifs at h with hshort hlt hzero heq
      · cases h
        rw [if_neg (by rw [List.length_append]; omega), if_pos hlt, if_neg hzero,
          List.take_append_of_le_length (by omega), List.drop_append_of_le_length (by omega)]
      · cases h
        rw [if_neg (by rw [List.length_append]; omega), if_neg hlt, if_pos heq,
          List.take_append_of_le_length (by omega), List.drop_append_of_le_length (by omega)]
  | recvOnce m k =>
      simp only [Prog.step] at h ⊢
      split_ifs at h with hbad
      cases h
      rw [not_or, not_or] at hbad
      rw [if_neg (by rw [List.length_append]; omega), List.take_append_of_le_length (by omega),
        List.drop_append_of_le_length (by omega)]
  | fail => cases h

namespace BProg

def bind (f : α → BProg T β) : BProg T α → BProg T β
  | .ret a => f a
  | .write l k => .write l (k.bind f)
  | .flush k => .flush (k.bind f)
  | .direct l k => .direct l (k.bind f)
  | .recv n k => .recv n (fun l => (k l).bind f)
  | .fail => .fail

instance : Monad (BProg T) where
  pure := .ret
  bind p f := p.bind f

/-- A program that only reads. -/
def ofReader : Prog T α → BProg T α
  | .ret a => .ret a
  | .recv n k => .recv n (fun l => ofReader (k l))
  | .send _ _ | .recvOnce _ _ | .fail => .fail

/-! ## Without the buffer -/

/-- The program without the buffer, with `f` of its results. -/
def erase (f : α → β) : BProg T α → Prog T β
  | .ret a => .ret (f a)
  | .write l k => .send l (k.erase f)
  | .flush k => k.erase f
  | .direct l k => .send l (k.erase f)
  | .recv n k => .recv n (fun l => (k l).erase f)
  | .fail => .fail

/-- A bind is erased piece by piece, if the second piece depends on what is kept of the
first one's result. -/
theorem erase_bind {f : β → γ} (h : α → δ) {p : BProg T α} {k : α → BProg T β} {q : δ → Prog T γ}
    (hk : ∀ a, (k a).erase f = q (h a)) : (p >>= k).erase f = (p.erase h >>= q) := by
  show (p.bind k).erase f = Prog.bind q (p.erase h)
  induction p with
  | ret a => exact hk a
  | write l p ih | direct l p ih =>
      simp only [bind, erase, Prog.bind]
      rw [ih]
  | flush p ih =>
      simp only [bind, erase]
      rw [ih]
  | recv n p ih =>
      simp only [bind, erase, Prog.bind]
      congr 1
      funext l
      exact ih l
  | fail => rfl

theorem erase_ofReader {p : Prog T α} (h : p.Reads) : (ofReader p).erase id = p := by
  induction p with
  | ret a => rfl
  | recv n k ih =>
      simp only [ofReader, erase]
      congr 1
      funext l
      exact ih l (h l)
  | send | recvOnce => exact h.elim
  | fail => rfl

/-- What follows a program that only reads. -/
theorem erase_ofReader_bind {f : β → γ} {p : Prog T α} (h : p.Reads) {k : α → BProg T β}
    {q : α → Prog T γ} (hk : ∀ a, (k a).erase f = q a) :
    (ofReader p >>= k).erase f = (p >>= q) := by
  rw [erase_bind id hk, erase_ofReader h]

/-! ## What the buffer holds -/

/-- Run with a buffer that may hold something if `dirty`, the program has an empty buffer
when it writes past the buffer and when it waits, and `Q` holds at the end of whether the
buffer may hold something and of the result. -/
def Drains (Q : Bool → α → Prop) : Bool → BProg T α → Prop
  | dirty, .ret a => Q dirty a
  | _, .write _ k => Drains Q true k
  | _, .flush k => Drains Q false k
  | dirty, .direct _ k => dirty = false ∧ Drains Q false k
  | dirty, .recv _ k => dirty = false ∧ ∀ l, Drains Q false (k l)
  | _, .fail => True

/-- The buffer is empty at the end. -/
def Clean (dirty : Bool) (_ : α) : Prop := dirty = false

theorem Drains.bind {Q : Bool → α → Prop} {R : Bool → β → Prop} {p : BProg T α}
    {f : α → BProg T β} {dirty : Bool} (hp : Drains Q dirty p)
    (hf : ∀ dirty a, Q dirty a → Drains R dirty (f a)) : Drains R dirty (p >>= f) := by
  show Drains R dirty (p.bind f)
  induction p generalizing dirty with
  | ret a => exact hf dirty a hp
  | write l p ih => exact ih hp
  | flush p ih => exact ih hp
  | direct l p ih => exact ⟨hp.1, ih hp.2⟩
  | recv n p ih => exact ⟨hp.1, fun l => ih l (hp.2 l)⟩
  | fail => trivial

theorem drains_ofReader {p : Prog T α} (h : p.Reads) : Drains Clean false (ofReader p) := by
  induction p with
  | ret a => rfl
  | recv n k ih => exact ⟨rfl, fun l => ih l (h l)⟩
  | send | recvOnce => exact h.elim
  | fail => trivial

/-- The program waits for input, or has a result. -/
def AtPoint : BProg T α → Prop
  | .ret _ | .recv _ _ => True
  | .write _ _ | .flush _ | .direct _ _ | .fail => False

/-! ## Steps -/

/-- The program goes on, with a piece of `n` items where it reads or writes past the buffer;
or `n` items of the buffer are written out. -/
inductive Move : Type where
  | next (n : Nat)
  | spill (n : Nat)

/-- Result: the program, the buffer, the remaining input and the new output. -/
def step (cont : α → Option (BProg T α)) (i buf : List T) (p : BProg T α) :
    Move → Option (BProg T α × List T × List T × List T)
  | .spill n => if 0 < n ∧ n ≤ buf.length then some (p, buf.drop n, i, buf.take n) else none
  | .next n =>
      match p with
      | .ret a => (cont a).map (fun q => (q, buf, i, []))
      | .write l k => some (k, buf ++ l, i, [])
      | .flush k => if buf = [] then some (k, buf, i, []) else none
      | .direct l k =>
          if n < l.length then
            if n = 0 then none else some (.direct (l.drop n) k, buf, i, l.take n)
          else if n = l.length then some (k, buf, i, l) else none
      | .recv m k =>
          if i.length < n then none
          else if n < m then
            if n = 0 then none
            else some (.recv (m - n) (fun l => k (i.take n ++ l)), buf, i.drop n, [])
          else if n = m then some (k (i.take n), buf, i.drop n, []) else none
      | .fail => none

variable {cont : α → Option (BProg T α)} {f : α → β} {p p' : BProg T α} {i i' buf buf' o : List T}

/-- The program and its buffer agree: an empty buffer where the program needs one. -/
def Ok (p : BProg T α) (buf : List T) : Prop := ∃ dirty, Drains Clean dirty p ∧ (dirty = false → buf = [])

theorem Ok.buf_eq_nil (h : p.Ok buf) (hp : p.AtPoint) : buf = [] := by
  obtain ⟨dirty, hdrains, hbuf⟩ := h
  cases p with
  | ret a => exact hbuf hdrains
  | recv n k => exact hbuf hdrains.1
  | write | flush | direct | fail => exact hp.elim

theorem Ok.step (hcont : ∀ a q, cont a = some q → Drains Clean false q) (h : p.Ok buf) {mv : Move}
    (hs : p.step cont i buf mv = some (p', buf', i', o)) : p'.Ok buf' := by
  obtain ⟨dirty, hdrains, hbuf⟩ := h
  cases mv with
  | spill n =>
      simp only [BProg.step] at hs
      split_ifs at hs with hn
      cases hs
      refine ⟨dirty, hdrains, fun hd => ?_⟩
      rw [hbuf hd, List.drop_nil]
  | next n =>
      cases p with
      | ret a =>
          obtain ⟨q, hq, heq⟩ := Option.map_eq_some_iff.mp hs
          cases heq
          exact ⟨false, hcont a _ hq, fun _ => hbuf hdrains⟩
      | write l k =>
          cases hs
          exact ⟨true, hdrains, fun hd => nomatch hd⟩
      | flush k =>
          simp only [BProg.step] at hs
          split_ifs at hs with hempty
          cases hs
          exact ⟨false, hdrains, fun _ => hempty⟩
      | direct l k =>
          have hempty := hbuf hdrains.1
          simp only [BProg.step] at hs
          split_ifs at hs
          · cases hs
            exact ⟨false, ⟨rfl, hdrains.2⟩, fun _ => hempty⟩
          · cases hs
            exact ⟨false, hdrains.2, fun _ => hempty⟩
      | recv m k =>
          have hempty := hbuf hdrains.1
          simp only [BProg.step] at hs
          split_ifs at hs
          · cases hs
            exact ⟨false, ⟨rfl, fun l => hdrains.2 _⟩, fun _ => hempty⟩
          · cases hs
            exact ⟨false, hdrains.2 _, fun _ => hempty⟩
      | fail => cases hs

/-- **A step is a step without the buffer, or none.** Either nothing has happened but that
the buffer was written out, or the program without the buffer does a step with the same
input, and the new output with what the buffer now holds is the old content of the buffer
with the output of that step. -/
theorem Ok.erase_step {contE : β → Option (Prog T β)}
    (hcont : ∀ a, contE (f a) = (cont a).map (erase f)) (h : p.Ok buf) {mv : Move}
    (hs : p.step cont i buf mv = some (p', buf', i', o)) :
    (p'.erase f = p.erase f ∧ i' = i ∧ o ++ buf' = buf) ∨
      ∃ n o', (p.erase f).step contE n i = some (p'.erase f, i', o') ∧ buf ++ o' = o ++ buf' := by
  obtain ⟨dirty, hdrains, hbuf⟩ := h
  cases mv with
  | spill n =>
      simp only [BProg.step] at hs
      split_ifs at hs with hn
      cases hs
      exact .inl ⟨rfl, rfl, List.take_append_drop n buf⟩
  | next n =>
      cases p with
      | ret a =>
          obtain ⟨q, hq, heq⟩ := Option.map_eq_some_iff.mp hs
          cases heq
          refine .inr ⟨0, [], ?_, by simp⟩
          simp only [erase, Prog.step, hcont, hq, Option.map_some]
      | write l k =>
          cases hs
          refine .inr ⟨l.length, l, ?_, rfl⟩
          simp [erase, Prog.step]
      | flush k =>
          simp only [BProg.step] at hs
          split_ifs at hs with hempty
          cases hs
          exact .inl ⟨rfl, rfl, rfl⟩
      | direct l k =>
          have hempty := hbuf hdrains.1
          subst hempty
          simp only [BProg.step] at hs
          split_ifs at hs with hlt hzero heq
          · cases hs
            refine .inr ⟨n, l.take n, ?_, by simp⟩
            simp only [erase, Prog.step, if_pos hlt, if_neg hzero]
          · cases hs
            refine .inr ⟨n, o, ?_, by simp⟩
            simp only [erase, Prog.step, if_neg hlt, if_pos heq]
      | recv m k =>
          have hempty := hbuf hdrains.1
          subst hempty
          simp only [BProg.step] at hs
          split_ifs at hs with hshort hlt hzero heq
          · cases hs
            refine .inr ⟨n, [], ?_, by simp⟩
            simp only [erase, Prog.step, if_neg hshort, if_pos hlt, if_neg hzero]
          · cases hs
            refine .inr ⟨n, [], ?_, by simp⟩
            simp only [erase, Prog.step, if_neg hshort, if_neg hlt, if_pos heq]
      | fail => cases hs

end BProg

end Instrew.Lib.Dialogue
