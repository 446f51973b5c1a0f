import Mathlib.Tactic

/-!
# Computations that check their accesses

A computation that reads and writes memory through unchecked pointers, made to stop at
the first access outside of what it may touch. It has three outcomes: a value, an error it
returns by itself, and the fault. The rules below say exactly when a computation does not
fault, one for each way to build it, so a proof is a walk over the program.
-/

namespace Instrew.Lib.Access

variable {ε α β σ : Type}

/-- Why a computation stops early. -/
inductive Stop (ε : Type) : Type where
  | err (e : ε)
  | fault
deriving DecidableEq

abbrev Checked (ε α : Type) : Type := Except (Stop ε) α

instance (x : Checked ε α) : Decidable (x = .error .fault) :=
  match x with
  | .ok _ => .isFalse nofun
  | .error (.err _) => .isFalse nofun
  | .error .fault => .isTrue rfl

def fail (e : ε) : Checked ε α := .error (.err e)

/-- An access that faults unless `c` holds. -/
def need (c : Prop) [Decidable c] : Checked ε Unit := if c then .ok () else .error .fault

/-- The early return of an error. -/
def reject (c : Prop) [Decidable c] (e : ε) : Checked ε Unit := if c then fail e else .ok ()

/-- A call of something that touches none of the memory. -/
def call : Except ε α → Checked ε α
  | .ok a => .ok a
  | .error e => fail e

/-- A call whose error is replaced. -/
def orFail (e : ε) : Checked ε α → Checked ε α
  | .error (.err _) => fail e
  | x => x

/-- A call whose error is ignored: the value stays what it was. -/
def orValue (a : α) : Checked ε α → Checked ε α
  | .error (.err _) => .ok a
  | x => x

/-- `for (; cond; i++) body`, with at most `fuel` rounds. -/
def forLoop (cond : Nat → σ → Bool) (body : Nat → σ → Checked ε σ) : Nat → Nat → σ → Checked ε σ
  | 0, _, s => .ok s
  | fuel + 1, i, s =>
      if cond i s then body i s >>= forLoop cond body fuel (i + 1) else .ok s

/-! ## What a returned value says -/

theorem bind_eq_ok {x : Except ε α} {f : α → Except ε β} {b : β} :
    x >>= f = .ok b ↔ ∃ a, x = .ok a ∧ f a = .ok b := by
  cases x with
  | ok a => exact ⟨fun h => ⟨a, rfl, h⟩, fun ⟨_, rfl, h⟩ => h⟩
  | error s => exact ⟨fun h => (nomatch h), fun ⟨_, h, _⟩ => (nomatch h)⟩

theorem need_bind_eq_ok {c : Prop} [Decidable c] {f : Unit → Checked ε β} {b : β} :
    need c >>= f = .ok b ↔ c ∧ f () = .ok b := by
  by_cases hc : c
  · rw [need, if_pos hc]
    exact (and_iff_right hc).symm
  · rw [need, if_neg hc]
    exact ⟨fun h => (nomatch h), fun h => (hc h.1).elim⟩

theorem reject_bind_eq_ok {c : Prop} [Decidable c] {e : ε} {f : Unit → Checked ε β} {b : β} :
    reject c e >>= f = .ok b ↔ ¬ c ∧ f () = .ok b := by
  by_cases hc : c
  · rw [reject, if_pos hc]
    exact ⟨fun h => (nomatch h), fun h => (h.1 hc).elim⟩
  · rw [reject, if_neg hc]
    exact (and_iff_right hc).symm

theorem call_eq_ok {x : Except ε α} {a : α} : call x = .ok a ↔ x = .ok a := by
  cases x with
  | ok b => exact ⟨fun h => congrArg _ (Except.ok.inj h), fun h => congrArg _ (Except.ok.inj h)⟩
  | error e => exact ⟨fun h => (nomatch h), fun h => (nomatch h)⟩

theorem orFail_eq_ok {e : ε} {x : Checked ε α} {a : α} : orFail e x = .ok a ↔ x = .ok a := by
  match x with
  | .ok _ => exact Iff.rfl
  | .error (.err _) => exact ⟨fun h => (nomatch h), fun h => (nomatch h)⟩
  | .error .fault => exact Iff.rfl

/-- A computation that can be evaluated. -/
theorem exists_ok_of_any {x : Checked ε α} {p : α → Prop} [DecidablePred p]
    (h : x.toOption.any (fun a => decide (p a)) = true) : ∃ a, x = .ok a ∧ p a := by
  cases x with
  | ok a => exact ⟨a, rfl, of_decide_eq_true h⟩
  | error s => cases h

/-- A counting loop that returns has made every round: what one round carries from `i` to
`i + 1` holds at the end. -/
theorem forLoop_count {n : Nat} {body : Nat → σ → Checked ε σ} {P : Nat → σ → Prop}
    (hbody : ∀ i s s', i < n → P i s → body i s = .ok s' → P (i + 1) s') :
    ∀ (fuel i : Nat) {s s' : σ}, i + fuel = n → P i s →
      forLoop (fun i _ => i < n) body fuel i s = .ok s' → P n s'
  | 0, i, s, s', hn, h, hs => by
      cases hs
      rwa [← hn, Nat.add_zero]
  | fuel + 1, i, s, s', hn, h, hs => by
      have hi : i < n := by omega
      rw [forLoop, if_pos (decide_eq_true hi), bind_eq_ok] at hs
      obtain ⟨t, ht, hrest⟩ := hs
      exact forLoop_count hbody fuel (i + 1) (by omega) (hbody i s t hi h ht) hrest

/-! ## Not faulting

`x ≠ .error .fault`, exactly, for each way to build a computation. -/

theorem ok_ne_fault (a : α) : (.ok a : Checked ε α) ≠ .error .fault := fun h => (nomatch h)

theorem fail_ne_fault (e : ε) : (fail e : Checked ε α) ≠ .error .fault := fun h => (nomatch h)

theorem bind_ne_fault_iff {x : Checked ε α} {f : α → Checked ε β} :
    x >>= f ≠ .error .fault ↔ x ≠ .error .fault ∧ ∀ a, x = .ok a → f a ≠ .error .fault := by
  match x with
  | .ok a => exact ⟨fun h => ⟨ok_ne_fault a, by rintro _ ⟨⟩; exact h⟩, fun h => h.2 a rfl⟩
  | .error (.err e) =>
      exact ⟨fun _ => ⟨fail_ne_fault e, fun _ h => (nomatch h)⟩, fun _ => fail_ne_fault e⟩
  | .error .fault => exact ⟨fun h => absurd rfl h, fun h => absurd rfl h.1⟩

theorem need_bind_ne_fault_iff {c : Prop} [Decidable c] {f : Unit → Checked ε β} :
    need c >>= f ≠ .error .fault ↔ c ∧ f () ≠ .error .fault := by
  by_cases hc : c
  · rw [need, if_pos hc]
    exact (and_iff_right hc).symm
  · rw [need, if_neg hc]
    exact ⟨fun h => absurd rfl h, fun h => absurd h.1 hc⟩

theorem reject_bind_ne_fault_iff {c : Prop} [Decidable c] {e : ε} {f : Unit → Checked ε β} :
    reject c e >>= f ≠ .error .fault ↔ (¬ c → f () ≠ .error .fault) := by
  by_cases hc : c
  · rw [reject, if_pos hc]
    exact ⟨fun _ hnot => absurd hc hnot, fun _ => fail_ne_fault e⟩
  · rw [reject, if_neg hc]
    exact ⟨fun h _ => h, fun h => h hc⟩

theorem call_ne_fault (x : Except ε α) : call x ≠ .error .fault := by
  cases x with
  | ok a => exact ok_ne_fault a
  | error e => exact fail_ne_fault e

theorem call_bind_ne_fault_iff {x : Except ε α} {f : α → Checked ε β} :
    call x >>= f ≠ .error .fault ↔ ∀ a, x = .ok a → f a ≠ .error .fault := by
  rw [bind_ne_fault_iff, and_iff_right (call_ne_fault x)]
  simp only [call_eq_ok]

theorem orFail_ne_fault_iff {e : ε} {x : Checked ε α} :
    orFail e x ≠ .error .fault ↔ x ≠ .error .fault := by
  match x with
  | .ok _ => exact Iff.rfl
  | .error (.err e') => exact ⟨fun _ => fail_ne_fault e', fun _ => fail_ne_fault e⟩
  | .error .fault => exact Iff.rfl

/-- The rounds of a loop over `i < n`, in the states of `Inv`: round `i` does not fault
exactly when `Fits i`, and the loop goes on after it exactly when `Goes i`. Neither depends
on the state. -/
structure Rounds (cond : Nat → σ → Bool) (body : Nat → σ → Checked ε σ) (n : Nat)
    (Inv : Nat → σ → Prop) (Fits Goes : Nat → Prop) : Prop where
  cond_iff : ∀ i s, Inv i s → (cond i s = true ↔ i < n)
  fits : ∀ i s, i < n → Inv i s → (body i s ≠ .error .fault ↔ Fits i)
  goes : ∀ i s, i < n → Inv i s → Fits i → Goes i → ∃ s', body i s = .ok s'
  next : ∀ i s s', i < n → Inv i s → body i s = .ok s' →
    Goes i ∧ Inv (i + 1) s' ∨ ¬ Goes i ∧ ∀ j, cond j s' = false

namespace Rounds

variable {cond : Nat → σ → Bool} {body : Nat → σ → Checked ε σ} {n : Nat}
  {Inv : Nat → σ → Prop} {Fits Goes : Nat → Prop}

theorem forLoop_of_not_cond {s : σ} (h : ∀ j, cond j s = false) (fuel i : Nat) :
    forLoop cond body fuel i s = .ok s := by
  cases fuel with
  | zero => rfl
  | succ fuel =>
      rw [forLoop, h i]
      rfl

variable (h : Rounds cond body n Inv Fits Goes)

include h

theorem forLoop_succ {i : Nat} (hi : i < n) {s : σ} (hs : Inv i s) (fuel : Nat) :
    forLoop cond body (fuel + 1) i s = body i s >>= forLoop cond body fuel (i + 1) := by
  rw [forLoop, if_pos ((h.cond_iff i s hs).mpr hi)]

theorem forLoop_done {s : σ} (hs : Inv n s) (fuel : Nat) :
    forLoop cond body fuel n s = .ok s := by
  cases fuel with
  | zero => rfl
  | succ fuel => rw [forLoop, if_neg fun hc => Nat.lt_irrefl n ((h.cond_iff n s hs).mp hc)]

/-- **A loop does not fault** exactly when every round it gets to fits. -/
theorem ne_fault_iff : ∀ (fuel i : Nat) (s : σ), i ≤ n → n ≤ i + fuel → Inv i s →
    (forLoop cond body fuel i s ≠ .error .fault ↔
      ∀ j, i ≤ j → j < n → (∀ k, i ≤ k → k < j → Goes k) → Fits j) := by
  intro fuel
  induction fuel with
  | zero =>
      intro i s hi hfuel _
      exact ⟨fun _ j hij hj => absurd hj (by omega), fun _ => ok_ne_fault _⟩
  | succ fuel ih =>
      intro i s hi hfuel hs
      rcases Nat.eq_or_lt_of_le hi with rfl | hlt
      · rw [h.forLoop_done hs]
        exact ⟨fun _ j hij hj => absurd hj (by omega), fun _ => ok_ne_fault _⟩
      rw [h.forLoop_succ hlt hs, bind_ne_fault_iff, h.fits i s hlt hs]
      constructor
      · rintro ⟨hfits, hrest⟩ j hij hj hgoes
        rcases Nat.eq_or_lt_of_le hij with rfl | hij
        · exact hfits
        -- the loop has gone on after round `i`
        obtain ⟨s', hs'⟩ := h.goes i s hlt hs hfits (hgoes i le_rfl hij)
        obtain ⟨-, hinv⟩ := (h.next i s s' hlt hs hs').resolve_right
          fun hstop => hstop.1 (hgoes i le_rfl hij)
        exact (ih (i + 1) s' hlt (by omega) hinv).mp (hrest s' hs') j hij hj
          fun k hk => hgoes k (Nat.le_of_succ_le hk)
      · intro hall
        refine ⟨hall i le_rfl hlt fun k hik hk => absurd hk (by omega), fun s' hs' => ?_⟩
        rcases h.next i s s' hlt hs hs' with ⟨hgoes, hinv⟩ | ⟨-, hstop⟩
        · refine (ih (i + 1) s' hlt (by omega) hinv).mpr fun j hij hj hrest => ?_
          refine hall j (Nat.le_of_succ_le hij) hj fun k hik hk => ?_
          rcases Nat.eq_or_lt_of_le hik with rfl | hik
          · exact hgoes
          · exact hrest k hik hk
        · rw [forLoop_of_not_cond hstop]
          exact ok_ne_fault _

/-- A loop whose rounds all fit and go on returns. -/
theorem exists_ok : ∀ (fuel i : Nat) (s : σ), i ≤ n → n ≤ i + fuel → Inv i s →
    (∀ k, i ≤ k → k < n → Fits k ∧ Goes k) → ∃ s', forLoop cond body fuel i s = .ok s' := by
  intro fuel
  induction fuel with
  | zero => exact fun i s _ _ _ _ => ⟨s, rfl⟩
  | succ fuel ih =>
      intro i s hi hfuel hs hgoes
      rcases Nat.eq_or_lt_of_le hi with rfl | hlt
      · exact ⟨s, h.forLoop_done hs _⟩
      obtain ⟨hfits, hgo⟩ := hgoes i le_rfl hlt
      obtain ⟨s', hs'⟩ := h.goes i s hlt hs hfits hgo
      obtain ⟨-, hinv⟩ := (h.next i s s' hlt hs hs').resolve_right fun hstop => hstop.1 hgo
      obtain ⟨t, ht⟩ := ih (i + 1) s' hlt (by omega) hinv fun k hk => hgoes k (Nat.le_of_succ_le hk)
      exact ⟨t, by rw [h.forLoop_succ hlt hs, hs']; exact ht⟩

/-- A loop that returns has made every round, or was left. -/
theorem ok_cases : ∀ (fuel i : Nat) (s s' : σ), i ≤ n → n ≤ i + fuel → Inv i s →
    forLoop cond body fuel i s = .ok s' →
      (∀ k, i ≤ k → k < n → Goes k) ∧ Inv n s' ∨
        ¬ (∀ k, i ≤ k → k < n → Goes k) ∧ ∀ j, cond j s' = false := by
  intro fuel
  induction fuel with
  | zero =>
      intro i s s' hi hfuel hs hrun
      cases hrun
      obtain rfl : i = n := by omega
      exact .inl ⟨fun k hik hk => absurd hk (by omega), hs⟩
  | succ fuel ih =>
      intro i s s' hi hfuel hs hrun
      rcases Nat.eq_or_lt_of_le hi with rfl | hlt
      · rw [h.forLoop_done hs] at hrun
        cases hrun
        exact .inl ⟨fun k hik hk => absurd hk (by omega), hs⟩
      rw [h.forLoop_succ hlt hs, bind_eq_ok] at hrun
      obtain ⟨t, ht, hrest⟩ := hrun
      rcases h.next i s t hlt hs ht with ⟨hgoes, hinv⟩ | ⟨hnot, hstop⟩
      · have hall : (∀ k, i ≤ k → k < n → Goes k) ↔ ∀ k, i + 1 ≤ k → k < n → Goes k := by
          refine ⟨fun hall k hk => hall k (Nat.le_of_succ_le hk), fun hall k hik hk => ?_⟩
          rcases Nat.eq_or_lt_of_le hik with rfl | hik
          · exact hgoes
          · exact hall k hik hk
        rw [hall]
        exact ih (i + 1) t s' hlt (by omega) hinv hrest
      · rw [forLoop_of_not_cond hstop] at hrest
        cases hrest
        exact .inr ⟨fun hall => hnot (hall i le_rfl hlt), hstop⟩

end Rounds

/-! ## Equal computations -/

theorem need_bind_of {c : Prop} [Decidable c] (hc : c) (f : Unit → Checked ε β) :
    need c >>= f = f () := by
  rw [need, if_pos hc]
  rfl

theorem reject_bind_of {c : Prop} [Decidable c] (hc : c) (e : ε) (f : Unit → Checked ε β) :
    reject c e >>= f = fail e := by
  rw [reject, if_pos hc]
  rfl

theorem reject_bind_of_not {c : Prop} [Decidable c] (hc : ¬ c) (e : ε) (f : Unit → Checked ε β) :
    reject c e >>= f = f () := by
  rw [reject, if_neg hc]
  rfl

theorem reject_congr {c d : Prop} [Decidable c] [Decidable d] {e : ε} {f g : Unit → Checked ε β}
    (hcd : c ↔ d) (h : ¬ d → f () = g ()) : reject c e >>= f = reject d e >>= g := by
  by_cases hd : d
  · rw [reject, reject, if_pos (hcd.mpr hd), if_pos hd]
    rfl
  · rw [reject, reject, if_neg (mt hcd.mp hd), if_neg hd]
    exact h hd

theorem need_congr {c d : Prop} [Decidable c] [Decidable d] {f g : Unit → Checked ε β}
    (hcd : c ↔ d) (h : d → f () = g ()) : need c >>= f = need d >>= g := by
  by_cases hd : d
  · rw [need, need, if_pos (hcd.mpr hd), if_pos hd]
    exact h hd
  · rw [need, need, if_neg (mt hcd.mp hd), if_neg hd]
    rfl

/-! ## Ranges of addresses -/

/-- A range, by its start and its length. -/
structure Range : Type where
  lo : Nat
  len : Nat

namespace Range

def Mem (r : Range) (o : Nat) : Prop := r.lo ≤ o ∧ o < r.lo + r.len

/-- `r` is a part of `s`. -/
def Within (r s : Range) : Prop := s.lo ≤ r.lo ∧ r.lo + r.len ≤ s.lo + s.len

instance (r s : Range) : Decidable (r.Within s) := inferInstanceAs (Decidable (_ ∧ _))

/-- No address is in both. -/
def Apart (r s : Range) : Prop :=
  r.lo + r.len ≤ s.lo ∨ s.lo + s.len ≤ r.lo ∨ r.len = 0 ∨ s.len = 0

instance (r s : Range) : Decidable (r.Apart s) := inferInstanceAs (Decidable (_ ∨ _ ∨ _ ∨ _))

theorem Apart.not_mem {r s : Range} (h : r.Apart s) {o : Nat} (hr : r.Mem o) : ¬ s.Mem o := by
  simp only [Apart, Mem] at *
  omega

theorem Within.mem {r s : Range} (h : r.Within s) {o : Nat} (hr : r.Mem o) : s.Mem o := by
  simp only [Within, Mem] at *
  omega

end Range

/-- Two memories agree on a range. -/
def SameOn (m m' : Nat → α) (r : Range) : Prop := ∀ o, r.Mem o → m' o = m o

theorem SameOn.sub {m m' : Nat → α} {r s : Range} (h : SameOn m m' s) (hr : r.Within s) :
    SameOn m m' r :=
  fun o ho => h o (hr.mem ho)

end Instrew.Lib.Access
