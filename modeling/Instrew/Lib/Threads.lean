import Instrew.Lib.Run

/-!
# Threads over shared memory

Each thread has a local state; one step of a thread changes its own local state and the
shared memory. A run interleaves the steps of any number of threads in any way.

`Interference` is the rule for invariants of such runs: a fact about the shared memory, a
fact about each thread, and a fact about each two threads, where the acting thread must
keep its own facts and must not break the facts of the others.
-/

namespace Instrew.Lib.Threads

open Lib.Run

variable {T S L A : Type}

structure State (T S L : Type) : Type where
  shared : S
  thread : T → L

/-- One step of one thread. -/
def act [DecidableEq T] (local_ : S → L → A → Option (S × L)) (s : State T S L) (a : T × A) :
    Option (State T S L) :=
  (local_ s.shared (s.thread a.1) a.2).map fun r => ⟨r.1, Function.update s.thread a.1 r.2⟩

/-- What one step of a thread may do to a shared fact `G`, the threads' facts `P` and the
facts `R` between two threads. The steps considered are those that meet `ok`. -/
structure Interference (local_ : S → L → A → Option (S × L)) (ok : S → L → A → Prop)
    (G : S → Prop) (P : S → L → Prop) (R : L → L → Prop) : Prop where
  symm : ∀ l l', R l l' → R l' l
  own : ∀ s l a s' l', G s → P s l → ok s l a → local_ s l a = some (s', l') → G s' ∧ P s' l'
  other : ∀ s l a s' l' l₀, G s → P s l → P s l₀ → R l l₀ → ok s l a →
    local_ s l a = some (s', l') → P s' l₀ ∧ R l' l₀

/-- The three facts together. -/
structure Holds (G : S → Prop) (P : S → L → Prop) (R : L → L → Prop) (s : State T S L) : Prop where
  shared : G s.shared
  thread : ∀ t, P s.shared (s.thread t)
  apart : ∀ t t', t ≠ t' → R (s.thread t) (s.thread t')

/-- The condition on a step, as a condition on a step of the system. -/
def okAct (ok : S → L → A → Prop) (s : State T S L) (a : T × A) : Prop :=
  ok s.shared (s.thread a.1) a.2

instance (ok : S → L → A → Prop) [∀ s l a, Decidable (ok s l a)] (s : State T S L) (a : T × A) :
    Decidable (okAct ok s a) :=
  inferInstanceAs (Decidable (ok _ _ _))

variable [DecidableEq T] {local_ : S → L → A → Option (S × L)} {ok : S → L → A → Prop}
  {G : S → Prop} {P : S → L → Prop} {R : L → L → Prop}

theorem act_eq_some {s s' : State T S L} {t : T} {a : A} (h : act local_ s (t, a) = some s') :
    ∃ sh l, local_ s.shared (s.thread t) a = some (sh, l) ∧
      s' = ⟨sh, Function.update s.thread t l⟩ := by
  obtain ⟨⟨sh, l⟩, hloc, rfl⟩ := Option.map_eq_some_iff.mp h
  exact ⟨sh, l, hloc, rfl⟩

theorem Interference.step (hI : Interference local_ ok G P R) {s s' : State T S L} {a : T × A}
    (h : Holds G P R s) (hok : okAct ok s a) (hs : act local_ s a = some s') : Holds G P R s' := by
  obtain ⟨t, a⟩ := a
  obtain ⟨sh, l, hloc, rfl⟩ := act_eq_some hs
  obtain ⟨hG, hP⟩ := hI.own _ _ _ _ _ h.shared (h.thread t) hok hloc
  have hother : ∀ u, u ≠ t → P sh (s.thread u) ∧ R l (s.thread u) := fun u hu =>
    hI.other _ _ _ _ _ _ h.shared (h.thread t) (h.thread u) (h.apart t u hu.symm) hok hloc
  refine ⟨hG, fun u => ?_, fun u v huv => ?_⟩
  · by_cases hu : u = t
    · rw [hu]
      simpa using hP
    · simpa [hu] using (hother u hu).1
  · -- one of the two may be the thread that acted
    by_cases hu : u = t
    · have hv : v ≠ t := fun hv => huv (hu.trans hv.symm)
      simpa [hu, hv] using (hother v hv).2
    · by_cases hv : v = t
      · simpa [hu, hv] using hI.symm _ _ (hother u hu).2
      · simpa [hu, hv] using h.apart u v huv

/-- More facts, proved with the help of those already known. -/
theorem Interference.and {G₂ : S → Prop} {P₂ : S → L → Prop} {R₂ : L → L → Prop}
    (hI : Interference local_ ok G P R) (hsymm : ∀ l l', R₂ l l' → R₂ l' l)
    (hown : ∀ s l a s' l', G s → P s l → G₂ s → P₂ s l → ok s l a →
      local_ s l a = some (s', l') → G₂ s' ∧ P₂ s' l')
    (hother : ∀ s l a s' l' l₀, P₂ s l → P₂ s l₀ → R₂ l l₀ →
      local_ s l a = some (s', l') → P₂ s' l₀ ∧ R₂ l' l₀) :
    Interference local_ ok (fun s => G s ∧ G₂ s) (fun s l => P s l ∧ P₂ s l)
      (fun l l' => R l l' ∧ R₂ l l') where
  symm := fun l l' h => ⟨hI.symm l l' h.1, hsymm l l' h.2⟩
  own := by
    intro s l a s' l' hG hP hok hs
    obtain ⟨hG', hP'⟩ := hI.own s l a s' l' hG.1 hP.1 hok hs
    obtain ⟨hG₂', hP₂'⟩ := hown s l a s' l' hG.1 hP.1 hG.2 hP.2 hok hs
    exact ⟨⟨hG', hG₂'⟩, hP', hP₂'⟩
  other := by
    intro s l a s' l' l₀ hG hP hP₀ hR hok hs
    obtain ⟨hP', hR'⟩ := hI.other s l a s' l' l₀ hG.1 hP.1 hP₀.1 hR.1 hok hs
    obtain ⟨hP₂', hR₂'⟩ := hother s l a s' l' l₀ hP.2 hP₀.2 hR.2 hs
    exact ⟨⟨hP', hP₂'⟩, hR', hR₂'⟩

/-- Facts kept by some steps are kept by fewer. -/
theorem Interference.mono {ok' : S → L → A → Prop} (hI : Interference local_ ok G P R)
    (h : ∀ s l a, ok' s l a → ok s l a) : Interference local_ ok' G P R where
  symm := hI.symm
  own := fun s l a s' l' hG hP hok => hI.own s l a s' l' hG hP (h s l a hok)
  other := fun s l a s' l' l₀ hG hP hP₀ hR hok => hI.other s l a s' l' l₀ hG hP hP₀ hR (h s l a hok)

/-- **The rule for interleavings.** -/
theorem Interference.run (hI : Interference local_ ok G P R) (as : List (T × A))
    {s s' : State T S L} (h : Holds G P R s) (hok : AllSteps (act local_) (okAct ok) s as)
    (hrun : Run.run (act local_) s as = some s') : Holds G P R s' :=
  run_invariant_of (fun _ _ _ hi hstep hs => hI.step hi hstep hs) as h hok hrun

end Instrew.Lib.Threads
