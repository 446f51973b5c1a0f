import Instrew.Client.Arena

/-!
# Backing of the arenas

The memory that `arena_alloc` returns is accessible if every `mprotect` of
`arena_ensure_backed` succeeds: the pages below `brkp` are then covered by completed
`mprotect` calls, and a call returns only once `brkp` is past its block
(`arena_alloc_backed`). The code does not look at the result of `mprotect`, so a failure
goes unnoticed (`mprotect_failure_ignored`).

The pages are guarded by the lock: while a thread is between taking and releasing it, no
other thread changes `brkp`.
-/

namespace Instrew.Client.Memory

open Lib.Run Lib.Threads Lib.Imm

/-! ## Pages -/

/-- What `mmap`, `getpagesize` and the sizes of the arenas guarantee. -/
structure Arena.Paged (A : Arena) : Prop where
  pow : ∃ k, A.pagesize.toNat = 2 ^ k
  start : A.pagesize.toNat ∣ A.start.toNat
  stop : A.pagesize.toNat ∣ A.stop.toNat

/-- Some completed `mprotect` covers the page at `q`. -/
def Covered (A : Arena) (backed : List (Word × Word)) (q : Nat) : Prop :=
  ∃ b ∈ backed, b.1.toNat ≤ q ∧ q + A.pagesize.toNat ≤ b.1.toNat + b.2.toNat

theorem Covered.mono {A : Arena} {backed backed' : List (Word × Word)} {q : Nat}
    (h : Covered A backed q) (hsub : backed ⊆ backed') : Covered A backed' q := by
  obtain ⟨b, hb, hle⟩ := h
  exact ⟨b, hsub hb, hle⟩

/-- Two multiples of the page size are a page apart. -/
theorem add_page_le {p q x : Nat} (hq : p ∣ q) (hx : p ∣ x) (h : q < x) : q + p ≤ x :=
  Nat.le_of_lt_add_of_dvd (Nat.add_lt_add_right h p) (Nat.dvd_add hq dvd_rfl) hx

/-- The extent of an `mprotect` reaches the end of the block and stays in the arena. -/
theorem newpgsz_spec {A : Arena} (hA : A.Paged) {brkp need : Word}
    (hge : A.start.toNat ≤ brkp.toNat) (hpage : A.pagesize.toNat ∣ brkp.toNat)
    (hneed : brkp.toNat < need.toNat) (hstop : need.toNat ≤ A.stop.toNat) :
    A.pagesize.toNat ∣ (alignUp (need - brkp) A.pagesize).toNat ∧
      need.toNat ≤ brkp.toNat + (alignUp (need - brkp) A.pagesize).toNat ∧
      brkp.toNat + (alignUp (need - brkp) A.pagesize).toNat ≤ A.stop.toNat := by
  obtain ⟨k, hk⟩ := hA.pow
  have hbelow := A.below
  have hsub : (need - brkp).toNat = need.toNat - brkp.toNat :=
    BitVec.toNat_sub_of_le (by rw [BitVec.le_def]; omega)
  -- the arena is not empty, so a page is no larger than it
  have hpage_le := add_page_le hpage hA.stop (by omega)
  have hk62 : k ≤ 62 := by
    have hlt : 2 ^ k < 2 ^ 63 := by omega
    have := (Nat.pow_lt_pow_iff_right (by decide : 1 < 2)).mp hlt
    omega
  obtain ⟨hup, -, hlt, hdvd⟩ := alignUp_spec (v := need - brkp) (by omega) hk62 hk
  rw [hsub] at hup hlt
  refine ⟨hk ▸ hdvd, by omega, ?_⟩
  -- rounding up to a page cannot pass the end of the arena, which is a page boundary
  have hnew : A.pagesize.toNat ∣ brkp.toNat + (alignUp (need - brkp) A.pagesize).toNat :=
    Nat.dvd_add hpage (hk ▸ hdvd)
  by_contra hgt
  have hfar := add_page_le hA.stop hnew (by omega)
  omega

/-! ## The invariant -/

/-- The points at which a thread holds the lock. -/
def Phase.holds : Phase → Bool
  | .recheck _ | .protect _ _ _ | .advance _ _ | .release _ => true
  | .load | .cas _ _ _ | .check _ | .acquire _ => false

def Local.holds : Local → Bool
  | .idle => false
  | .running _ _ p => p.holds

structure BackedInv (A : Arena) (sh : Shared) : Prop where
  ge : A.start.toNat ≤ sh.brkp.toNat
  le : sh.brkp.toNat ≤ A.stop.toNat
  page : A.pagesize.toNat ∣ sh.brkp.toNat
  covered : ∀ q, A.start.toNat ≤ q → q < sh.brkp.toNat → A.pagesize.toNat ∣ q →
    Covered A sh.backed q
  returned : ∀ x ∈ sh.returned, ∀ r, x.result = .ok r →
    r.toNat + x.call.size.toNat ≤ sh.brkp.toNat

/-- What the holder of the lock knows. -/
def HolderInv (A : Arena) (sh : Shared) (c : Call) : Phase → Prop
  | .protect result curBrkp newpgsz =>
      curBrkp = sh.brkp ∧ A.pagesize.toNat ∣ newpgsz.toNat ∧
        result.toNat + c.size.toNat ≤ curBrkp.toNat + newpgsz.toNat ∧
        curBrkp.toNat + newpgsz.toNat ≤ A.stop.toNat
  | .advance result newBrkp =>
      sh.brkp.toNat ≤ newBrkp.toNat ∧ newBrkp.toNat ≤ A.stop.toNat ∧
        A.pagesize.toNat ∣ newBrkp.toNat ∧ result.toNat + c.size.toNat ≤ newBrkp.toNat ∧
        ∀ q, sh.brkp.toNat ≤ q → q < newBrkp.toNat → A.pagesize.toNat ∣ q → Covered A sh.backed q
  | .release result => result.toNat + c.size.toNat ≤ sh.brkp.toNat
  | _ => True

def LockInv (A : Arena) (sh : Shared) : Local → Prop
  | .idle => True
  | .running c _ p => (p.holds = true → sh.lock = true) ∧ HolderInv A sh c p

/-- Two threads do not hold the lock at once. -/
def OneHolder (l l' : Local) : Prop := ¬ (l.holds = true ∧ l'.holds = true)

/-- The steps considered: sized calls, and no `mprotect` that fails. -/
def Backing (A : Arena) (sh : Shared) (l : Local) (a : Act) : Prop :=
  Sized A sh l a ∧
    match l, a with
    | .running _ _ (.protect _ _ _), .go ok => ok = true
    | _, _ => True

instance (A : Arena) (sh : Shared) (l : Local) (a : Act) : Decidable (Backing A sh l a) := by
  unfold Backing
  split <;> infer_instance

/-- Only the lock, `brkp` and the pages matter to the holder. -/
theorem HolderInv.congr {A : Arena} {sh sh' : Shared} {c : Call} {p : Phase}
    (h : HolderInv A sh c p) (hbrkp : sh'.brkp = sh.brkp) (hbacked : sh'.backed = sh.backed) :
    HolderInv A sh' c p := by
  cases p with
  | protect result curBrkp newpgsz => rw [HolderInv, hbrkp]; exact h
  | advance result newBrkp => rw [HolderInv, hbrkp, hbacked]; exact h
  | release result => rw [HolderInv, hbrkp]; exact h
  | load | cas _ _ _ | check _ | acquire _ | recheck _ => trivial

theorem LockInv.congr {A : Arena} {sh sh' : Shared} {l : Local} (h : LockInv A sh l)
    (hlock : sh'.lock = sh.lock) (hbrkp : sh'.brkp = sh.brkp) (hbacked : sh'.backed = sh.backed) :
    LockInv A sh' l := by
  cases l with
  | idle => trivial
  | running c moved p => exact ⟨by rw [hlock]; exact h.1, h.2.congr hbrkp hbacked⟩

/-- A thread that does not hold the lock knows nothing that could change. -/
theorem LockInv.of_not_holds {A : Arena} (sh : Shared) {l : Local} (h : l.holds = false) :
    LockInv A sh l := by
  cases l with
  | idle => trivial
  | running c moved p =>
      refine ⟨fun hp => ?_, ?_⟩
      · rw [Local.holds] at h
        rw [h] at hp
        cases hp
      · cases p with
        | protect _ _ _ | advance _ _ | release _ => cases h
        | load | cas _ _ _ | check _ | acquire _ | recheck _ => trivial

theorem BackedInv.push {A : Arena} {sh : Shared} (h : BackedInv A sh) {q : Return}
    (hq : ∀ r, q.result = .ok r → r.toNat + q.call.size.toNat ≤ sh.brkp.toNat) :
    BackedInv A { sh with returned := q :: sh.returned } where
  ge := h.ge
  le := h.le
  page := h.page
  covered := h.covered
  returned := by
    intro x hx r hr
    rcases List.mem_cons.mp hx with rfl | hx
    · exact hq r hr
    · exact h.returned x hx r hr

/-- What a step of a running call leaves behind: the facts about the pages, and what the
call knows at its next point or promises with its result. -/
def Leaves (A : Arena) (c : Call) (r : Shared × Next) : Prop :=
  BackedInv A r.1 ∧
    match r.2 with
    | .goto p => (p.holds = true → r.1.lock = true) ∧ HolderInv A r.1 c p
    | .ret result => ∀ b, result = .ok b → b.toNat + c.size.toNat ≤ r.1.brkp.toNat

theorem phaseStep_leaves {A : Arena} (hA : A.Paged) {sh : Shared} {c : Call} {moved ok : Bool}
    {p : Phase} (hG : SharedInv A sh) (hP : RunningInv A sh c moved p) (hB : BackedInv A sh)
    (hL : (p.holds = true → sh.lock = true) ∧ HolderInv A sh c p)
    (hok : Backing A sh (.running c moved p) (.go ok)) :
    Leaves A c (phaseStep A sh c ok p) := by
  have hbelow := A.below
  have hbrk := hG.brk_le
  -- the end of a claimed block, as the code computes it
  have hneed : ∀ r, p.result? = some r → (r + c.size).toNat = r.toNat + c.size.toNat ∧
      r.toNat + c.size.toNat ≤ A.stop.toNat := by
    intro r hr
    have hle := (hP.claim r hr).le
    refine ⟨?_, by omega⟩
    rw [BitVec.toNat_add]
    exact Nat.mod_eq_of_lt (by omega)
  cases p with
  | load =>
      rw [phaseStep]
      split_ifs
      · exact ⟨hB, nofun⟩
      · exact ⟨hB, nofun, trivial⟩
  | cas oldBrk result newBrk =>
      rw [phaseStep]
      split_ifs
      · exact ⟨⟨hB.ge, hB.le, hB.page, hB.covered, hB.returned⟩, nofun, trivial⟩
      · exact ⟨hB, nofun, trivial⟩
  | check result =>
      obtain ⟨hsum, -⟩ := hneed result rfl
      rw [phaseStep]
      split_ifs with h
      · refine ⟨hB, ?_⟩
        rintro b ⟨⟩
        rwa [BitVec.le_def, hsum] at h
      · exact ⟨hB, nofun, trivial⟩
  | acquire result =>
      rw [phaseStep]
      split_ifs
      · exact ⟨hB, nofun, trivial⟩
      · exact ⟨⟨hB.ge, hB.le, hB.page, hB.covered, hB.returned⟩, fun _ => rfl, trivial⟩
  | recheck result =>
      obtain ⟨hsum, hstop⟩ := hneed result rfl
      rw [phaseStep]
      split_ifs with h
      · rw [BitVec.lt_def] at h
        obtain ⟨hdvd, hreach, hin⟩ := newpgsz_spec hA hB.ge hB.page h (hsum ▸ hstop)
        exact ⟨hB, hL.1, rfl, hdvd, hsum ▸ hreach, hin⟩
      · rw [BitVec.lt_def, hsum] at h
        exact ⟨hB, hL.1, Nat.le_of_not_lt h⟩
  | protect result curBrkp newpgsz =>
      obtain ⟨rfl, hdvd, hreach, hin⟩ := hL.2
      have hsum : (sh.brkp + newpgsz).toNat = sh.brkp.toNat + newpgsz.toNat := by
        rw [BitVec.toNat_add]
        exact Nat.mod_eq_of_lt (by omega)
      obtain rfl : ok = true := hok.2
      have hsub : sh.backed ⊆ (sh.brkp, newpgsz) :: sh.backed := List.subset_cons_self _ _
      refine ⟨⟨hB.ge, hB.le, hB.page, fun q hge hlt hq => (hB.covered q hge hlt hq).mono hsub,
        hB.returned⟩, hL.1, ?_⟩
      rw [HolderInv, hsum]
      refine ⟨Nat.le_add_right _ _, hin, Nat.dvd_add hB.page hdvd, hreach, fun q hge hlt hq => ?_⟩
      exact ⟨_, List.mem_cons_self, hge, add_page_le hq (Nat.dvd_add hB.page hdvd) hlt⟩
  | advance result newBrkp =>
      obtain ⟨hge, hle, hdvd, hreach, hcov⟩ := hL.2
      refine ⟨⟨hB.ge.trans hge, hle, hdvd, fun q hq hlt hpq => ?_, fun x hx r hr =>
        (hB.returned x hx r hr).trans hge⟩, hL.1, hreach⟩
      by_cases hold : q < sh.brkp.toNat
      · exact hB.covered q hq hold hpq
      · exact hcov q (Nat.le_of_not_lt hold) hlt hpq
  | release result =>
      refine ⟨⟨hB.ge, hB.le, hB.page, hB.covered, hB.returned⟩, ?_⟩
      rintro b ⟨⟩
      exact hL.2

theorem arenaStep_backed_own {A : Arena} (hA : A.Paged) {sh sh' : Shared} {l l' : Local} {a : Act}
    (hG : SharedInv A sh) (hP : ThreadInv A sh l) (hB : BackedInv A sh) (hL : LockInv A sh l)
    (hok : Backing A sh l a) (hs : arenaStep A sh l a = some (sh', l')) :
    BackedInv A sh' ∧ LockInv A sh' l' := by
  cases l with
  | idle =>
      cases a with
      | go ok => cases hs
      | call size alignment =>
          rw [arenaStep, enter] at hs
          split_ifs at hs
          · cases hs
            refine ⟨hB.push ?_, trivial⟩
            intro a ha
            cases ha
          · cases hs
            refine ⟨hB, ?_, trivial⟩
            intro h
            cases h
  | running c moved p =>
      cases a with
      | call size alignment => cases hs
      | go ok =>
          have hleaves := phaseStep_leaves hA hG hP hB hL hok
          rw [arenaStep] at hs
          generalize phaseStep A sh c ok p = step at hleaves hs
          obtain ⟨sh₁, next⟩ := step
          cases next with
          | goto p' =>
              cases hs
              exact hleaves
          | ret result =>
              cases hs
              exact ⟨hleaves.1.push hleaves.2, trivial⟩

/-- A step of a thread that does not hold the lock leaves `brkp` and the pages alone, and
takes the lock only when it is free. -/
theorem arenaStep_of_not_holds {A : Arena} {sh sh' : Shared} {l l' : Local} {a : Act}
    (hl : l.holds = false) (hs : arenaStep A sh l a = some (sh', l')) :
    sh'.brkp = sh.brkp ∧ sh'.backed = sh.backed ∧
      (sh.lock = true → sh'.lock = true ∧ l'.holds = false) := by
  cases l with
  | idle =>
      cases a with
      | go ok => cases hs
      | call size alignment =>
          rw [arenaStep, enter] at hs
          split_ifs at hs <;> cases hs <;> exact ⟨rfl, rfl, fun h => ⟨h, rfl⟩⟩
  | running c moved p =>
      cases a with
      | call size alignment => cases hs
      | go ok =>
          rw [arenaStep] at hs
          cases p with
          | protect _ _ _ | advance _ _ | release _ | recheck _ => cases hl
          | acquire result =>
              rw [phaseStep] at hs
              split_ifs at hs with hlock <;> cases hs
              · exact ⟨rfl, rfl, fun h => ⟨h, rfl⟩⟩
              · exact ⟨rfl, rfl, fun h => absurd h hlock⟩
          | load | cas _ _ _ | check _ =>
              rw [phaseStep] at hs
              split_ifs at hs <;> cases hs <;> exact ⟨rfl, rfl, fun h => ⟨h, rfl⟩⟩

theorem arenaStep_backed_other {A : Arena} {sh sh' : Shared} {l l' l₀ : Local} {a : Act}
    (hL₀ : LockInv A sh l₀) (hone : OneHolder l l₀)
    (hs : arenaStep A sh l a = some (sh', l')) : LockInv A sh' l₀ ∧ OneHolder l' l₀ := by
  cases h₀ : l₀.holds with
  | false => exact ⟨.of_not_holds sh' h₀, fun h => by rw [h₀] at h; cases h.2⟩
  | true =>
      have hl : l.holds = false := by
        cases h : l.holds with
        | false => rfl
        | true => exact absurd ⟨h, h₀⟩ hone
      have hlock : sh.lock = true := by
        cases l₀ with
        | idle => cases h₀
        | running c moved p => exact hL₀.1 h₀
      obtain ⟨hbrkp, hbacked, htaken⟩ := arenaStep_of_not_holds hl hs
      obtain ⟨hlock', hl'⟩ := htaken hlock
      exact ⟨hL₀.congr (hlock'.trans hlock.symm) hbrkp hbacked, fun h => by
        rw [hl'] at h; cases h.1⟩

theorem arena_backed_interference {A : Arena} (hA : A.Paged) :
    Interference (arenaStep A) (Backing A) (fun sh => SharedInv A sh ∧ BackedInv A sh)
      (fun sh l => ThreadInv A sh l ∧ LockInv A sh l)
      (fun l l' => PairInv l l' ∧ OneHolder l l') :=
  ((arena_interference A).mono fun _ _ _ h => h.1).and (fun _ _ h h' => h h'.symm)
    (fun _ _ _ _ _ hG hP hB hL hok hs => arenaStep_backed_own hA hG hP hB hL hok hs)
    (fun _ _ _ _ _ _ _ hL₀ hone hs => arenaStep_backed_other hL₀ hone hs)

/-! ## Accessible blocks -/

/-- The blocks and the pages of an arena, in every state of a run. -/
def AccessInv (A : Arena) {T : Type} (s : State T Shared Local) : Prop :=
  Holds (fun sh => SharedInv A sh ∧ BackedInv A sh) (fun sh l => ThreadInv A sh l ∧ LockInv A sh l)
    (fun l l' => PairInv l l' ∧ OneHolder l l') s

theorem arenaInit_access {A : Arena} (hA : A.Paged) (T : Type) :
    AccessInv A (arenaInit A T) where
  shared := by
    refine ⟨(arenaInit_holds A T).shared, le_rfl, A.ordered, hA.start, ?_, nofun⟩
    intro q hge hlt _
    exact absurd hlt (Nat.not_lt.mpr hge)
  thread := fun _ => ⟨trivial, trivial⟩
  apart := fun t t' h => ⟨(arenaInit_holds A T).apart t t' h, nofun⟩

/-- Every page of every returned block is covered by a completed `mprotect`, and `brkp` is
a page boundary in the arena. -/
structure Backed (A : Arena) (sh : Shared) : Prop where
  pages : ∀ x ∈ sh.returned, ∀ r, x.result = .ok r →
    ∀ a, r.toNat ≤ a → a < r.toNat + x.call.size.toNat →
      Covered A sh.backed (a / A.pagesize.toNat * A.pagesize.toNat)
  aligned : A.pagesize.toNat ∣ sh.brkp.toNat
  le : sh.brkp.toNat ≤ A.stop.toNat

theorem backed_of_inv {A : Arena} (hA : A.Paged) {sh : Shared} (hG : SharedInv A sh)
    (hB : BackedInv A sh) : Backed A sh := by
  refine ⟨fun x hx r hr a hra halt => ?_, hB.page, hB.le⟩
  have hend := hB.returned x hx r hr
  have hle : a / A.pagesize.toNat * A.pagesize.toNat ≤ a := Nat.div_mul_le_self _ _
  refine hB.covered _ ?_ (by omega) (Nat.dvd_mul_left _ _)
  -- the page of an address in the arena starts in the arena
  have hstart : A.start.toNat ≤ a := (hG.ok x hx r hr).ge.trans hra
  obtain ⟨j, hj⟩ := hA.start
  obtain ⟨k, hk⟩ := hA.pow
  have hpos : 0 < A.pagesize.toNat := by rw [hk]; positivity
  rw [hj, Nat.mul_comm]
  refine Nat.mul_le_mul_right _ ((Nat.le_div_iff_mul_le hpos).mpr ?_)
  rw [Nat.mul_comm, ← hj]
  exact hstart

/-- `brkp` does not decrease. -/
theorem brkp_mono {A : Arena} {T : Type} [DecidableEq T] {s s' : State T Shared Local}
    {a : T × Act}
    (h : AccessInv A s) (hs : act (arenaStep A) s a = some s') :
    s.shared.brkp.toNat ≤ s'.shared.brkp.toNat := by
  obtain ⟨t, a⟩ := a
  obtain ⟨sh, l, hloc, rfl⟩ := act_eq_some hs
  have hL := (h.thread t).2
  cases hl : s.thread t with
  | idle =>
      rw [hl] at hloc
      rw [(arenaStep_of_not_holds rfl hloc).1]
  | running c moved p =>
      rw [hl] at hloc hL
      cases a with
      | call size alignment => cases hloc
      | go ok =>
          rw [arenaStep] at hloc
          cases p with
          | advance result newBrkp =>
              cases hloc
              exact hL.2.1
          | protect _ _ _ | release _ =>
              cases hloc
              exact le_rfl
          | load | cas _ _ _ | check _ | acquire _ | recheck _ =>
              rw [phaseStep] at hloc
              split_ifs at hloc <;> cases hloc <;> exact le_rfl

/-- **Returned memory is accessible as long as `mprotect` succeeds.** In every run whose
calls ask for no more than the arena has and whose `mprotect` calls all succeed, every page
of a returned block has been covered, and `brkp` is a page boundary in the arena and does
not decrease from there on. -/
theorem arena_alloc_backed (A : Arena) (hA : A.Paged) {T : Type} [DecidableEq T]
    (as as' : List (T × Act)) {s s' : State T Shared Local}
    (hok : AllSteps (act (arenaStep A)) (okAct (Backing A)) (arenaInit A T) as)
    (hrun : run (act (arenaStep A)) (arenaInit A T) as = some s)
    (hok' : AllSteps (act (arenaStep A)) (okAct (Backing A)) s as')
    (hrun' : run (act (arenaStep A)) s as' = some s') :
    Backed A s.shared ∧ s.shared.brkp.toNat ≤ s'.shared.brkp.toNat := by
  have hI := arena_backed_interference hA
  have h : AccessInv A s := hI.run as (arenaInit_access hA T) hok hrun
  have hstep : ∀ (u : State T Shared Local) (a : T × Act) (u' : State T Shared Local),
      AccessInv A u ∧ s.shared.brkp.toNat ≤ u.shared.brkp.toNat →
      okAct (Backing A) u a → act (arenaStep A) u a = some u' →
      AccessInv A u' ∧ s.shared.brkp.toNat ≤ u'.shared.brkp.toNat :=
    fun u a u' hu hback hs => ⟨hI.step hu.1 hback hs, hu.2.trans (brkp_mono hu.1 hs)⟩
  exact ⟨backed_of_inv hA h.shared.1 h.shared.2,
    (run_invariant_of hstep as' ⟨h, le_rfl⟩ hok' hrun').2⟩

theorem smallArena_paged : smallArena.Paged := ⟨⟨12, rfl⟩, by decide, by decide⟩

/-- The race of two allocations, when the first block has been returned. -/
def racingState : State Bool Shared Local :=
  (run (act (arenaStep smallArena)) (arenaInit smallArena Bool) (racingAllocs.take 14)).get
    (by decide)

/-- The first block is accessible, and `brkp` stays where it is for the second. -/
theorem arena_alloc_backed_race :
    ∃ s', run (act (arenaStep smallArena)) (arenaInit smallArena Bool)
        (racingAllocs.take 14) = some racingState ∧
      run (act (arenaStep smallArena)) racingState (racingAllocs.drop 14) = some s' ∧
      Backed smallArena racingState.shared ∧
        racingState.shared.brkp.toNat ≤ s'.shared.brkp.toNat := by
  have hrun : run (act (arenaStep smallArena)) (arenaInit smallArena Bool)
      (racingAllocs.take 14) = some racingState := (Option.some_get (by decide)).symm
  obtain ⟨s', hrun'⟩ := Option.isSome_iff_exists.mp
    (by decide : (run (act (arenaStep smallArena)) racingState (racingAllocs.drop 14)).isSome = true)
  exact ⟨s', hrun, hrun', arena_alloc_backed smallArena smallArena_paged _ _ (by decide) hrun
    (by decide) hrun'⟩

/-- One thread allocates a byte, and the only `mprotect` fails. -/
def unbackedAlloc : List (Unit × Act) :=
  [((), .call 1#64 1#64), ((), .go true), ((), .go true), ((), .go true), ((), .go true),
    ((), .go true), ((), .go false), ((), .go true), ((), .go true)]

/-- The block is returned although no page of the arena is accessible. -/
theorem mprotect_failure_ignored :
    ∃ s, run (act (arenaStep smallArena)) (arenaInit smallArena Unit) unbackedAlloc = some s ∧
      ¬ Backed smallArena s.shared := by
  have heval : (run (act (arenaStep smallArena)) (arenaInit smallArena Unit) unbackedAlloc).map
      (fun s => (s.shared.returned, s.shared.backed)) =
      some ([⟨⟨1#64, 1#64⟩, .ok 0x400000000000#64, true⟩], []) := by decide
  obtain ⟨s, hs, hproj⟩ := Option.map_eq_some_iff.mp heval
  obtain ⟨hret, hbacked⟩ := Prod.mk.inj hproj
  refine ⟨s, hs, fun h => ?_⟩
  obtain ⟨b, hb, -⟩ := h.pages _ (by rw [hret]; exact List.mem_cons_self) _ rfl _ le_rfl (by decide)
  rw [hbacked] at hb
  cases hb

end Instrew.Client.Memory
