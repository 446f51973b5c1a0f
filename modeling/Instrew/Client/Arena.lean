import Instrew.Client.LoadObject
import Instrew.Lib.Imm
import Instrew.Lib.Threads

/-!
# The memory arenas

`arena_alloc` and `arena_ensure_backed` of `client/memory.c`, called by any number of
threads. A thread is at one of the points between two accesses to the shared words
(`Phase`); one action is one such access. The compare-exchange of `arena_alloc` is the
weak one, so it may fail for no reason, and `mprotect` may succeed or fail: both choices
are part of the action.

Two histories stand beside the memory: the calls that have returned, and for each call
whether one of its steps has changed `brk`. The headline is `arena_alloc_disjoint`.
-/

namespace Instrew.Client.Memory

open Lib.Run Lib.Threads Lib.Imm

/-! ## The shared words and the points of a call -/

/-- The fields of `struct Arena` that do not change, with the host's page size. -/
structure Arena : Type where
  start : Word
  stop : Word
  pagesize : Word
  ordered : start.toNat ≤ stop.toNat
  below : stop.toNat < 2 ^ 63

/-- The number of bytes of the arena. -/
def Arena.size (A : Arena) : Nat := A.stop.toNat - A.start.toNat

/-- The arguments of `arena_alloc`. -/
structure Call : Type where
  size : Word
  alignment : Word
deriving DecidableEq

/-- The alignment that is used. -/
def Call.align (c : Call) : Word := if c.alignment < 0x40#64 then 0x40#64 else c.alignment

/-- A call that has returned. `moved` tells whether one of its steps changed `brk`. -/
structure Return : Type where
  call : Call
  result : Except Errno Word
  moved : Bool
deriving DecidableEq

structure Shared : Type where
  brk : Word
  brkp : Word
  /-- `mprotect_lock` -/
  lock : Bool
  /-- The `mprotect` calls that have succeeded, each with its address and size. -/
  backed : List (Word × Word)
  returned : List Return

/-- The next access of a running call. -/
inductive Phase : Type where
  /-- the load of `brk` at the head of the loop -/
  | load
  /-- the compare-exchange of `brk` -/
  | cas (oldBrk result newBrk : Word)
  /-- the load of `brkp` without the lock -/
  | check (result : Word)
  /-- the compare-exchange of the lock -/
  | acquire (result : Word)
  /-- the load of `brkp` under the lock -/
  | recheck (result : Word)
  /-- the call of `mprotect` -/
  | protect (result curBrkp newpgsz : Word)
  /-- the store of `brkp` -/
  | advance (result newBrkp : Word)
  /-- the store that unlocks -/
  | release (result : Word)
deriving DecidableEq

inductive Local : Type where
  | idle
  | running (call : Call) (moved : Bool) (phase : Phase)

/-- A step of a thread: a new call, or the next access of the running one. `ok` is the
outcome of an `mprotect` and, if the words are equal, of a weak compare-exchange. -/
inductive Act : Type where
  | call (size alignment : Word)
  | go (ok : Bool)
deriving DecidableEq

/-- Where a step leads: to the next access, or out of `arena_alloc`. -/
inductive Next : Type where
  | goto (phase : Phase)
  | ret (result : Except Errno Word)

/-- `arena_alloc` up to its loop. -/
def enter (c : Call) : Next :=
  if c.align &&& (c.align - 1#64) ≠ 0#64 then .ret (.error .EINVAL) else .goto .load

/-- One access of a running call, and the computation that follows it. -/
def phaseStep (A : Arena) (sh : Shared) (c : Call) (ok : Bool) : Phase → Shared × Next
  | .load =>
      let result := alignUp sh.brk c.align
      let newBrk := result + c.size
      if A.stop < newBrk then (sh, .ret (.error .ENOMEM))
      else (sh, .goto (.cas sh.brk result newBrk))
  | .cas oldBrk result newBrk =>
      if sh.brk = oldBrk ∧ ok = true then ({ sh with brk := newBrk }, .goto (.check result))
      else (sh, .goto .load)
  | .check result =>
      if result + c.size ≤ sh.brkp then (sh, .ret (.ok result))
      else (sh, .goto (.acquire result))
  | .acquire result =>
      if sh.lock then (sh, .goto (.acquire result))
      else ({ sh with lock := true }, .goto (.recheck result))
  | .recheck result =>
      if sh.brkp < result + c.size then
        (sh, .goto (.protect result sh.brkp
          (alignUp (result + c.size - sh.brkp) A.pagesize)))
      else (sh, .goto (.release result))
  | .protect result curBrkp newpgsz =>
      -- the result of mprotect is not looked at
      ({ sh with backed := if ok then (curBrkp, newpgsz) :: sh.backed else sh.backed },
        .goto (.advance result (curBrkp + newpgsz)))
  | .advance result newBrkp => ({ sh with brkp := newBrkp }, .goto (.release result))
  | .release result => ({ sh with lock := false }, .ret (.ok result))

/-- Keep the histories. -/
def settle (sh : Shared) (c : Call) (moved : Bool) (r : Shared × Next) : Shared × Local :=
  let moved := moved || r.1.brk != sh.brk
  match r.2 with
  | .goto phase => (r.1, .running c moved phase)
  | .ret result => ({ r.1 with returned := ⟨c, result, moved⟩ :: r.1.returned }, .idle)

/-- One step of a thread. -/
def arenaStep (A : Arena) (sh : Shared) : Local → Act → Option (Shared × Local)
  | .idle, .call size alignment =>
      some (settle sh ⟨size, alignment⟩ false (sh, enter ⟨size, alignment⟩))
  | .running c moved phase, .go ok => some (settle sh c moved (phaseStep A sh c ok phase))
  | _, _ => none

/-- The arena after `arena_init`, with no call running. -/
def arenaInit (A : Arena) (T : Type) : State T Shared Local :=
  ⟨⟨A.start, A.start, false, [], []⟩, fun _ => .idle⟩

/-- The calls that ask for no more than the arena has. -/
def Sized (A : Arena) (_ : Shared) (_ : Local) : Act → Prop
  | .call size alignment => size.toNat ≤ A.size ∧ alignment.toNat ≤ A.size
  | .go _ => True

instance (A : Arena) (sh : Shared) (l : Local) (a : Act) : Decidable (Sized A sh l a) :=
  match a with
  | .call _ _ => inferInstanceAs (Decidable (_ ∧ _))
  | .go _ => .isTrue trivial

/-! ## What a step can do -/

/-- The block a call has claimed and not yet returned. -/
def Phase.result? : Phase → Option Word
  | load | cas _ _ _ => none
  | check r | acquire r | recheck r | protect r _ _ | advance r _ | release r => some r

theorem phaseStep_cases (A : Arena) (sh : Shared) (c : Call) (ok : Bool) (p : Phase) :
    (∃ sh' p', phaseStep A sh c ok p = (sh', .goto p') ∧ sh'.brk = sh.brk ∧
      sh'.returned = sh.returned ∧ p'.result? = p.result? ∧
      ∀ oldBrk result newBrk, p' = .cas oldBrk result newBrk →
        oldBrk = sh.brk ∧ result = alignUp sh.brk c.align ∧ newBrk = result + c.size ∧
          ¬ A.stop < newBrk) ∨
    (∃ result newBrk, p = .cas sh.brk result newBrk ∧
      phaseStep A sh c ok p = ({ sh with brk := newBrk }, .goto (.check result))) ∨
    (∃ sh' result, phaseStep A sh c ok p = (sh', .ret (.ok result)) ∧ sh'.brk = sh.brk ∧
      sh'.returned = sh.returned ∧ p.result? = some result) ∨
    (p = .load ∧ phaseStep A sh c ok p = (sh, .ret (.error .ENOMEM))) := by
  cases p with
  | load =>
      by_cases h : A.stop < alignUp sh.brk c.align + c.size
      · exact .inr (.inr (.inr ⟨rfl, if_pos h⟩))
      · refine .inl ⟨_, _, if_neg h, rfl, rfl, rfl, ?_⟩
        rintro _ _ _ ⟨⟩
        exact ⟨rfl, rfl, rfl, h⟩
  | cas oldBrk result newBrk =>
      by_cases h : sh.brk = oldBrk ∧ ok = true
      · exact .inr (.inl ⟨result, newBrk, by rw [h.1], if_pos h⟩)
      · exact .inl ⟨_, _, if_neg h, rfl, rfl, rfl, nofun⟩
  | check result =>
      by_cases h : result + c.size ≤ sh.brkp
      · exact .inr (.inr (.inl ⟨_, result, if_pos h, rfl, rfl, rfl⟩))
      · exact .inl ⟨_, _, if_neg h, rfl, rfl, rfl, nofun⟩
  | acquire result =>
      by_cases h : sh.lock = true
      · exact .inl ⟨_, _, if_pos h, rfl, rfl, rfl, nofun⟩
      · exact .inl ⟨_, _, if_neg h, rfl, rfl, rfl, nofun⟩
  | recheck result =>
      by_cases h : sh.brkp < result + c.size
      · exact .inl ⟨_, _, if_pos h, rfl, rfl, rfl, nofun⟩
      · exact .inl ⟨_, _, if_neg h, rfl, rfl, rfl, nofun⟩
  | protect result curBrkp newpgsz => exact .inl ⟨_, _, rfl, rfl, rfl, rfl, nofun⟩
  | advance result newBrkp => exact .inl ⟨_, _, rfl, rfl, rfl, rfl, nofun⟩
  | release result => exact .inr (.inr (.inl ⟨_, result, rfl, rfl, rfl, rfl⟩))

/-! ## Bumping `brk` -/

/-- The arena size bounds the alignment, and so its power of two. -/
theorem align_two_pow {A : Arena} {c : Call} (halign : c.alignment.toNat ≤ A.size)
    (hpow : c.align &&& (c.align - 1#64) = 0#64) : ∃ k ≤ 62, c.align.toNat = 2 ^ k := by
  have hlt : c.align.toNat < 2 ^ 63 := by
    have hbelow := A.below
    rw [Arena.size] at halign
    rw [Call.align]
    split_ifs
    · decide
    · omega
  have hpos : 0 < c.align.toNat := by
    rw [Call.align]
    split_ifs with h
    · decide
    · rw [BitVec.lt_def] at h
      have h40 : (0x40#64).toNat = 64 := rfl
      omega
  obtain ⟨k, hk⟩ := exists_two_pow_of_and_sub_one hpos hpow
  rw [hk] at hlt
  exact ⟨k, by have := (Nat.pow_lt_pow_iff_right (by decide : 1 < 2)).mp hlt; omega, hk⟩

/-- Rounding up below 2^63 does not wrap. -/
theorem alignUp_spec {v a : Word} {k : Nat} (hv : v.toNat ≤ 2 ^ 63) (hk : k ≤ 62)
    (ha : a.toNat = 2 ^ k) :
    v.toNat ≤ (alignUp v a).toNat ∧ (alignUp v a).toNat ≤ 2 ^ 63 ∧
      (alignUp v a).toNat < v.toNat + 2 ^ k ∧ 2 ^ k ∣ (alignUp v a).toNat := by
  have hpow : (2 : Nat) ^ k ≤ 2 ^ 62 := Nat.pow_le_pow_right (by decide) hk
  have hpos : 0 < (2 : Nat) ^ k := by positivity
  have hsum : (v + (a - 1#64)).toNat = v.toNat + (2 ^ k - 1) := by
    rw [BitVec.toNat_add, toNat_sub_one ha]
    exact Nat.mod_eq_of_lt (by omega)
  have hup : (alignUp v a).toNat = (v.toNat + (2 ^ k - 1)) / 2 ^ k * 2 ^ k := by
    rw [alignUp, toNat_and_not_sub_one ha, hsum]
  have hdm := Nat.div_add_mod (v.toNat + (2 ^ k - 1)) (2 ^ k)
  have hmod := Nat.mod_lt (v.toNat + (2 ^ k - 1)) hpos
  rw [Nat.mul_comm] at hdm
  -- 2^63 is itself a multiple, so nothing below it is rounded past it
  have hle : (v.toNat + (2 ^ k - 1)) / 2 ^ k ≤ 2 ^ (63 - k) := by
    have h63 : (2 : Nat) ^ 63 = 2 ^ (63 - k) * 2 ^ k := by
      rw [← pow_add, Nat.sub_add_cancel (by omega)]
    refine Nat.lt_succ_iff.mp ((Nat.div_lt_iff_lt_mul hpos).mpr ?_)
    rw [Nat.succ_mul, ← h63]
    omega
  refine ⟨by omega, ?_, by omega, hup ▸ Nat.dvd_mul_left _ _⟩
  calc (alignUp v a).toNat = (v.toNat + (2 ^ k - 1)) / 2 ^ k * 2 ^ k := hup
    _ ≤ 2 ^ (63 - k) * 2 ^ k := Nat.mul_le_mul_right _ hle
    _ = 2 ^ 63 := by rw [← pow_add, Nat.sub_add_cancel (by omega)]

/-- What the arguments of a running call are known to be. -/
structure CallOk (A : Arena) (c : Call) : Prop where
  size : c.size.toNat ≤ A.size
  align : ∃ k ≤ 62, c.align.toNat = 2 ^ k

/-- A block claimed from `brk`, as the loop computes it. -/
structure Bump (A : Arena) (c : Call) (oldBrk result newBrk : Word) : Prop where
  ge : oldBrk.toNat ≤ result.toNat
  aligned : c.align.toNat ∣ result.toNat
  size : newBrk.toNat = result.toNat + c.size.toNat
  le : newBrk.toNat ≤ A.stop.toNat

theorem Bump.grows {A : Arena} {c : Call} {oldBrk result newBrk : Word}
    (h : Bump A c oldBrk result newBrk) : oldBrk.toNat ≤ newBrk.toNat := by
  have hge := h.ge
  have hsize := h.size
  omega

theorem bump {A : Arena} {c : Call} (hc : CallOk A c) {brk : Word}
    (hbrk : brk.toNat ≤ A.stop.toNat) (hfits : ¬ A.stop < alignUp brk c.align + c.size) :
    Bump A c brk (alignUp brk c.align) (alignUp brk c.align + c.size) := by
  obtain ⟨k, hk, hpow⟩ := hc.align
  have hbelow := A.below
  have hsize := hc.size
  obtain ⟨hge, hle, -, hdvd⟩ := alignUp_spec (v := brk) (by omega) hk hpow
  have hsum : (alignUp brk c.align + c.size).toNat =
      (alignUp brk c.align).toNat + c.size.toNat := by
    rw [Arena.size] at hsize
    rw [BitVec.toNat_add]
    exact Nat.mod_eq_of_lt (by omega)
  rw [BitVec.lt_def] at hfits
  exact ⟨hge, hpow ▸ hdvd, hsum, by omega⟩

/-! ## The invariant -/

/-- Two ranges, each a first address and a length. -/
def Apart (x y : Nat × Nat) : Prop := x.1 + x.2 ≤ y.1 ∨ y.1 + y.2 ≤ x.1

instance (x y : Nat × Nat) : Decidable (Apart x y) := inferInstanceAs (Decidable (_ ∨ _))

theorem Apart.symm {x y : Nat × Nat} (h : Apart x y) : Apart y x := Or.symm h

/-- The range a call has returned. -/
def Return.range? (q : Return) : Option (Nat × Nat) :=
  match q.result with
  | .ok r => some (r.toNat, q.call.size.toNat)
  | .error _ => none

/-- The ranges returned so far. -/
def Shared.ranges (sh : Shared) : List (Nat × Nat) := sh.returned.filterMap Return.range?

theorem Shared.ranges_congr {sh sh' : Shared} (h : sh'.returned = sh.returned) :
    sh'.ranges = sh.ranges := by
  rw [Shared.ranges, h]
  rfl

/-- The range a running call has claimed. -/
def Local.range? : Local → Option (Nat × Nat)
  | .idle => none
  | .running c _ p => p.result?.map fun r => (r.toNat, c.size.toNat)

/-- A block lies in the arena, below `brk`. -/
structure InArena (A : Arena) (brk : Word) (c : Call) (r : Word) : Prop where
  ge : A.start.toNat ≤ r.toNat
  le : r.toNat + c.size.toNat ≤ brk.toNat
  aligned : c.align.toNat ∣ r.toNat

theorem InArena.mono {A : Arena} {brk brk' : Word} {c : Call} {r : Word} (h : InArena A brk c r)
    (hle : brk.toNat ≤ brk'.toNat) : InArena A brk' c r :=
  ⟨h.ge, h.le.trans hle, h.aligned⟩

structure SharedInv (A : Arena) (sh : Shared) : Prop where
  brk_ge : A.start.toNat ≤ sh.brk.toNat
  brk_le : sh.brk.toNat ≤ A.stop.toNat
  ok : ∀ q ∈ sh.returned, ∀ r, q.result = .ok r → InArena A sh.brk q.call r
  error : ∀ q ∈ sh.returned, ∀ e, q.result = .error e → q.moved = false
  apart : sh.ranges.Pairwise Apart

structure RunningInv (A : Arena) (sh : Shared) (c : Call) (moved : Bool) (p : Phase) : Prop where
  call : CallOk A c
  quiet : p.result? = none → moved = false
  bump : ∀ oldBrk result newBrk, p = .cas oldBrk result newBrk → Bump A c oldBrk result newBrk
  claim : ∀ r, p.result? = some r → InArena A sh.brk c r
  apart : ∀ r, p.result? = some r → ∀ x ∈ sh.ranges, Apart (r.toNat, c.size.toNat) x

def ThreadInv (A : Arena) (sh : Shared) : Local → Prop
  | .idle => True
  | .running c moved p => RunningInv A sh c moved p

def PairInv (l l' : Local) : Prop :=
  ∀ x, l.range? = some x → ∀ y, l'.range? = some y → Apart x y

/-- Every range below `brk` is apart from a block claimed above it. -/
theorem apart_of_bump {A : Arena} {sh : Shared} {c c' : Call} {result newBrk r : Word}
    (hb : Bump A c sh.brk result newBrk) (hr : InArena A sh.brk c' r) :
    Apart (r.toNat, c'.size.toNat) (result.toNat, c.size.toNat) :=
  .inl (hr.le.trans hb.ge)

/-- A returned range is that of a block below `brk`. -/
theorem SharedInv.of_mem_ranges {A : Arena} {sh : Shared} (h : SharedInv A sh) {x : Nat × Nat}
    (hx : x ∈ sh.ranges) : ∃ c r, x = (r.toNat, c.size.toNat) ∧ InArena A sh.brk c r := by
  obtain ⟨q, hq, hrange⟩ := List.mem_filterMap.mp hx
  rw [Return.range?] at hrange
  split at hrange
  · rename_i r hr
    obtain rfl := Option.some.inj hrange
    exact ⟨q.call, r, rfl, h.ok q hq r hr⟩
  · cases hrange

/-- A call that returns without a block adds no range. -/
theorem SharedInv.push_error {A : Arena} {sh : Shared} (h : SharedInv A sh) (c : Call) (e : Errno) :
    SharedInv A { sh with returned := ⟨c, .error e, false⟩ :: sh.returned } where
  brk_ge := h.brk_ge
  brk_le := h.brk_le
  ok := by
    intro q hq r hr
    rcases List.mem_cons.mp hq with rfl | hq
    · cases hr
    · exact h.ok q hq r hr
  error := by
    intro q hq e' he
    rcases List.mem_cons.mp hq with rfl | hq
    · rfl
    · exact h.error q hq e' he
  apart := h.apart

/-- A call that returns its block. -/
theorem SharedInv.push_ok {A : Arena} {sh : Shared} (h : SharedInv A sh) {c : Call} {r : Word}
    (hclaim : InArena A sh.brk c r) (hapart : ∀ x ∈ sh.ranges, Apart (r.toNat, c.size.toNat) x)
    (moved : Bool) :
    SharedInv A { sh with returned := ⟨c, .ok r, moved⟩ :: sh.returned } where
  brk_ge := h.brk_ge
  brk_le := h.brk_le
  ok := by
    intro q hq r' hr
    rcases List.mem_cons.mp hq with rfl | hq
    · cases hr
      exact hclaim
    · exact h.ok q hq r' hr
  error := by
    intro q hq e he
    rcases List.mem_cons.mp hq with rfl | hq
    · cases he
    · exact h.error q hq e he
  apart := List.pairwise_cons.mpr ⟨hapart, h.apart⟩

/-- Only `brk` and the returned calls matter for the invariants. -/
theorem SharedInv.congr {A : Arena} {sh sh' : Shared} (h : SharedInv A sh)
    (hbrk : sh'.brk = sh.brk) (hret : sh'.returned = sh.returned) : SharedInv A sh' where
  brk_ge := hbrk ▸ h.brk_ge
  brk_le := hbrk ▸ h.brk_le
  ok := by rw [hret, hbrk]; exact h.ok
  error := hret ▸ h.error
  apart := by rw [Shared.ranges, hret]; exact h.apart

/-- A thread keeps its facts while `brk` grows and the others return blocks apart from
its own. -/
theorem ThreadInv.mono {A : Arena} {sh sh' : Shared} {l : Local} (h : ThreadInv A sh l)
    (hbrk : sh.brk.toNat ≤ sh'.brk.toNat)
    (hranges : ∀ x ∈ sh'.ranges, x ∈ sh.ranges ∨ ∀ y, l.range? = some y → Apart y x) :
    ThreadInv A sh' l := by
  cases l with
  | idle => trivial
  | running c moved p =>
      refine ⟨h.call, h.quiet, h.bump, fun r hr => (h.claim r hr).mono hbrk, fun r hr x hx => ?_⟩
      rcases hranges x hx with hx | hx
      · exact h.apart r hr x hx
      · exact hx _ (by rw [Local.range?, hr]; rfl)

theorem Local.range?_running {c : Call} {moved : Bool} {p : Phase} {x : Nat × Nat}
    (h : (Local.running c moved p).range? = some x) :
    ∃ r, p.result? = some r ∧ x = (r.toNat, c.size.toNat) := by
  obtain ⟨r, hr, rfl⟩ := Option.map_eq_some_iff.mp h
  exact ⟨r, hr, rfl⟩

/-- The block a running call has just claimed is apart from that of any other. -/
theorem ThreadInv.apart_of_bump {A : Arena} {sh : Shared} {l : Local} (h : ThreadInv A sh l)
    {c : Call} {result newBrk : Word} (hb : Bump A c sh.brk result newBrk) {y : Nat × Nat}
    (hy : l.range? = some y) : Apart (result.toNat, c.size.toNat) y := by
  cases l with
  | idle => cases hy
  | running c' moved p =>
      obtain ⟨r, hr, rfl⟩ := Local.range?_running hy
      exact (Memory.apart_of_bump hb (h.claim r hr)).symm

theorem settle_goto (sh sh' : Shared) (c : Call) (moved : Bool) (p : Phase)
    (h : sh'.brk = sh.brk) :
    settle sh c moved (sh', .goto p) = (sh', .running c moved p) := by
  rw [settle, h, bne_self_eq_false, Bool.or_false]

theorem settle_ret (sh sh' : Shared) (c : Call) (moved : Bool) (r : Except Errno Word)
    (h : sh'.brk = sh.brk) :
    settle sh c moved (sh', .ret r) =
      ({ sh' with returned := ⟨c, r, moved⟩ :: sh'.returned }, .idle) := by
  simp only [settle, h, bne_self_eq_false, Bool.or_false]

/-- What a step of a thread does to the shared words and to the thread. -/
inductive Effect (A : Arena) (sh : Shared) : Local → Act → Shared → Local → Prop where
  /-- a call whose alignment is not a power of two -/
  | refused {size alignment : Word} :
      Effect A sh .idle (.call size alignment)
        { sh with returned := ⟨⟨size, alignment⟩, .error .EINVAL, false⟩ :: sh.returned } .idle
  | entered {c : Call} (hpow : c.align &&& (c.align - 1#64) = 0#64) :
      Effect A sh .idle (.call c.size c.alignment) sh (.running c false .load)
  /-- an access that claims nothing -/
  | quiet {c : Call} {moved ok : Bool} {p p' : Phase} {sh' : Shared} (hbrk : sh'.brk = sh.brk)
      (hret : sh'.returned = sh.returned) (hres : p'.result? = p.result?)
      (hcas : ∀ oldBrk result newBrk, p' = .cas oldBrk result newBrk →
        oldBrk = sh.brk ∧ result = alignUp sh.brk c.align ∧ newBrk = result + c.size ∧
          ¬ A.stop < newBrk) :
      Effect A sh (.running c moved p) (.go ok) sh' (.running c moved p')
  /-- the compare-exchange that claims the block -/
  | claimed {c : Call} {moved ok : Bool} {result newBrk : Word} :
      Effect A sh (.running c moved (.cas sh.brk result newBrk)) (.go ok) { sh with brk := newBrk }
        (.running c (moved || newBrk != sh.brk) (.check result))
  /-- the return of a block -/
  | returned {c : Call} {moved ok : Bool} {p : Phase} {sh' : Shared} {result : Word}
      (hbrk : sh'.brk = sh.brk) (hret : sh'.returned = sh.returned) (hres : p.result? = some result) :
      Effect A sh (.running c moved p) (.go ok)
        { sh' with returned := ⟨c, .ok result, moved⟩ :: sh'.returned } .idle
  /-- the arena is full -/
  | full {c : Call} {moved ok : Bool} :
      Effect A sh (.running c moved .load) (.go ok)
        { sh with returned := ⟨c, .error .ENOMEM, moved⟩ :: sh.returned } .idle

theorem arenaStep_effect {A : Arena} {sh sh' : Shared} {l l' : Local} {a : Act}
    (hs : arenaStep A sh l a = some (sh', l')) : Effect A sh l a sh' l' := by
  cases l with
  | idle =>
      cases a with
      | go ok => cases hs
      | call size alignment =>
          rw [arenaStep, enter] at hs
          split_ifs at hs with hpow
          · rw [settle_ret sh sh _ _ _ rfl] at hs
            cases hs
            exact .refused
          · rw [settle_goto sh sh _ _ _ rfl] at hs
            cases hs
            exact .entered (not_not.mp hpow)
  | running c moved p =>
      cases a with
      | call size alignment => cases hs
      | go ok =>
          rw [arenaStep] at hs
          rcases phaseStep_cases A sh c ok p with ⟨sh₁, p', hstep, hbrk, hret, hres, hcas⟩ |
            ⟨result, newBrk, rfl, hstep⟩ | ⟨sh₁, result, hstep, hbrk, hret, hres⟩ | ⟨rfl, hstep⟩
          · rw [hstep, settle_goto _ _ _ _ _ hbrk] at hs
            cases hs
            exact .quiet hbrk hret hres hcas
          · rw [hstep] at hs
            cases hs
            exact .claimed
          · rw [hstep, settle_ret _ _ _ _ _ hbrk] at hs
            cases hs
            exact .returned hbrk hret hres
          · rw [hstep, settle_ret _ _ _ _ _ rfl] at hs
            cases hs
            exact .full

/-- The acting thread keeps its facts and those about the shared words. -/
theorem arenaStep_own {A : Arena} {sh sh' : Shared} {l l' : Local} {a : Act}
    (hG : SharedInv A sh) (hP : ThreadInv A sh l) (hok : Sized A sh l a)
    (hs : arenaStep A sh l a = some (sh', l')) : SharedInv A sh' ∧ ThreadInv A sh' l' := by
  cases arenaStep_effect hs with
  | refused => exact ⟨hG.push_error _ _, trivial⟩
  | entered hpow =>
      exact ⟨hG, ⟨hok.1, align_two_pow hok.2 hpow⟩, fun _ => rfl, nofun, nofun, nofun⟩
  | quiet hbrk hret hres hcas =>
      refine ⟨hG.congr hbrk hret, hP.call, fun h => hP.quiet (hres ▸ h), ?_, ?_, ?_⟩
      · rintro oldBrk result newBrk rfl
        obtain ⟨rfl, rfl, rfl, hfits⟩ := hcas _ _ _ rfl
        exact bump hP.call hG.brk_le hfits
      · intro r hr
        rw [hbrk]
        exact hP.claim r (hres ▸ hr)
      · intro r hr
        rw [Shared.ranges_congr hret]
        exact hP.apart r (hres ▸ hr)
  | claimed =>
      have hb := hP.bump _ _ _ rfl
      refine ⟨⟨hG.brk_ge.trans hb.grows, hb.le, fun q hq r hr => (hG.ok q hq r hr).mono hb.grows,
        hG.error, hG.apart⟩, hP.call, nofun, nofun, ?_, ?_⟩
      · rintro r ⟨⟩
        exact ⟨hG.brk_ge.trans hb.ge, hb.size.ge, hb.aligned⟩
      · rintro r ⟨⟩ x hx
        obtain ⟨c', r', rfl, hr'⟩ := hG.of_mem_ranges hx
        exact (apart_of_bump hb hr').symm
  | returned hbrk hret hres =>
      exact ⟨(hG.congr hbrk hret).push_ok (hbrk ▸ hP.claim _ hres)
        (Shared.ranges_congr hret ▸ hP.apart _ hres) _, trivial⟩
  | full =>
      -- a call that finds the arena full has not moved `brk`
      rw [hP.quiet rfl]
      exact ⟨hG.push_error _ .ENOMEM, trivial⟩

/-- No other thread loses its facts. -/
theorem arenaStep_other {A : Arena} {sh sh' : Shared} {l l' l₀ : Local} {a : Act}
    (hP : ThreadInv A sh l) (hP₀ : ThreadInv A sh l₀) (hR : PairInv l l₀)
    (hs : arenaStep A sh l a = some (sh', l')) : ThreadInv A sh' l₀ ∧ PairInv l' l₀ := by
  cases arenaStep_effect hs with
  | refused | full => exact ⟨hP₀.mono le_rfl fun x hx => .inl hx, nofun⟩
  | entered => exact ⟨hP₀, nofun⟩
  | quiet hbrk hret hres =>
      refine ⟨hP₀.mono (congrArg BitVec.toNat hbrk).ge
        fun x hx => .inl (Shared.ranges_congr hret ▸ hx), fun x hx => ?_⟩
      rw [Local.range?, hres] at hx
      exact hR x hx
  | claimed =>
      have hb := hP.bump _ _ _ rfl
      refine ⟨hP₀.mono hb.grows fun x hx => .inl hx, fun x hx y hy => ?_⟩
      obtain ⟨r, ⟨⟩, rfl⟩ := Local.range?_running hx
      exact hP₀.apart_of_bump hb hy
  | @returned c moved _ p sh₁ result hbrk hret hres =>
      have hown : (Local.running c moved p).range? = some (result.toNat, c.size.toNat) := by
        rw [Local.range?, hres]
        rfl
      refine ⟨hP₀.mono (congrArg BitVec.toNat hbrk).ge fun x hx => ?_, nofun⟩
      rcases List.mem_cons.mp (hx : x ∈ _ :: sh₁.ranges) with rfl | hx
      · exact .inr fun y hy => (hR _ hown y hy).symm
      · exact .inl (Shared.ranges_congr hret ▸ hx)

theorem arena_interference (A : Arena) :
    Interference (arenaStep A) (Sized A) (SharedInv A) (ThreadInv A) PairInv where
  symm := fun _ _ h x hx y hy => (h y hy x hx).symm
  own := fun _ _ _ _ _ hG hP hok hs => arenaStep_own hG hP hok hs
  other := fun _ _ _ _ _ _ _ hP hP₀ hR _ hs => arenaStep_other hP hP₀ hR hs

theorem arenaInit_holds (A : Arena) (T : Type) :
    Holds (SharedInv A) (ThreadInv A) PairInv (arenaInit A T) where
  shared := ⟨le_rfl, A.ordered, nofun, nofun, .nil⟩
  thread := fun _ => trivial
  apart := fun _ _ _ => nofun

/-! ## Disjoint blocks -/

/-- What the calls that have returned are promised. -/
structure Allocated (A : Arena) (returned : List Return) : Prop where
  /-- The returned blocks are pairwise disjoint. -/
  apart : (returned.filterMap Return.range?).Pairwise Apart
  /-- A block lies in the arena and is aligned. -/
  ok : ∀ q ∈ returned, ∀ r, q.result = .ok r →
    A.start.toNat ≤ r.toNat ∧ r.toNat + q.call.size.toNat ≤ A.stop.toNat ∧
      max q.call.alignment.toNat 0x40 ∣ r.toNat
  /-- A call that failed has not changed `brk`. -/
  error : ∀ q ∈ returned, ∀ e, q.result = .error e → q.moved = false

theorem Call.align_eq_max (c : Call) : c.align.toNat = max c.alignment.toNat 0x40 := by
  have h40 : (0x40#64).toNat = 64 := rfl
  rw [Call.align]
  split_ifs with h <;> rw [BitVec.lt_def, h40] at h <;> omega

/-- **Concurrent allocation hands out disjoint blocks.** For any number of threads and any
interleaving of their accesses, with any failing compare-exchanges, as long as no call asks
for more than the arena has. -/
theorem arena_alloc_disjoint (A : Arena) {T : Type} [DecidableEq T] (as : List (T × Act))
    {s : State T Shared Local}
    (hsized : AllSteps (act (arenaStep A)) (okAct (Sized A)) (arenaInit A T) as)
    (hrun : run (act (arenaStep A)) (arenaInit A T) as = some s) :
    Allocated A s.shared.returned := by
  have h := (arena_interference A).run as (arenaInit_holds A T) hsized hrun
  refine ⟨h.shared.apart, fun q hq r hr => ?_, h.shared.error⟩
  have hin := h.shared.ok q hq r hr
  exact ⟨hin.ge, hin.le.trans h.shared.brk_le, q.call.align_eq_max ▸ hin.aligned⟩

/-- An arena of 16 pages. -/
def smallArena : Arena where
  start := 0x400000000000#64
  stop := 0x400000010000#64
  pagesize := 0x1000#64
  ordered := by decide
  below := by decide

/-- Two threads load the same `brk`; the second exchanges it first, so the first has to try
again. A third call asks for an alignment that is no power of two. -/
def racingAllocs : List (Bool × Act) :=
  [(false, .call 0x20#64 8#64), (true, .call 0x100#64 0x80#64), (false, .go true),
    (true, .go true), (true, .go true), (false, .go true), (false, .go true), (false, .go true),
    (true, .go true), (true, .go true), (true, .go true), (true, .go true), (true, .go true),
    (true, .go true), (false, .go true), (true, .call 1#64 0x60#64)]

/-- Both blocks of the race are apart. -/
theorem arena_alloc_disjoint_race :
    ∃ s, run (act (arenaStep smallArena)) (arenaInit smallArena Bool) racingAllocs = some s ∧
      s.shared.returned.length = 3 ∧ Allocated smallArena s.shared.returned := by
  have hsome : (run (act (arenaStep smallArena)) (arenaInit smallArena Bool)
      racingAllocs).isSome = true := by decide
  obtain ⟨s, hs⟩ := Option.isSome_iff_exists.mp hsome
  refine ⟨s, hs, ?_, arena_alloc_disjoint smallArena racingAllocs (by decide) hs⟩
  have hlen : (run (act (arenaStep smallArena)) (arenaInit smallArena Bool) racingAllocs).map
      (fun s => s.shared.returned.length) = some 3 := by decide
  rw [hs] at hlen
  exact Option.some.inj hlen

end Instrew.Client.Memory
