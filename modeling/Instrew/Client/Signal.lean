import Instrew.Lib.Run
import Mathlib.Data.Finset.Basic
import Mathlib.Data.Fintype.Basic

/-!
# Guest signals

The signal emulation of `emulate.c`, with the kernel's part in it: a guest thread has
a guest mask that it sets by `rt_sigprocmask`, a host mask that the kernel acts on,
and one slot for a pending signal, filled by `signal_handler` and emptied by
`signal_handle` at the exit of a system call. A step is one event: the delivery of a
signal, a piece of a system call between two points where a delivery matters, a
system call's exit, or the creation of a thread.

The headline, `signals_in_sync_iff`, says for which runs no pending signal is
overwritten and the masks stay in sync.
-/

namespace Instrew.Client.Signal

open Instrew.Lib.Run

/-- A signal, by its bit in a `sigset_t`: its number less one. -/
abbrev Sig : Type := Fin 64

def sigbus : Sig := 6
def sigkill : Sig := 8
def sigsegv : Sig := 10
def sigstop : Sig := 18

abbrev Sigset : Type := Finset Sig

/-- The signal of a number that a guest passes, if it is one. -/
def sigOfNum (n : Nat) : Option Sig := if h : 0 < n ∧ n ≤ 64 then some ⟨n - 1, by omega⟩ else none

/-- The `sa_handler` of a guest's `struct sigaction`; its mask and flags are read only
where the emulation of a guest handler would be. -/
inductive Handler : Type where
  | dfl
  | ign
  | guest (addr : BitVec 64)
  deriving DecidableEq

/-- What the kernel does on a signal. -/
inductive HostHandler : Type where
  | dfl
  | ign
  | signalHandler
  deriving DecidableEq

/-- Where a thread is. The two middle phases are inside `signal_sigprocmask`: the
guest mask is changed, and then `sigpending` has been found zero, so that the host
mask will be set. After a call its exit follows; `raced` says that the host mask was
set although a signal had become pending since the check. -/
inductive Phase : Type where
  | running
  | maskChanged
  | checked
  | exiting (raced : Bool)
  deriving DecidableEq

structure Thread : Type where
  sigmask : Sigset
  sigpending : Option Sig
  sigact : Sig → Handler
  hostmask : Sigset
  phase : Phase

structure Process : Type where
  threads : List Thread
  hostAct : Sig → HostHandler

/-- The set that `signal_update_hostmask` passes to the kernel. -/
def withoutFaults (s : Sigset) : Sigset := (s.erase sigsegv).erase sigbus

/-- The kernel never blocks `SIGKILL` and `SIGSTOP`. -/
def blockable (s : Sigset) : Sigset := (s.erase sigkill).erase sigstop

/-- The host mask while a signal is pending. -/
def allMasked : Sigset := blockable (withoutFaults Finset.univ)

/-! ## The steps -/

inductive How : Type where
  | block
  | unblock
  | setmask
  | other

/-- `signal_handler`, and the return from it, on an asynchronous signal. -/
def signalHandler (sig : Sig) (t : Thread) : Thread :=
  -- a blocked signal is dropped; that should only happen for the two never masked
  if sig ∈ t.sigmask then t
  else { t with sigpending := some sig, hostmask := allMasked }

/-- The new guest mask of `signal_sigprocmask`, as x86-64 hosts compute it. Elsewhere
signal 64 is looked for in the words behind the two sets (see `Sigset`), so blocking and
unblocking leave its bit of the mask as it is. -/
def changeMask (how : How) (set mask : Sigset) : Option Sigset :=
  match how with
  | .block => some (blockable (mask ∪ set))
  | .unblock => some (blockable (mask \ set))
  | .setmask => some (blockable set)
  | .other => none

/-- The host's handler for a guest's. -/
def hostHandler : Handler → HostHandler
  | .dfl => .dfl
  | .ign => .ign
  | .guest _ => .signalHandler

/-- `signal_handle`; none if it aborts the process. -/
def signalHandle (sig : Sig) (t : Thread) : Option Thread :=
  match t.sigact sig with
  | .ign => some { t with sigpending := none }
  | .dfl | .guest _ => none

inductive Action : Type where
  /-- A signal is delivered, with this `si_code`. -/
  | deliver (sig : Sig) (siCode : Int)
  | sigaction (num : Nat) (nact : Option Handler)
  /-- `signal_sigprocmask` up to its check of `sigpending`, the check, and what
  follows it. -/
  | sigprocmask (how : How) (set : Option Sigset)
  | checkPending
  | updateHostmask
  | createThread
  | syscallExit

/-- What the action does to the thread that does it. -/
def stepThread (hostAct : Sig → HostHandler) (t : Thread) : Action → Option Thread
  | .deliver sig siCode =>
      if sig ∈ t.hostmask ∨ hostAct sig ≠ .signalHandler then none
      -- a synchronous fault aborts the process
      else if (sig = sigsegv ∨ sig = sigbus) ∧ 0 < siCode then none
      else some (signalHandler sig t)
  | .sigaction num nact =>
      if t.phase ≠ .running then none
      else
        match sigOfNum num, nact with
        | some sig, some act =>
            some { t with
              sigact := Function.update t.sigact sig act
              phase := .exiting false }
        | _, _ => some { t with phase := .exiting false }
  | .sigprocmask how set =>
      if t.phase ≠ .running then none
      else
        match set.bind (fun set => changeMask how set t.sigmask) with
        | none => some { t with phase := .exiting false }
        | some mask => some { t with sigmask := mask, phase := .maskChanged }
  | .checkPending =>
      if t.phase ≠ .maskChanged then none
      else if t.sigpending = none then some { t with phase := .checked }
      else some { t with phase := .exiting false }
  | .updateHostmask =>
      if t.phase ≠ .checked then none
      else some { t with
        hostmask := blockable (withoutFaults t.sigmask)
        phase := .exiting t.sigpending.isSome }
  | .createThread =>
      if t.phase ≠ .running then none else some { t with phase := .exiting false }
  | .syscallExit =>
      if t.phase = .running ∨ t.phase = .exiting false ∨ t.phase = .exiting true then
        match t.sigpending with
        | none => some { t with phase := .running }
        | some sig => (signalHandle sig t).map (fun t => { t with phase := .running })
      else none

/-- The host's part of `signal_sigaction`: the two fault signals keep their handler,
and the kernel refuses the two that cannot be caught. -/
def stepHostAct (hostAct : Sig → HostHandler) : Action → Sig → HostHandler
  | .sigaction num (some act) =>
      match sigOfNum num with
      | some sig =>
          if sig = sigsegv ∨ sig = sigbus ∨ sig = sigkill ∨ sig = sigstop then hostAct
          else Function.update hostAct sig (hostHandler act)
      | none => hostAct
  | _ => hostAct

/-- A new thread: the guest mask is copied, and the kernel copies the host mask. -/
def newThread (t : Thread) : Thread :=
  { t with sigpending := none, phase := .running }

def created (t : Thread) : Action → List Thread
  | .createThread => [newThread t]
  | _ => []

/-- The `i`-th thread does the action. -/
def step (p : Process) (ia : Nat × Action) : Option Process :=
  p.threads[ia.1]?.bind fun t =>
    (stepThread p.hostAct t ia.2).map fun t' =>
      { threads := p.threads.set ia.1 t' ++ created t ia.2
        hostAct := stepHostAct p.hostAct ia.2 }

/-- The process after `signal_init`. -/
def initial : Process where
  threads := [⟨∅, none, fun _ => .dfl, ∅, .running⟩]
  hostAct sig := if sig = sigsegv ∨ sig = sigbus then .signalHandler else .dfl

/-! ## The two properties, and when a step keeps them -/

/-- Outside `signal_sigprocmask`, a thread with nothing pending has its guest mask,
less `SIGSEGV` and `SIGBUS`, as its host mask. -/
def InSync (t : Thread) : Prop :=
  t.sigpending = none → t.phase ≠ .maskChanged → t.phase ≠ .checked →
    t.hostmask = withoutFaults t.sigmask

/-- A step that does not overwrite a pending signal and leaves every thread in sync. -/
def goodStep (p : Process) (ia : Nat × Action) : Prop :=
  ∀ p', step p ia = some p' →
    (∀ t sig siCode, p.threads[ia.1]? = some t → ia.2 = .deliver sig siCode → t.sigpending = none) ∧
    ∀ t ∈ p'.threads, InSync t

/-- The condition on the thread that does the action. -/
def okThread (t : Thread) : Action → Prop
  | .deliver sig _ => sig = sigsegv ∨ sig = sigbus ∨ t.phase = .exiting true → t.sigpending = none
  | .createThread => t.sigpending ≠ none → allMasked ⊆ t.sigmask
  | .syscallExit => ∀ sig, t.sigpending = some sig → t.sigact sig = .ign →
      t.phase = .exiting true ∨ allMasked ⊆ t.sigmask
  | _ => True

def okStep (p : Process) (ia : Nat × Action) : Prop :=
  ∀ p' t, step p ia = some p' → p.threads[ia.1]? = some t → okThread t ia.2

/-! ## The invariant -/

/-- What holds of a thread between steps. -/
structure ThreadInv (t : Thread) : Prop where
  unblockable : sigkill ∉ t.sigmask ∧ sigstop ∉ t.sigmask
  pending : t.sigpending ≠ none → t.phase ≠ .exiting true → t.hostmask = allMasked
  raced : t.phase = .exiting true → t.sigpending ≠ none ∧ t.hostmask = withoutFaults t.sigmask
  inSync : InSync t

structure Inv (p : Process) : Prop where
  threads : ∀ t ∈ p.threads, ThreadInv t
  uncatchable : p.hostAct sigkill ≠ .signalHandler ∧ p.hostAct sigstop ≠ .signalHandler

theorem mem_withoutFaults {sig : Sig} {s : Sigset} :
    sig ∈ withoutFaults s ↔ sig ∈ s ∧ sig ≠ sigsegv ∧ sig ≠ sigbus := by
  rw [withoutFaults, Finset.mem_erase, Finset.mem_erase]
  tauto

theorem mem_blockable {sig : Sig} {s : Sigset} :
    sig ∈ blockable s ↔ sig ∈ s ∧ sig ≠ sigkill ∧ sig ≠ sigstop := by
  rw [blockable, Finset.mem_erase, Finset.mem_erase]
  tauto

theorem mem_allMasked {sig : Sig} :
    sig ∈ allMasked ↔ sig ≠ sigsegv ∧ sig ≠ sigbus ∧ sig ≠ sigkill ∧ sig ≠ sigstop := by
  simp [allMasked, mem_blockable, mem_withoutFaults, and_assoc]

theorem blockable_withoutFaults {s : Sigset} (h : sigkill ∉ s ∧ sigstop ∉ s) :
    blockable (withoutFaults s) = withoutFaults s := by
  ext sig
  rw [mem_blockable, mem_withoutFaults]
  refine and_iff_left_of_imp (fun hs => ⟨?_, ?_⟩)
  · rintro rfl
    exact h.1 hs.1
  · rintro rfl
    exact h.2 hs.1

/-- With a signal pending, the host mask is in sync exactly for a guest mask that
blocks everything it can. -/
theorem allMasked_eq_iff {s : Sigset} (h : sigkill ∉ s ∧ sigstop ∉ s) :
    allMasked = withoutFaults s ↔ allMasked ⊆ s := by
  refine ⟨fun heq sig hsig => ?_, fun hsub => ?_⟩
  · rw [heq, mem_withoutFaults] at hsig
    exact hsig.1
  · ext sig
    rw [mem_withoutFaults]
    refine ⟨fun hsig => ⟨hsub hsig, (mem_allMasked.mp hsig).1, (mem_allMasked.mp hsig).2.1⟩,
      fun hsig => mem_allMasked.mpr ⟨hsig.2.1, hsig.2.2, ?_, ?_⟩⟩
    · rintro rfl
      exact h.1 hsig.1
    · rintro rfl
      exact h.2 hsig.1

theorem changeMask_unblockable {how : How} {set mask new : Sigset}
    (h : changeMask how set mask = some new) : sigkill ∉ new ∧ sigstop ∉ new := by
  have hb : ∃ s, new = blockable s := by
    cases how with
    | block => exact ⟨_, (Option.some.inj h).symm⟩
    | unblock => exact ⟨_, (Option.some.inj h).symm⟩
    | setmask => exact ⟨_, (Option.some.inj h).symm⟩
    | other => cases h
  obtain ⟨s, rfl⟩ := hb
  exact ⟨fun hk => (mem_blockable.mp hk).2.1 rfl, fun hs => (mem_blockable.mp hs).2.2 rfl⟩

/-! ## One thread's step -/

/-- A step of one thread is as wanted: it overwrites no pending signal and leaves the
thread, and a thread it creates, in sync. -/
structure GoodThread (t t' : Thread) (a : Action) : Prop where
  noOverwrite : ∀ sig siCode, a = .deliver sig siCode → t.sigpending = none
  inSync : InSync t'
  created : a = .createThread → InSync (newThread t)

/-- The step keeps the invariant, for a created thread too. -/
structure KeepsInv (t t' : Thread) (a : Action) : Prop where
  inv : ThreadInv t'
  created : a = .createThread → ThreadInv (newThread t)

variable {t t' : Thread} {hostAct : Sig → HostHandler}

attribute [local simp] stepThread

/-- Where a signal can be delivered, and is not refused by the condition, nothing is
pending. -/
theorem pending_none_of_deliver (hi : ThreadInv t)
    (hu : hostAct sigkill ≠ .signalHandler ∧ hostAct sigstop ≠ .signalHandler) {sig : Sig}
    {siCode : Int} (hmask : sig ∉ t.hostmask) (hact : hostAct sig = .signalHandler)
    (hok : okThread t (.deliver sig siCode)) : t.sigpending = none := by
  by_contra hp
  have hphase : t.phase ≠ .exiting true := fun h => hp (hok (.inr (.inr h)))
  rw [hi.pending hp hphase, mem_allMasked] at hmask
  have hsegv : sig ≠ sigsegv := fun h => hp (hok (.inl h))
  have hbus : sig ≠ sigbus := fun h => hp (hok (.inr (.inl h)))
  refine hmask ⟨hsegv, hbus, ?_, ?_⟩
  · rintro rfl
    exact hu.1 hact
  · rintro rfl
    exact hu.2 hact

theorem signalHandler_inv (hi : ThreadInv t) (hp : t.sigpending = none) (sig : Sig) :
    ThreadInv (signalHandler sig t) := by
  unfold signalHandler
  split
  case isTrue => exact hi
  case isFalse =>
    exact
      { unblockable := hi.unblockable
        pending := fun _ _ => rfl
        raced := fun h => absurd hp (hi.raced h).1
        inSync := fun h => by simp at h }

theorem deliver_spec (hi : ThreadInv t)
    (hu : hostAct sigkill ≠ .signalHandler ∧ hostAct sigstop ≠ .signalHandler) {sig : Sig}
    {siCode : Int} (h : stepThread hostAct t (.deliver sig siCode) = some t') :
    (GoodThread t t' (.deliver sig siCode) ↔ okThread t (.deliver sig siCode)) ∧
    (okThread t (.deliver sig siCode) → KeepsInv t t' (.deliver sig siCode)) := by
  simp only [stepThread] at h
  split at h
  case isTrue => cases h
  case isFalse hfree =>
    rw [not_or, not_not] at hfree
    split at h
    case isTrue => cases h
    case isFalse =>
      cases h
      have hinv : okThread t (.deliver sig siCode) → ThreadInv (signalHandler sig t) :=
        fun hok => signalHandler_inv hi (pending_none_of_deliver hi hu hfree.1 hfree.2 hok) sig
      refine ⟨⟨fun hg => ?_, fun hok => ?_⟩, fun hok => ⟨hinv hok, by simp⟩⟩
      · exact fun _ => hg.noOverwrite sig siCode rfl
      · exact ⟨fun _ _ _ => pending_none_of_deliver hi hu hfree.1 hfree.2 hok, (hinv hok).inSync,
          by simp⟩

/-- A step that always keeps the invariant is always good. -/
theorem spec_of_inv {a : Action} (hi : ThreadInv t') (hok : okThread t a)
    (hdel : ∀ sig siCode, a ≠ .deliver sig siCode) (hnew : a ≠ .createThread) :
    (GoodThread t t' a ↔ okThread t a) ∧ (okThread t a → KeepsInv t t' a) :=
  ⟨⟨fun _ => hok, fun _ => ⟨fun sig siCode h => absurd h (hdel sig siCode), hi.inSync,
    fun h => absurd h hnew⟩⟩, fun _ => ⟨hi, fun h => absurd h hnew⟩⟩

/-- Going on to the exit of a call changes no mask. -/
theorem exiting_inv (hi : ThreadInv t) (hphase : t.phase ≠ .exiting true)
    (hsync : t.sigpending = none → t.hostmask = withoutFaults t.sigmask) (sigact : Sig → Handler) :
    ThreadInv { t with sigact := sigact, phase := .exiting false } :=
  { unblockable := hi.unblockable
    pending := fun hp _ => hi.pending hp hphase
    raced := fun h => by simp at h
    inSync := fun hp _ _ => hsync hp }

theorem running_inSync (hi : ThreadInv t) (h : t.phase = .running) :
    t.sigpending = none → t.hostmask = withoutFaults t.sigmask :=
  fun hp => hi.inSync hp (by simp [h]) (by simp [h])

theorem sigaction_inv (hi : ThreadInv t) {num : Nat} {nact : Option Handler}
    (h : stepThread hostAct t (.sigaction num nact) = some t') : ThreadInv t' := by
  simp only [stepThread] at h
  split at h
  case isTrue => cases h
  case isFalse hphase =>
    rw [not_not] at hphase
    have hexit := exiting_inv hi (by simp [hphase]) (running_inSync hi hphase)
    split at h
    case h_1 => exact Option.some.inj h ▸ hexit _
    case h_2 => exact Option.some.inj h ▸ hexit t.sigact

theorem sigprocmask_inv (hi : ThreadInv t) {how : How} {set : Option Sigset}
    (h : stepThread hostAct t (.sigprocmask how set) = some t') : ThreadInv t' := by
  simp only [stepThread] at h
  split at h
  case isTrue => cases h
  case isFalse hphase =>
    rw [not_not] at hphase
    split at h
    case h_1 =>
      exact Option.some.inj h ▸ exiting_inv hi (by simp [hphase]) (running_inSync hi hphase) t.sigact
    case h_2 mask hmask =>
      obtain ⟨set, -, hchange⟩ := Option.bind_eq_some_iff.mp hmask
      cases h
      exact
        { unblockable := changeMask_unblockable hchange
          pending := fun hp _ => hi.pending hp (by simp [hphase])
          raced := fun hr => by simp at hr
          inSync := fun _ hne => absurd rfl hne }

theorem checkPending_inv (hi : ThreadInv t)
    (h : stepThread hostAct t .checkPending = some t') : ThreadInv t' := by
  simp only [stepThread] at h
  split at h
  case isTrue => cases h
  case isFalse hphase =>
    rw [not_not] at hphase
    split at h
    case isTrue hp =>
      cases h
      exact
        { unblockable := hi.unblockable
          pending := fun hp' => absurd hp hp'
          raced := fun hr => by simp at hr
          inSync := fun _ _ hne => absurd rfl hne }
    case isFalse hp =>
      exact Option.some.inj h ▸ exiting_inv hi (by simp [hphase]) (fun hp' => absurd hp' hp) t.sigact

/-- The host mask is set to the guest's in any case; a signal that has become pending
since the check is remembered as a race. -/
theorem updateHostmask_inv (hi : ThreadInv t)
    (h : stepThread hostAct t .updateHostmask = some t') : ThreadInv t' := by
  simp only [stepThread] at h
  split at h
  case isTrue => cases h
  case isFalse =>
    cases h
    have hmask := blockable_withoutFaults hi.unblockable
    exact
      { unblockable := hi.unblockable
        pending := fun hp hr => absurd (congrArg Phase.exiting (Option.isSome_iff_ne_none.mpr hp)) hr
        raced := fun hr => ⟨Option.isSome_iff_ne_none.mp (Phase.exiting.inj hr), hmask⟩
        inSync := fun _ _ _ => hmask }

theorem createThread_spec (hi : ThreadInv t) (h : stepThread hostAct t .createThread = some t') :
    (GoodThread t t' .createThread ↔ okThread t .createThread) ∧
    (okThread t .createThread → KeepsInv t t' .createThread) := by
  simp only [stepThread] at h
  split at h
  case isTrue => cases h
  case isFalse hphase =>
    rw [not_not] at hphase
    have hinv : ThreadInv t' :=
      Option.some.inj h ▸ exiting_inv hi (by simp [hphase]) (running_inSync hi hphase) t.sigact
    -- The child is in sync exactly if its parent's masks are.
    have hnew : InSync (newThread t) ↔ okThread t .createThread := by
      have hchild : InSync (newThread t) ↔ t.hostmask = withoutFaults t.sigmask :=
        ⟨fun hs => hs rfl (by simp [newThread]) (by simp [newThread]), fun hs _ _ _ => hs⟩
      rw [hchild]
      by_cases hp : t.sigpending = none
      · exact ⟨fun _ h => absurd hp h, fun _ => running_inSync hi hphase hp⟩
      · rw [hi.pending hp (by simp [hphase]), allMasked_eq_iff hi.unblockable]
        exact ⟨fun hsub _ => hsub, fun hok => hok hp⟩
    refine ⟨⟨fun hg => hnew.mp (hg.created rfl), fun hok => ⟨by simp, hinv.inSync,
      fun _ => hnew.mpr hok⟩⟩, fun hok => ⟨hinv, fun _ => ?_⟩⟩
    exact
      { unblockable := hi.unblockable
        pending := fun hp => absurd rfl hp
        raced := fun hr => by simp [newThread] at hr
        inSync := hnew.mpr hok }

theorem syscallExit_spec (hi : ThreadInv t) (h : stepThread hostAct t .syscallExit = some t') :
    (GoodThread t t' .syscallExit ↔ okThread t .syscallExit) ∧
    (okThread t .syscallExit → KeepsInv t t' .syscallExit) := by
  simp only [stepThread] at h
  split at h
  case isFalse => cases h
  case isTrue hphase =>
    have hinv : t'.sigmask = t.sigmask → t'.phase = .running → t'.sigpending = none →
        t'.hostmask = withoutFaults t'.sigmask → ThreadInv t' :=
      fun hm hph hp hs =>
        { unblockable := hm ▸ hi.unblockable
          pending := fun hp' => absurd hp hp'
          raced := fun hr => by simp [hph] at hr
          inSync := fun _ _ _ => hs }
    split at h
    case h_1 hp =>
      cases h
      have hsync := hi.inSync hp (by rcases hphase with h | h | h <;> simp [h])
        (by rcases hphase with h | h | h <;> simp [h])
      exact spec_of_inv (hinv rfl rfl hp hsync) (fun sig hs => by simp [hp] at hs) (by simp) (by simp)
    case h_2 sig hp =>
      obtain ⟨u, hu, rfl⟩ := Option.map_eq_some_iff.mp h
      unfold signalHandle at hu
      split at hu
      case h_1 hign =>
        cases hu
        -- The host mask stays as it was while the signal was pending.
        have hok : okThread t .syscallExit ↔ t.hostmask = withoutFaults t.sigmask := by
          by_cases hr : t.phase = .exiting true
          · exact ⟨fun _ => (hi.raced hr).2, fun _ _ _ _ => .inl hr⟩
          · rw [hi.pending (by simp [hp]) hr, allMasked_eq_iff hi.unblockable]
            exact ⟨fun hok => (hok sig hp hign).resolve_left hr, fun hsub _ _ _ => .inr hsub⟩
        rw [hok]
        refine ⟨⟨fun hg => hg.inSync rfl (by simp) (by simp), fun hs => ⟨by simp,
          fun _ _ _ => hs, by simp⟩⟩, fun hs => ⟨hinv rfl rfl rfl hs, by simp⟩⟩
      case h_2 => cases hu
      case h_3 => cases hu

/-- **One thread's step.** It is good exactly under the condition, which then keeps
the invariant. -/
theorem stepThread_spec (hi : ThreadInv t)
    (hu : hostAct sigkill ≠ .signalHandler ∧ hostAct sigstop ≠ .signalHandler) {a : Action}
    (h : stepThread hostAct t a = some t') :
    (GoodThread t t' a ↔ okThread t a) ∧ (okThread t a → KeepsInv t t' a) := by
  cases a with
  | deliver sig siCode => exact deliver_spec hi hu h
  | sigaction num nact => exact spec_of_inv (sigaction_inv hi h) trivial (by simp) (by simp)
  | sigprocmask how set => exact spec_of_inv (sigprocmask_inv hi h) trivial (by simp) (by simp)
  | checkPending => exact spec_of_inv (checkPending_inv hi h) trivial (by simp) (by simp)
  | updateHostmask => exact spec_of_inv (updateHostmask_inv hi h) trivial (by simp) (by simp)
  | createThread => exact createThread_spec hi h
  | syscallExit => exact syscallExit_spec hi h

/-! ## The process -/

variable {p p' : Process} {ia : Nat × Action}

theorem step_cases (h : step p ia = some p') :
    ∃ t t', p.threads[ia.1]? = some t ∧ stepThread p.hostAct t ia.2 = some t' ∧
      p'.threads = p.threads.set ia.1 t' ++ created t ia.2 ∧
      p'.hostAct = stepHostAct p.hostAct ia.2 := by
  obtain ⟨t, ht, hstep⟩ := Option.bind_eq_some_iff.mp h
  obtain ⟨t', ht', rfl⟩ := Option.map_eq_some_iff.mp hstep
  exact ⟨t, t', ht, ht', rfl, rfl⟩

theorem stepHostAct_uncatchable {a : Action} {sig : Sig} (hsig : sig = sigkill ∨ sig = sigstop)
    (h : hostAct sig ≠ .signalHandler) : stepHostAct hostAct a sig ≠ .signalHandler := by
  cases a with
  | sigaction num nact =>
      cases nact with
      | none => exact h
      | some act =>
          simp only [stepHostAct]
          cases sigOfNum num with
          | none => exact h
          | some s =>
              simp only
              split
              case isTrue => exact h
              case isFalse hne =>
                rw [Function.update_of_ne]
                · exact h
                · rintro rfl
                  rcases hsig with rfl | rfl <;> simp at hne
  | _ => exact h

/-- A property of all threads of the next state: of the thread that moved, of one it
created, and of the others. -/
theorem forall_threads_iff {P : Thread → Prop} {t t' : Thread}
    (ht : p.threads[ia.1]? = some t) (hp' : p'.threads = p.threads.set ia.1 t' ++ created t ia.2)
    (hall : ∀ u ∈ p.threads, P u) :
    (∀ u ∈ p'.threads, P u) ↔ P t' ∧ (ia.2 = .createThread → P (newThread t)) := by
  have hlt : ia.1 < p.threads.length := (List.getElem?_eq_some_iff.mp ht).1
  have hcreated : ∀ u, u ∈ created t ia.2 ↔ ia.2 = .createThread ∧ u = newThread t := by
    intro u
    cases ia.2 <;> simp [created]
  rw [hp']
  refine ⟨fun h => ⟨h t' ?_, fun hc => h _ ?_⟩, fun h u hu => ?_⟩
  · exact List.mem_append_left _ (List.mem_set hlt t')
  · exact List.mem_append_right _ ((hcreated _).mpr ⟨hc, rfl⟩)
  · rcases List.mem_append.mp hu with hset | hnew
    · rcases List.mem_or_eq_of_mem_set hset with hold | rfl
      · exact hall u hold
      · exact h.1
    · obtain ⟨hc, rfl⟩ := (hcreated u).mp hnew
      exact h.2 hc

theorem goodStep_iff (hi : Inv p) : goodStep p ia ↔ okStep p ia := by
  refine forall_congr' (fun p' => ?_)
  refine ⟨fun hgood t hstep ht => ?_, fun hok hstep => ?_⟩
  · obtain ⟨hover, hsync⟩ := hgood hstep
    obtain ⟨u, t', hu, hthread, hthreads, -⟩ := step_cases hstep
    obtain rfl : t = u := Option.some.inj (ht.symm.trans hu)
    have hti := hi.threads t (List.mem_of_getElem? ht)
    rw [forall_threads_iff ht hthreads (fun u hu => (hi.threads u hu).inSync)] at hsync
    refine (stepThread_spec hti hi.uncatchable hthread).1.mp ?_
    exact ⟨fun sig siCode ha => hover t sig siCode ht ha, hsync.1, hsync.2⟩
  · obtain ⟨t, t', ht, hthread, hthreads, -⟩ := step_cases hstep
    have hti := hi.threads t (List.mem_of_getElem? ht)
    have hg := (stepThread_spec hti hi.uncatchable hthread).1.mpr (hok t hstep ht)
    refine ⟨fun u sig siCode hu ha => ?_, ?_⟩
    · obtain rfl : t = u := Option.some.inj (ht.symm.trans hu)
      exact hg.noOverwrite sig siCode ha
    · rw [forall_threads_iff ht hthreads (fun u hu => (hi.threads u hu).inSync)]
      exact ⟨hg.inSync, hg.created⟩

theorem step_inv (hi : Inv p) (hok : okStep p ia) (hstep : step p ia = some p') : Inv p' := by
  obtain ⟨t, t', ht, hthread, hthreads, hhost⟩ := step_cases hstep
  have hti := hi.threads t (List.mem_of_getElem? ht)
  have hk := (stepThread_spec hti hi.uncatchable hthread).2 (hok p' t hstep ht)
  refine ⟨?_, ?_⟩
  · rw [forall_threads_iff ht hthreads hi.threads]
    exact ⟨hk.inv, hk.created⟩
  · rw [hhost]
    exact ⟨stepHostAct_uncatchable (.inl rfl) hi.uncatchable.1,
      stepHostAct_uncatchable (.inr rfl) hi.uncatchable.2⟩

theorem inv_initial : Inv initial := by
  refine ⟨fun t ht => ?_, by decide, by decide⟩
  obtain rfl := List.mem_singleton.mp ht
  exact
    { unblockable := by simp
      pending := fun hp => absurd rfl hp
      raced := fun hr => by simp at hr
      inSync := fun _ _ _ => by decide }

/-- **When signals stay in order.** Along every run from the start of the process, which
is in sync, no delivery overwrites a pending signal and the masks of every thread are
in sync in every state, exactly if each step meets its condition: no `SIGSEGV` or `SIGBUS` is
delivered while a signal is pending, and no signal after one that came between the
check and the update of the host mask; and an ignored pending signal is taken, or a
thread created while a signal is pending, only with all signals blocked by the guest
(or, for the first, after such an update). -/
theorem signals_in_sync_iff (as : List (Nat × Action)) :
    (∀ t ∈ initial.threads, InSync t) ∧
    (AllSteps step goodStep initial as ↔ AllSteps step okStep initial as) := by
  refine ⟨fun t ht => (inv_initial.threads t ht).inSync, ?_⟩
  exact allSteps_iff (fun _ _ => goodStep_iff) (fun _ _ _ => step_inv) as inv_initial

/-- The guest ignores `SIGSEGV` and gets one by `kill`. -/
def ignoredFault : List (Nat × Action) :=
  [(0, .sigaction 11 (some .ign)), (0, .syscallExit), (0, .deliver sigsegv 0), (0, .syscallExit)]

/-- The signal is taken at the next exit of a system call, but the host mask stays full
from then on, with an empty guest mask. -/
theorem ignored_fault_deafens :
    (run step initial ignoredFault).map (fun p => p.threads.map
      (fun t => (t.sigpending, t.phase, t.sigmask, t.hostmask))) =
        some [(none, .running, ∅, allMasked)] ∧
    ¬ AllSteps step goodStep initial ignoredFault := by
  refine ⟨by decide, fun h => ?_⟩
  obtain ⟨hgood, -⟩ := ((h.2 _ rfl).2 _ rfl).2 _ rfl
  have hsync := (hgood _ rfl).2 _ (List.mem_singleton.mpr rfl) rfl (by decide) (by decide)
  exact absurd hsync (by decide)

end Instrew.Client.Signal
