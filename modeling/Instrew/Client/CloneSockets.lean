import Instrew.Client.Clone
import Instrew.Client.Translator

/-!
# The forked translator of a new thread or process

`handle_clone` of `client/emulate.c` once more, with what becomes of the descriptor that
`translator_fork_prepare` returns. A thread keeps it in the table that both threads share;
after a fork each process has a copy, and one of them closes it. The calls that are made after
`translator_fork_prepare` may all fail, and each has its own cleanup.

`clone_socket_accounted_iff` says in which cases the descriptor is given back or owned, and
that four of the failures in the path for threads leave it open.
-/

namespace Instrew.Client.CloneSockets

/-- A translator with its socket. -/
structure Context : Type where
  socket : Nat
  t : Translator

/-- A process with the descriptors that are open, those it has called `close` on, and the
translator of the caller. -/
structure Process : Type where
  isOpen : Nat → Bool
  closes : List Nat
  translator : Context

namespace Process

def close (p : Process) (fd : Nat) : Process :=
  { p with isOpen := Function.update p.isOpen fd false, closes := p.closes ++ [fd] }

/-- A descriptor comes in over the socket. -/
def receive (p : Process) (fd : Nat) : Process :=
  { p with isOpen := Function.update p.isOpen fd true }

end Process

def translatorForkFinalize (p : Process) (forkFd : Nat) : Process :=
  let p := p.close p.translator.socket
  { p with translator := { p.translator with socket := forkFd } }

/-- How the calls of `handle_clone` end. The result of `rtld_perf_init` is not looked at. -/
structure Calls : Type where
  dispatchGet : Bool
  allocCpuState : Option ErrNo
  allocState : Option ErrNo
  translatorForkPrepare : Except ErrNo Nat
  translatorThreadInit : Option ErrNo
  translatorConfigFetch : Option ErrNo
  rtldInit : Option ErrNo
  translatorGetObject : Option ErrNo
  initobjSize : Nat
  rtldAddObject : Option ErrNo
  hostStack : Option ErrNo
  hostClone : Option ErrNo
  /-- The child's translator, when it is set up. -/
  childTranslator : Translator

/-- What `handle_clone` leaves: it returns before or after a descriptor was received, or there
is a new thread in the process, or a copy of the process. The value returned is `-e`. -/
inductive Result : Type where
  | refused (e : ErrNo) (p : Process)
  | failed (e : ErrNo) (p : Process)
  | thread (p : Process) (child : Context)
  | forked (parent child : Process)

def einval : ErrNo := ⟨22, by decide⟩
def enomem : ErrNo := ⟨12, by decide⟩
def eopnotsupp : ErrNo := ⟨95, by decide⟩

/-- A call that is given up with its code, when `p` is what is left. -/
def attempt (r : Option ErrNo) (p : Process) : Except Result Unit :=
  match r with
  | none => .ok ()
  | some e => .error (.failed e p)

/-- The path for `CLONE_VM`, from the descriptor on. -/
def createThread (c : Calls) (p : Process) (newFd : Nat) : Except Result Result := do
  attempt c.translatorThreadInit (p.close newFd)
  attempt c.translatorConfigFetch p
  attempt c.rtldInit (p.close newFd)
  attempt c.translatorGetObject p
  attempt (if 0 < c.initobjSize then c.rtldAddObject else none) p
  attempt (c.hostStack.map fun _ => enomem) p
  attempt c.hostClone (p.close newFd)
  return .thread p ⟨newFd, c.childTranslator⟩

/-- The path for `fork`, from the descriptor on. -/
def forkProcess (c : Calls) (p : Process) (forkedTranslator : Nat) : Except Result Result := do
  attempt c.hostClone (p.close forkedTranslator)
  return .forked (p.close forkedTranslator) (translatorForkFinalize p forkedTranslator)

def result : Except Result Result → Result
  | .error r => r
  | .ok r => r

/-- The flags used by `fork`: `CLONE_CHILD_CLEARTID` and `CLONE_CHILD_SETTID`. -/
def suppFlags : Word := 0x1200000#64
def csignal : Word := 0xff#64

def handleClone (c : Calls) (args : CloneArgs) (p : Process) : Result :=
  if args.flags &&& CLONE_VM ≠ 0#64 then
    if c.dispatchGet = false then .refused eopnotsupp p
    else if c.allocCpuState.isSome then .refused enomem p
    else if c.allocState.isSome then .refused enomem p
    else
      match c.translatorForkPrepare with
      | .error e => .refused e p
      | .ok newFd => result (createThread c (p.receive newFd) newFd)
  else if args.flags &&& ~~~suppFlags ≠ 0#64 then .refused einval p
  else if args.stack ≠ 0#64 ∨ args.stackSize ≠ 0#64 then .refused einval p
  else if args.exitSignal &&& ~~~csignal ≠ 0#64 then .refused einval p
  else
    match c.translatorForkPrepare with
    | .error e => .refused e p
    | .ok forkedTranslator => result (forkProcess c (p.receive forkedTranslator) forkedTranslator)

/-! ## Whose descriptor it is -/

/-- The descriptor has been closed, once, and nothing else has changed. -/
structure GivenBack (p p' : Process) (fd : Nat) : Prop where
  once : p'.closes.count fd = p.closes.count fd + 1
  closed : p'.isOpen fd = false
  others : ∀ d ≠ fd, p'.isOpen d = p.isOpen d
  translator : p'.translator = p.translator

/-- Of the two sockets of a forked process, one is open, and its translator uses it. -/
structure OwnsOnly (p : Process) (own other : Nat) : Prop where
  socket : p.translator.socket = own
  own : p.isOpen own = true
  other : p.isOpen other = false

/-- **What should become of a descriptor** that `p` has received. -/
def Accounted (p : Process) (fd : Nat) : Result → Prop
  | .refused _ _ => True
  | .failed _ p' => GivenBack p p' fd
  | .thread p' child => p' = p ∧ p'.translator.socket ≠ fd ∧ p'.isOpen p'.translator.socket = true ∧
      child.socket = fd ∧ p'.isOpen fd = true
  | .forked parent child => GivenBack p parent fd ∧ OwnsOnly parent p.translator.socket fd ∧
      OwnsOnly child fd p.translator.socket

/-- A call fails in the path for threads whose failure has no cleanup. -/
def Leaks (c : Calls) : Prop :=
  c.dispatchGet = true ∧ c.allocCpuState = none ∧ c.allocState = none ∧
    c.translatorThreadInit = none ∧
    (c.translatorConfigFetch ≠ none ∨ c.rtldInit = none ∧
      (c.translatorGetObject ≠ none ∨ 0 < c.initobjSize ∧ c.rtldAddObject ≠ none ∨
        c.hostStack ≠ none))

section Cases

variable {c : Calls} {p : Process} {fd : Nat}

theorem givenBack_close (p : Process) (fd : Nat) : GivenBack p (p.close fd) fd where
  once := by rw [Process.close, List.count_append, List.count_singleton_self]
  closed := Function.update_self ..
  others d hd := Function.update_of_ne hd ..
  translator := rfl

theorem not_givenBack_self (p : Process) (fd : Nat) : ¬ GivenBack p p fd := fun h => by
  have := h.once
  omega

/-- The descriptor is closed if the call fails. -/
theorem attempt_close_accounted_iff {r : Option ErrNo} {f : Unit → Except Result Result} :
    Accounted p fd (result (attempt r (p.close fd) >>= f)) ↔
      r ≠ none ∨ Accounted p fd (result (f ())) := by
  cases r with
  | none => exact (or_iff_right (not_not.mpr rfl)).symm
  | some e => exact iff_of_true (givenBack_close p fd) (.inl (Option.some_ne_none e))

/-- It is not. -/
theorem attempt_accounted_iff {r : Option ErrNo} {f : Unit → Except Result Result} :
    Accounted p fd (result (attempt r p >>= f)) ↔ r = none ∧ Accounted p fd (result (f ())) := by
  cases r with
  | none => exact (and_iff_right rfl).symm
  | some e => exact iff_of_false (not_givenBack_self p fd) (fun h => nomatch h.1)

/-- The path for threads, call by call. -/
theorem createThread_accounted_iff (hne : p.translator.socket ≠ fd)
    (hopen : p.isOpen p.translator.socket = true) (hfd : p.isOpen fd = true) :
    Accounted p fd (result (createThread c p fd)) ↔
      ¬ (c.translatorThreadInit = none ∧ (c.translatorConfigFetch ≠ none ∨ c.rtldInit = none ∧
        (c.translatorGetObject ≠ none ∨ 0 < c.initobjSize ∧ c.rtldAddObject ≠ none ∨
          c.hostStack ≠ none))) := by
  have hthread : Accounted p fd (result (pure (.thread p ⟨fd, c.childTranslator⟩))) :=
    ⟨rfl, hne, hopen, rfl, hfd⟩
  have hadd : (if 0 < c.initobjSize then c.rtldAddObject else none) = none ↔
      ¬ (0 < c.initobjSize ∧ c.rtldAddObject ≠ none) := by
    split_ifs with hsize <;> simp [hsize]
  rw [createThread, attempt_close_accounted_iff, attempt_accounted_iff, attempt_close_accounted_iff,
    attempt_accounted_iff, attempt_accounted_iff, attempt_accounted_iff, attempt_close_accounted_iff,
    hadd, Option.map_eq_none_iff]
  simp only [hthread, or_true, and_true]
  tauto

/-- The path for forks. -/
theorem forkProcess_accounted (hne : p.translator.socket ≠ fd)
    (hopen : p.isOpen p.translator.socket = true) (hfd : p.isOpen fd = true) :
    Accounted p fd (result (forkProcess c p fd)) := by
  rw [forkProcess, attempt_close_accounted_iff]
  refine .inr ⟨givenBack_close p fd, ⟨rfl, ?_, Function.update_self ..⟩, ⟨rfl, ?_, Function.update_self ..⟩⟩
  · rw [(givenBack_close p fd).others _ hne]
    exact hopen
  · show (p.close p.translator.socket).isOpen fd = true
    rw [(givenBack_close p p.translator.socket).others _ hne.symm]
    exact hfd

end Cases

/-- **What becomes of the forked translator.** It is accounted for unless one of four calls in
the path for threads fails. -/
theorem clone_socket_accounted_iff (c : Calls) (args : CloneArgs) (p : Process) (fd : Nat)
    (hfd : c.translatorForkPrepare = .ok fd) (hfresh : p.isOpen fd = false)
    (hopen : p.isOpen p.translator.socket = true) :
    Accounted (p.receive fd) fd (handleClone c args p) ↔
      ¬ (args.flags &&& CLONE_VM ≠ 0#64 ∧ Leaks c) := by
  have hne : p.translator.socket ≠ fd := by
    rintro rfl
    exact Bool.false_ne_true (hfresh.symm.trans hopen)
  have hne' : (p.receive fd).translator.socket ≠ fd := hne
  have hopen' : (p.receive fd).isOpen (p.receive fd).translator.socket = true := by
    show Function.update p.isOpen fd true p.translator.socket = true
    rw [Function.update_of_ne hne]
    exact hopen
  have hfd' : (p.receive fd).isOpen fd = true := Function.update_self ..
  rw [handleClone, hfd]
  dsimp only
  split_ifs with hvm hdisp hcpu hstate hflags hstack hsig
  · -- the descriptor is not asked for
    refine iff_of_true trivial fun h => ?_
    rw [h.2.1] at hdisp
    cases hdisp
  · refine iff_of_true trivial fun h => ?_
    rw [h.2.2.1] at hcpu
    cases hcpu
  · refine iff_of_true trivial fun h => ?_
    rw [h.2.2.2.1] at hstate
    cases hstate
  · rw [createThread_accounted_iff hne' hopen' hfd', Leaks, and_iff_right hvm,
      and_iff_right (Bool.eq_true_of_not_eq_false hdisp),
      and_iff_right (Option.not_isSome_iff_eq_none.mp hcpu),
      and_iff_right (Option.not_isSome_iff_eq_none.mp hstate)]
  · exact iff_of_true trivial fun h => hvm h.1
  · exact iff_of_true trivial fun h => hvm h.1
  · exact iff_of_true trivial fun h => hvm h.1
  · exact iff_of_true (forkProcess_accounted hne' hopen' hfd') fun h => hvm h.1

/-- All calls succeed. -/
def healthy : Calls where
  dispatchGet := true
  allocCpuState := none
  allocState := none
  translatorForkPrepare := .ok 5
  translatorThreadInit := none
  translatorConfigFetch := none
  rtldInit := none
  translatorGetObject := none
  initobjSize := 0x200
  rtldAddObject := none
  hostStack := none
  hostClone := none
  childTranslator := ⟨.none, 0⟩

/-- Descriptors 0 to 2 and the socket are open. -/
def running : Process := ⟨fun fd => decide (fd < 4), [], ⟨3, ⟨.none, 0x1000⟩⟩⟩

/-- The arguments of a new thread. -/
def threadArgs : CloneArgs := ⟨0x3d0f00#64, 0#64, 0#64, 0#64, 0#64, 0x7f0000001000#64, 0#64, 0#64⟩

theorem healthy_thread_accounted :
    Accounted (running.receive 5) 5 (handleClone healthy threadArgs running) := by
  rw [clone_socket_accounted_iff healthy threadArgs running 5 rfl (by decide) (by decide)]
  rintro ⟨-, -, -, -, -, h | ⟨-, h | h | h⟩⟩
  · exact h rfl
  · exact h rfl
  · exact h.2 rfl
  · exact h rfl

/-- The server does not answer `S_INIT`: the code is returned, and descriptor 5 stays open. -/
theorem config_fetch_leaks :
    handleClone { healthy with translatorConfigFetch := some ⟨71, by decide⟩ } threadArgs running =
        .failed ⟨71, by decide⟩ (running.receive 5) ∧
      (running.receive 5).isOpen 5 = true ∧ (running.receive 5).closes = [] ∧
      ¬ Accounted (running.receive 5) 5 (.failed ⟨71, by decide⟩ (running.receive 5)) :=
  ⟨rfl, rfl, rfl, not_givenBack_self _ _⟩

end Instrew.Client.CloneSockets
