import Instrew.Client.Reloc
import Instrew.Client.Signal

/-!
# Signal sets in memory

`sigaddset`, `sigdelset` and `sigismember` of `client/minilibc.c` and `signal_sigprocmask` of
`client/emulate.c`, on the words that the sets are made of. A set is one word on every host,
but outside x86-64 it is declared as an array, and the word of a signal is computed from its
number where its bit is computed from the number less one: signal 64 is looked for in the
word behind the set.

`sigprocmask_exact_iff` says when the function computes the mask that `Signal.changeMask`
has, on the sets as sets.
-/

namespace Instrew.Client.Signal

/-! ## The functions -/

/-- The objects that the functions are given pointers to; `set` and `oldset` are `restrict`.
The words of `sigmask` from the second one on are the members of `CpuState` behind it. -/
inductive SigObj : Type where
  | set
  | oldset
  | sigmask
  | hostmask
deriving DecidableEq

structure SigState : Type where
  mem : SigObj → Nat → Word
  /-- The words that have been read or written. -/
  touched : List (SigObj × Nat)
  /-- The masks passed to the host's `rt_sigprocmask`. -/
  hostMasks : List Word

def SigState.touch (s : SigState) (o : SigObj) (i : Nat) : SigState :=
  { s with touched := (o, i) :: s.touched }

def SigState.write (s : SigState) (o : SigObj) (i : Nat) (v : Word) : SigState :=
  { s.touch o i with mem := Function.update s.mem o (Function.update (s.mem o) i v) }

def einval : Int := 22
def nsig : Nat := 64

/-- The word of a signal: `&set->sig[signum / 8 / sizeof *set->sig]`, or the set itself. -/
def sigsetptr (host : Host) (signum : Nat) : Nat :=
  match host with
  | .x86_64 => 0
  | .aarch64 | .riscv => signum / 8 / 8

def sigsetmsk (host : Host) (signum : Nat) : Word :=
  match host with
  | .x86_64 => 1#64 <<< (signum - 1)
  | .aarch64 | .riscv => 1#64 <<< ((signum - 1) &&& (8 * 8 - 1))

/-- A change of one word of a set, for a number that is a signal. -/
def sigupdate (host : Host) (f : Word → Word → Word) (o : SigObj) (signum : Nat) (s : SigState) :
    Int × SigState :=
  if signum = 0 ∨ nsig < signum then (-einval, s)
  else
    (0, s.write o (sigsetptr host signum)
      (f (s.mem o (sigsetptr host signum)) (sigsetmsk host signum)))

def sigaddset (host : Host) : SigObj → Nat → SigState → Int × SigState :=
  sigupdate host fun word msk => word ||| msk

def sigdelset (host : Host) : SigObj → Nat → SigState → Int × SigState :=
  sigupdate host fun word msk => word &&& ~~~msk

def sigismember (host : Host) (o : SigObj) (signum : Nat) (s : SigState) : Int × SigState :=
  if signum = 0 ∨ nsig < signum then (-einval, s)
  else
    (if s.mem o (sigsetptr host signum) &&& sigsetmsk host signum ≠ 0#64 then 1 else 0,
      s.touch o (sigsetptr host signum))

/-- `if (sigismember(set, i)) update(&cpu_state->sigmask, i)` -/
def maskSignal (host : Host) (update : SigObj → Nat → SigState → Int × SigState) (i : Nat)
    (s : SigState) : SigState :=
  let (member, s) := sigismember host .set i s
  if member ≠ 0 then (update .sigmask i s).2 else s

/-- `for (int i = 1; i <= n; i++)` -/
def forSignals (body : Nat → SigState → SigState) : Nat → SigState → SigState
  | 0, s => s
  | n + 1, s => body (n + 1) (forSignals body n s)

/-- `signal_update_hostmask`, with what the kernel returns. -/
def signalUpdateHostmask (host : Host) (kernel : Word → Int) (s : SigState) : Int × SigState :=
  let s := (s.touch .sigmask 0).write .hostmask 0 (s.mem .sigmask 0)
  let (_, s) := sigdelset host .hostmask 11 s
  let (_, s) := sigdelset host .hostmask 7 s
  (kernel (s.mem .hostmask 0), { s with hostMasks := s.hostMasks ++ [s.mem .hostmask 0] })

/-- The end of `signal_sigprocmask`, after the mask has been changed. -/
def finishMask (host : Host) (kernel : Word → Int) (sigpending : Int) (s : SigState) :
    Int × SigState :=
  let (_, s) := sigdelset host .sigmask 9 s
  let (_, s) := sigdelset host .sigmask 19 s
  if sigpending = 0 then signalUpdateHostmask host kernel s else (0, s)

/-- `signal_sigprocmask`; the two flags tell which of the pointers are not null. -/
def signalSigprocmask (host : Host) (kernel : Word → Int) (sigpending how : Int)
    (set oldset : Bool) (s : SigState) : Int × SigState :=
  let s := if oldset then (s.touch .sigmask 0).write .oldset 0 (s.mem .sigmask 0) else s
  if ¬ set then (0, s)
  else if how = 0 then
    finishMask host kernel sigpending (forSignals (maskSignal host (sigaddset host)) nsig s)
  else if how = 1 then
    finishMask host kernel sigpending (forSignals (maskSignal host (sigdelset host)) nsig s)
  else if how = 2 then
    finishMask host kernel sigpending ((s.touch .set 0).write .sigmask 0 (s.mem .set 0))
  else (-einval, s)

/-! ## Sets -/

/-- The set that a word stands for. -/
def toSet (word : Word) : Sigset := Finset.univ.filter fun sig => word.getLsbD sig = true

theorem mem_toSet {word : Word} {sig : Sig} : sig ∈ toSet word ↔ word.getLsbD sig = true := by
  rw [toSet, Finset.mem_filter]
  exact and_iff_right (Finset.mem_univ sig)

def howOf (how : Int) : How :=
  if how = 0 then .block else if how = 1 then .unblock else if how = 2 then .setmask else .other

/-! ## Accesses inside the sets -/

@[simp] theorem SigState.write_mem (s : SigState) (o o' : SigObj) (i j : Nat) (v : Word) :
    (s.write o i v).mem o' j = if o' = o ∧ j = i then v else s.mem o' j := by
  rw [write]
  rcases eq_or_ne o' o with rfl | ho
  · simp [Function.update_apply]
  · simp [ho]

@[simp] theorem SigState.touch_mem (s : SigState) (o : SigObj) (i : Nat) :
    (s.touch o i).mem = s.mem := rfl

/-- Only first words have been read or written on the way from one state to another. -/
structure Inside (s s' : SigState) : Prop where
  rest : ∀ o i, i ≠ 0 → s'.mem o i = s.mem o i
  touched : ∀ p ∈ s'.touched, p ∈ s.touched ∨ p.2 = 0

theorem Inside.refl (s : SigState) : Inside s s := ⟨fun _ _ _ => rfl, fun _ h => .inl h⟩

theorem Inside.trans {s s' s'' : SigState} (h : Inside s s') (h' : Inside s' s'') : Inside s s'' where
  rest o i hi := (h'.rest o i hi).trans (h.rest o i hi)
  touched p hp := (h'.touched p hp).elim (h.touched p) .inr

theorem inside_touch (s : SigState) (o : SigObj) : Inside s (s.touch o 0) where
  rest _ _ _ := rfl
  touched _ hp := (List.mem_cons.mp hp).elim (fun h => .inr (h ▸ rfl)) .inl

theorem inside_write (s : SigState) (o : SigObj) (v : Word) : Inside s (s.write o 0 v) where
  rest o' i hi := by
    rw [SigState.write_mem, if_neg fun h => hi h.2]
  touched := (inside_touch s o).touched

/-! ## One signal -/

section Signal

variable {host : Host} {signum : Nat} {o : SigObj} {s : SigState}

/-- A number that is a signal, and whose word is the first one. -/
structure InFirstWord (host : Host) (signum : Nat) : Prop where
  pos : 0 < signum
  le : signum ≤ nsig
  ptr : sigsetptr host signum = 0

theorem inFirstWord_of_lt (host : Host) (hpos : 0 < signum) (hlt : signum < nsig) :
    InFirstWord host signum := by
  rw [nsig] at hlt
  refine ⟨hpos, Nat.le_of_lt hlt, ?_⟩
  cases host with
  | x86_64 => rfl
  | aarch64 | riscv =>
      rw [sigsetptr]
      omega

theorem inFirstWord_x86_64 (hpos : 0 < signum) (hle : signum ≤ nsig) :
    InFirstWord .x86_64 signum := ⟨hpos, hle, rfl⟩

/-- The bit of a signal is that of its number less one on every host. -/
theorem getLsbD_sigsetmsk (host : Host) (hpos : 0 < signum) (hle : signum ≤ nsig) (j : Nat) :
    (sigsetmsk host signum).getLsbD j = decide (j = signum - 1) := by
  rw [nsig] at hle
  have hmsk : sigsetmsk host signum = 1#64 <<< (signum - 1) := by
    have hand : (signum - 1) &&& (8 * 8 - 1) = signum - 1 := by
      rw [show 8 * 8 - 1 = 2 ^ 6 - 1 by rfl, Nat.and_two_pow_sub_one_eq_mod]
      omega
    cases host with
    | x86_64 => rfl
    | aarch64 | riscv => rw [sigsetmsk, hand]
  rw [hmsk, BitVec.getLsbD_shiftLeft, BitVec.getLsbD_one]
  by_cases hj : j = signum - 1
  · have hlt : signum - 1 < 64 := by omega
    simp [hj, hlt]
  · have hne : ¬ (signum - 1 ≤ j ∧ j - (signum - 1) = 0) := by omega
    simp [hj]
    omega

theorem sigupdate_eq (h : InFirstWord host signum) (f : Word → Word → Word) (o : SigObj)
    (s : SigState) :
    sigupdate host f o signum s = (0, s.write o 0 (f (s.mem o 0) (sigsetmsk host signum))) := by
  have hpos := h.pos
  have hle := h.le
  rw [sigupdate, if_neg (by omega), h.ptr]

theorem and_sigsetmsk_ne_zero_iff (hpos : 0 < signum) (hle : signum ≤ nsig) (word : Word) :
    word &&& sigsetmsk host signum ≠ 0#64 ↔ word.getLsbD (signum - 1) = true := by
  constructor
  · intro hne
    by_contra hbit
    refine hne (BitVec.eq_of_getLsbD_eq fun j hj => ?_)
    rw [BitVec.getLsbD_and, getLsbD_sigsetmsk host hpos hle, BitVec.getLsbD_zero]
    rcases eq_or_ne j (signum - 1) with rfl | hj'
    · rw [Bool.not_eq_true] at hbit
      rw [hbit, Bool.false_and]
    · rw [decide_eq_false hj', Bool.and_false]
  · intro hbit hzero
    have h := congrArg (BitVec.getLsbD · (signum - 1)) hzero
    simp only [BitVec.getLsbD_and, hbit, getLsbD_sigsetmsk host hpos hle] at h
    simp at h

theorem sigismember_eq (h : InFirstWord host signum) (o : SigObj) (s : SigState) :
    sigismember host o signum s =
      (if (s.mem o 0).getLsbD (signum - 1) = true then 1 else 0, s.touch o 0) := by
  have hpos := h.pos
  have hle := h.le
  rw [sigismember, if_neg (by omega), h.ptr]
  simp only [and_sigsetmsk_ne_zero_iff hpos hle]

end Signal

/-! ## What happens to the mask -/

/-- The update gives the bit under the mask the value `b`. -/
def SetsBit (f : Word → Word → Word) (b : Bool) : Prop :=
  ∀ word msk j, j < 64 → (f word msk).getLsbD j = if msk.getLsbD j then b else word.getLsbD j

theorem setsBit_add : SetsBit (fun word msk => word ||| msk) true := by
  intro word msk j _
  rw [BitVec.getLsbD_or]
  cases msk.getLsbD j <;> simp

theorem setsBit_del : SetsBit (fun word msk => word &&& ~~~msk) false := by
  intro word msk j hj
  rw [BitVec.getLsbD_and, BitVec.getLsbD_not]
  cases msk.getLsbD j <;> simp [hj]

/-- A piece of the function that changes the bits of `sigmask` by `g` and leaves the two
arguments as they are. -/
structure MaskChanged (g : Nat → Bool → Bool) (s s' : SigState) : Prop where
  inside : Inside s s'
  set : s'.mem .set 0 = s.mem .set 0
  oldset : s'.mem .oldset 0 = s.mem .oldset 0
  bits : ∀ j < 64, (s'.mem .sigmask 0).getLsbD j = g j ((s.mem .sigmask 0).getLsbD j)
  hostMasks : s'.hostMasks = s.hostMasks

section MaskChanged

variable {host : Host} {s s' s'' : SigState} {f : Word → Word → Word} {b : Bool}

theorem MaskChanged.trans {g g' : Nat → Bool → Bool} (h : MaskChanged g s s')
    (h' : MaskChanged g' s' s'') : MaskChanged (fun j x => g' j (g j x)) s s'' where
  inside := h.inside.trans h'.inside
  set := h'.set.trans h.set
  oldset := h'.oldset.trans h.oldset
  bits j hj := by rw [h'.bits j hj, h.bits j hj]
  hostMasks := h'.hostMasks.trans h.hostMasks

theorem MaskChanged.congr {g g' : Nat → Bool → Bool} (h : MaskChanged g s s')
    (hg : ∀ j < 64, ∀ x, g j x = g' j x) : MaskChanged g' s s' :=
  ⟨h.inside, h.set, h.oldset, fun j hj => (h.bits j hj).trans (hg j hj _), h.hostMasks⟩

theorem maskChanged_touch (s : SigState) (o : SigObj) : MaskChanged (fun _ x => x) s (s.touch o 0) :=
  ⟨inside_touch s o, rfl, rfl, fun _ _ => rfl, rfl⟩

theorem maskChanged_write (s : SigState) (v : Word) :
    MaskChanged (fun j _ => v.getLsbD j) s (s.write .sigmask 0 v) :=
  ⟨inside_write s .sigmask v, by simp, by simp, fun j _ => by simp, rfl⟩

theorem maskChanged_sigupdate {signum : Nat} (h : InFirstWord host signum) (hf : SetsBit f b)
    (s : SigState) :
    MaskChanged (fun j x => if j = signum - 1 then b else x) s
      (sigupdate host f .sigmask signum s).2 := by
  rw [sigupdate_eq h]
  have hwrite := maskChanged_write s (f (s.mem .sigmask 0) (sigsetmsk host signum))
  refine ⟨hwrite.inside, hwrite.set, hwrite.oldset, fun j hj => ?_, hwrite.hostMasks⟩
  rw [hwrite.bits j hj, hf _ _ j hj, getLsbD_sigsetmsk host h.pos h.le]
  simp only [decide_eq_true_eq]

theorem maskChanged_maskSignal {i : Nat} (h : InFirstWord host i) (hf : SetsBit f b) (s : SigState) :
    MaskChanged (fun j x => if j = i - 1 ∧ (s.mem .set 0).getLsbD j = true then b else x) s
      (maskSignal host (sigupdate host f) i s) := by
  rw [maskSignal, sigismember_eq h]
  dsimp only
  by_cases hbit : (s.mem .set 0).getLsbD (i - 1) = true
  · rw [if_pos hbit, if_pos one_ne_zero]
    refine ((maskChanged_touch s .set).trans (maskChanged_sigupdate h hf _)).congr fun j _ x => ?_
    refine if_congr (iff_self_and.mpr ?_) rfl rfl
    rintro rfl
    exact hbit
  · rw [if_neg hbit, if_neg (not_not.mpr rfl)]
    refine (maskChanged_touch s .set).congr fun j _ x => (if_neg ?_).symm
    rintro ⟨rfl, h'⟩
    exact hbit h'

/-- The loop over the signals up to `n`. -/
theorem maskChanged_forSignals (hf : SetsBit f b) (s : SigState) : ∀ n,
    (∀ i, 0 < i → i ≤ n → InFirstWord host i) →
      MaskChanged (fun j x => if j < n ∧ (s.mem .set 0).getLsbD j = true then b else x) s
        (forSignals (maskSignal host (sigupdate host f)) n s)
  | 0, _ => by
      refine ⟨.refl s, rfl, rfl, fun j _ => (if_neg fun h => Nat.not_lt_zero j h.1).symm, rfl⟩
  | n + 1, h => by
      have ih := maskChanged_forSignals hf s n fun i hpos hle => h i hpos (Nat.le_succ_of_le hle)
      have hstep := maskChanged_maskSignal (h (n + 1) (Nat.succ_pos n) le_rfl) hf
        (forSignals (maskSignal host (sigupdate host f)) n s)
      rw [ih.set, Nat.add_sub_cancel] at hstep
      refine (ih.trans hstep).congr fun j _ x => ?_
      by_cases hbit : (s.mem .set 0).getLsbD j = true
      · simp only [hbit, and_true]
        split_ifs <;> first | rfl | omega
      · simp only [hbit, and_false, if_false, Bool.false_eq_true]

/-- `SIGKILL` and `SIGSTOP` are never left in the mask. -/
theorem maskChanged_uncatchable (host : Host) (s : SigState) :
    MaskChanged (fun j x => if j = 8 ∨ j = 18 then false else x) s
      (sigdelset host .sigmask 19 (sigdelset host .sigmask 9 s).2).2 := by
  have hkill := maskChanged_sigupdate (inFirstWord_of_lt host (show 0 < 9 by decide) (by decide))
    setsBit_del s
  have hstop := maskChanged_sigupdate (inFirstWord_of_lt host (show 0 < 19 by decide) (by decide))
    setsBit_del (sigdelset host .sigmask 9 s).2
  refine (hkill.trans hstop).congr fun j _ x => ?_
  split_ifs <;> first | rfl | omega

end MaskChanged

/-! ## The host's mask -/

/-- What the function does after it has changed the mask: the mask stays, and the host gets
it without the two faults. -/
structure HostUpdated (s s' : SigState) : Prop where
  inside : Inside s s'
  mem : ∀ o, o ≠ .hostmask → s'.mem o 0 = s.mem o 0
  hostMasks : ∀ word ∈ s'.hostMasks,
    word ∈ s.hostMasks ∨ toSet word = withoutFaults (toSet (s.mem .sigmask 0))

/-- The local copy without one signal. -/
theorem hostmask_del (host : Host) {signum : Nat} (hpos : 0 < signum) (hlt : signum < nsig)
    (s : SigState) :
    ∃ word, (sigdelset host .hostmask signum s).2 = s.write .hostmask 0 word ∧
      ∀ j < 64, word.getLsbD j =
        if j = signum - 1 then false else (s.mem .hostmask 0).getLsbD j := by
  have hfirst := inFirstWord_of_lt host hpos hlt
  refine ⟨s.mem .hostmask 0 &&& ~~~sigsetmsk host signum, ?_, fun j hj => ?_⟩
  · rw [sigdelset, sigupdate_eq hfirst]
  · rw [setsBit_del _ _ j hj, getLsbD_sigsetmsk host hpos hfirst.le]
    simp only [decide_eq_true_eq]

theorem signalUpdateHostmask_updated (host : Host) (kernel : Word → Int) (s : SigState) :
    HostUpdated s (signalUpdateHostmask host kernel s).2 := by
  obtain ⟨w₁, hw₁, hbits₁⟩ := hostmask_del host (show 0 < 11 by decide) (by decide)
    ((s.touch .sigmask 0).write .hostmask 0 (s.mem .sigmask 0))
  obtain ⟨w₂, hw₂, hbits₂⟩ := hostmask_del host (show 0 < 7 by decide) (by decide)
    (((s.touch .sigmask 0).write .hostmask 0 (s.mem .sigmask 0)).write .hostmask 0 w₁)
  have hinside := ((inside_touch s .sigmask).trans (inside_write _ .hostmask (s.mem .sigmask 0))).trans
    ((inside_write _ .hostmask w₁).trans (inside_write _ .hostmask w₂))
  rw [signalUpdateHostmask]
  dsimp only
  rw [hw₁, hw₂]
  refine ⟨⟨hinside.rest, hinside.touched⟩, fun o ho => ?_, fun word hword => ?_⟩
  · simp [ho]
  · rcases List.mem_append.mp hword with hold | hnew
    · exact .inl hold
    · right
      rw [List.mem_singleton.mp hnew]
      ext sig
      simp only [SigState.write_mem, and_self, if_true] at hbits₁ hbits₂ ⊢
      have hsegv : (sig : Nat) = 11 - 1 ↔ sig = sigsegv := by rw [Fin.ext_iff]; rfl
      have hbus : (sig : Nat) = 7 - 1 ↔ sig = sigbus := by rw [Fin.ext_iff]; rfl
      rw [mem_withoutFaults, mem_toSet, mem_toSet, hbits₂ sig sig.isLt, hbits₁ sig sig.isLt]
      simp only [hsegv, hbus]
      split_ifs <;> simp_all

/-! ## The whole function -/

/-- The set that the mask should become. -/
def newMask (how : Int) (set : Bool) (s : SigState) : Sigset :=
  if set then
    (changeMask (howOf how) (toSet (s.mem .set 0)) (toSet (s.mem .sigmask 0))).getD
      (toSet (s.mem .sigmask 0))
  else toSet (s.mem .sigmask 0)

/-- The function computes on words what `changeMask` does on sets, and stays inside them. -/
structure ExactSigprocmask (how : Int) (set oldset : Bool) (s : SigState) (r : Int × SigState) :
    Prop where
  mask : toSet (r.2.mem .sigmask 0) = newMask how set s
  old : oldset = true → r.2.mem .oldset 0 = s.mem .sigmask 0
  set_kept : r.2.mem .set 0 = s.mem .set 0
  invalid : set = true → (r.1 = -einval ∧ r.2.hostMasks = s.hostMasks) ∨ howOf how ≠ .other
  hostMasks : ∀ word ∈ r.2.hostMasks,
    word ∈ s.hostMasks ∨ toSet word = withoutFaults (toSet (r.2.mem .sigmask 0))
  inside : Inside s r.2

section Whole

variable {host : Host} {kernel : Word → Int} {sigpending : Int} {s s' : SigState}

/-- The mask has been changed by `g`, and the rest of the function follows. -/
theorem finishMask_spec {g : Nat → Bool → Bool} (h : MaskChanged g s s') (host : Host)
    (kernel : Word → Int) (sigpending : Int) :
    Inside s (finishMask host kernel sigpending s').2 ∧
      (finishMask host kernel sigpending s').2.mem .set 0 = s.mem .set 0 ∧
      (finishMask host kernel sigpending s').2.mem .oldset 0 = s.mem .oldset 0 ∧
      (∀ sig, sig ∈ toSet ((finishMask host kernel sigpending s').2.mem .sigmask 0) ↔
        (g sig ((s.mem .sigmask 0).getLsbD sig) = true ∧ sig ≠ sigkill) ∧ sig ≠ sigstop) ∧
      ∀ word ∈ (finishMask host kernel sigpending s').2.hostMasks, word ∈ s.hostMasks ∨
        toSet word = withoutFaults (toSet ((finishMask host kernel sigpending s').2.mem .sigmask 0)) := by
  have hchanged := h.trans (maskChanged_uncatchable host s')
  have hmask : ∀ sig, sig ∈ toSet ((sigdelset host .sigmask 19
      (sigdelset host .sigmask 9 s').2).2.mem .sigmask 0) ↔
      (g sig ((s.mem .sigmask 0).getLsbD sig) = true ∧ sig ≠ sigkill) ∧ sig ≠ sigstop := fun sig => by
    have hkill : (sig : Nat) = 8 ↔ sig = sigkill := by rw [Fin.ext_iff]; rfl
    have hstop : (sig : Nat) = 18 ↔ sig = sigstop := by rw [Fin.ext_iff]; rfl
    rw [mem_toSet, hchanged.bits sig sig.isLt, and_assoc, ← not_or]
    simp only [hkill, hstop]
    split_ifs with hsig
    · exact iff_of_false not_false fun h => h.2 hsig
    · exact (and_iff_left hsig).symm
  rw [finishMask]
  dsimp only
  split_ifs with hpending
  · have hup := signalUpdateHostmask_updated host kernel
      (sigdelset host .sigmask 19 (sigdelset host .sigmask 9 s').2).2
    rw [hup.mem .set (by decide), hup.mem .oldset (by decide), hup.mem .sigmask (by decide)]
    refine ⟨hchanged.inside.trans hup.inside, hchanged.set, hchanged.oldset, hmask,
      fun word hword => ?_⟩
    rw [← hchanged.hostMasks]
    exact hup.hostMasks word hword
  · exact ⟨hchanged.inside, hchanged.set, hchanged.oldset, hmask, fun word hword =>
      .inl (hchanged.hostMasks ▸ hword)⟩

/-- The state after the old mask has been returned. -/
def afterOld (oldset : Bool) (s : SigState) : SigState :=
  if oldset then (s.touch .sigmask 0).write .oldset 0 (s.mem .sigmask 0) else s

theorem afterOld_spec (oldset : Bool) (s : SigState) :
    Inside s (afterOld oldset s) ∧ (∀ o, o ≠ .oldset → (afterOld oldset s).mem o 0 = s.mem o 0) ∧
      (oldset = true → (afterOld oldset s).mem .oldset 0 = s.mem .sigmask 0) ∧
      (afterOld oldset s).hostMasks = s.hostMasks := by
  cases oldset with
  | false => exact ⟨.refl s, fun _ _ => rfl, nofun, rfl⟩
  | true =>
      refine ⟨(inside_touch s .sigmask).trans (inside_write _ .oldset _), fun o ho => ?_, fun _ => ?_,
        rfl⟩
      · simp [afterOld, ho]
      · simp [afterOld]

/-- A branch that changes the mask by `g` is exact when `g` is the right change. -/
theorem exact_of_maskChanged {g : Nat → Bool → Bool} {how : Int} {oldset : Bool} (new : Sigset)
    (h : MaskChanged g (afterOld oldset s) s')
    (hnew : changeMask (howOf how) (toSet (s.mem .set 0)) (toSet (s.mem .sigmask 0)) =
      some (blockable new))
    (hg : ∀ sig : Sig, g sig ((s.mem .sigmask 0).getLsbD sig) = true ↔ sig ∈ new) :
    ExactSigprocmask how true oldset s (finishMask host kernel sigpending s') := by
  obtain ⟨hinside, hmem, hold, hhost⟩ := afterOld_spec oldset s
  obtain ⟨hin, hset, holdset, hmask, hmasks⟩ := finishMask_spec h host kernel sigpending
  rw [hmem .sigmask (by decide)] at hmask
  refine ⟨?_, fun ho => holdset.trans (hold ho), hset.trans (hmem .set (by decide)), fun _ => .inr ?_,
    fun word hword => hhost ▸ hmasks word hword, hinside.trans hin⟩
  · ext sig
    rw [hmask, newMask, if_pos rfl, hnew, Option.getD_some, mem_blockable, hg, and_assoc]
  · intro hother
    rw [hother] at hnew
    cases hnew

theorem mem_toSet_union {a b : Word} (sig : Sig) :
    (if (sig : Nat) < nsig ∧ b.getLsbD sig = true then true else a.getLsbD sig) = true ↔
      sig ∈ toSet a ∪ toSet b := by
  have hlt : (sig : Nat) < nsig := sig.isLt
  rw [Finset.mem_union, mem_toSet, mem_toSet]
  cases b.getLsbD sig <;> simp [hlt]

theorem mem_toSet_sdiff {a b : Word} (sig : Sig) :
    (if (sig : Nat) < nsig ∧ b.getLsbD sig = true then false else a.getLsbD sig) = true ↔
      sig ∈ toSet a \ toSet b := by
  have hlt : (sig : Nat) < nsig := sig.isLt
  rw [Finset.mem_sdiff, mem_toSet, mem_toSet]
  cases b.getLsbD sig <;> simp [hlt]

/-- One of the two loops is exact where each signal has its bit in the first word. -/
theorem exact_of_loop {how : Int} {oldset : Bool} {f : Word → Word → Word} {b : Bool} {new : Sigset}
    (hfirst : ∀ i, 0 < i → i ≤ nsig → InFirstWord host i) (hf : SetsBit f b)
    (hnew : changeMask (howOf how) (toSet (s.mem .set 0)) (toSet (s.mem .sigmask 0)) =
      some (blockable new))
    (hg : ∀ sig : Sig, (if (sig : Nat) < nsig ∧ (s.mem .set 0).getLsbD sig = true then b
      else (s.mem .sigmask 0).getLsbD sig) = true ↔ sig ∈ new) :
    ExactSigprocmask how true oldset s (finishMask host kernel sigpending
      (forSignals (maskSignal host (sigupdate host f)) nsig (afterOld oldset s))) := by
  have hloop := maskChanged_forSignals hf (afterOld oldset s) nsig hfirst
  rw [(afterOld_spec oldset s).2.1 .set (by decide)] at hloop
  exact exact_of_maskChanged _ hloop hnew hg

/-! What has been read stays read. -/

theorem sigupdate_touched (host : Host) (f : Word → Word → Word) (o : SigObj) (signum : Nat)
    (s : SigState) {p : SigObj × Nat} (hp : p ∈ s.touched) :
    p ∈ (sigupdate host f o signum s).2.touched := by
  rw [sigupdate]
  split_ifs
  · exact hp
  · exact List.mem_cons_of_mem _ hp

theorem finishMask_touched (host : Host) (kernel : Word → Int) (sigpending : Int) (s : SigState)
    {p : SigObj × Nat} (hp : p ∈ s.touched) :
    p ∈ (finishMask host kernel sigpending s).2.touched := by
  have hdel := sigupdate_touched host (fun word msk => word &&& ~~~msk)
  rw [finishMask]
  dsimp only
  split_ifs
  · rw [signalUpdateHostmask]
    refine hdel .hostmask 7 _ (hdel .hostmask 11 _ ?_)
    exact List.mem_cons_of_mem _ (List.mem_cons_of_mem _
      (hdel .sigmask 19 _ (hdel .sigmask 9 s hp)))
  · exact hdel .sigmask 19 _ (hdel .sigmask 9 s hp)

/-- Outside x86-64 the last round of a loop reads the word behind the set. -/
theorem forSignals_touched (hhost : host ≠ .x86_64) (f : Word → Word → Word) (s : SigState) :
    (.set, 1) ∈ (forSignals (maskSignal host (sigupdate host f)) nsig s).touched := by
  have hptr : sigsetptr host 64 = 1 := by
    cases host with
    | x86_64 => exact absurd rfl hhost
    | aarch64 | riscv => rfl
  rw [nsig, forSignals, maskSignal, sigismember, if_neg (by decide), hptr]
  dsimp only
  by_cases hmember : (if (forSignals (maskSignal host (sigupdate host f)) 63 s).mem .set 1 &&&
      sigsetmsk host (63 + 1) ≠ 0#64 then 1 else 0 : Int) ≠ 0
  · rw [if_pos hmember]
    exact sigupdate_touched _ _ _ _ _ List.mem_cons_self
  · rw [if_neg hmember]
    exact List.mem_cons_self

/-- One of the two loops, for every host. -/
theorem loop_exact_iff {mem : SigObj → Nat → Word} {how : Int} {oldset : Bool}
    {f : Word → Word → Word} {b : Bool} {new : Sigset} (hf : SetsBit f b)
    (hnew : changeMask (howOf how) (toSet (mem .set 0)) (toSet (mem .sigmask 0)) =
      some (blockable new))
    (hg : ∀ sig : Sig, (if (sig : Nat) < nsig ∧ (mem .set 0).getLsbD sig = true then b
      else (mem .sigmask 0).getLsbD sig) = true ↔ sig ∈ new) :
    ExactSigprocmask how true oldset ⟨mem, [], []⟩ (finishMask host kernel sigpending
        (forSignals (maskSignal host (sigupdate host f)) nsig (afterOld oldset ⟨mem, [], []⟩))) ↔
      host = .x86_64 := by
  constructor
  · intro h
    by_contra hhost
    have hread := finishMask_touched host kernel sigpending _
      (forSignals_touched hhost f (afterOld oldset ⟨mem, [], []⟩))
    rcases h.inside.touched _ hread with hnil | hzero
    · exact nomatch hnil
    · exact absurd hzero one_ne_zero
  · rintro rfl
    exact exact_of_loop (fun i => inFirstWord_x86_64) hf hnew hg

end Whole

/-- **When `signal_sigprocmask` is exact set algebra.** The loops over the signals have to
find each of them in the one word of the set, which they do on x86-64 hosts. -/
theorem sigprocmask_exact_iff (host : Host) (kernel : Word → Int) (sigpending how : Int)
    (set oldset : Bool) (mem : SigObj → Nat → Word) :
    ExactSigprocmask how set oldset ⟨mem, [], []⟩
        (signalSigprocmask host kernel sigpending how set oldset ⟨mem, [], []⟩) ↔
      host = .x86_64 ∨ set = false ∨ how ≠ 0 ∧ how ≠ 1 := by
  obtain ⟨hinside, hmem, hold, hhost⟩ := afterOld_spec oldset ⟨mem, [], []⟩
  rw [signalSigprocmask, ← afterOld]
  cases set with
  | false =>
      refine iff_of_true ?_ (.inr (.inl rfl))
      rw [if_pos (by decide)]
      refine ⟨?_, hold, hmem .set (by decide), nofun, fun word hword => ?_, hinside⟩
      · rw [hmem .sigmask (by decide)]
        rfl
      · rw [hhost] at hword
        exact .inl hword
  | true =>
      rw [if_neg (by decide)]
      split_ifs with hblock hunblock hsetmask
      · rw [sigaddset, loop_exact_iff setsBit_add (by rw [hblock]; rfl) mem_toSet_union]
        simp [hblock]
      · rw [sigdelset, loop_exact_iff setsBit_del (by rw [hunblock]; rfl) mem_toSet_sdiff]
        simp [hunblock]
      · refine iff_of_true ?_ (.inr (.inr ⟨hblock, hunblock⟩))
        refine exact_of_maskChanged (toSet (mem .set 0))
          ((maskChanged_touch _ .set).trans (maskChanged_write _ _)) (by rw [hsetmask]; rfl)
          fun sig => ?_
        rw [hmem .set (by decide), mem_toSet]
      · refine iff_of_true ?_ (.inr (.inr ⟨hblock, hunblock⟩))
        have hother : howOf how = .other := by
          rw [howOf, if_neg hblock, if_neg hunblock, if_neg hsetmask]
        refine ⟨?_, hold, hmem .set (by decide), fun _ => .inl ⟨rfl, hhost⟩, fun word hword => ?_,
          hinside⟩
        · rw [hmem .sigmask (by decide), newMask, if_pos rfl, hother]
          rfl
        · rw [hhost] at hword
          exact .inl hword

/-- A set of signal 64 alone, with a zero word behind it. -/
def lastSignal : SigObj → Nat → Word := fun o i => if o = .set ∧ i = 0 then 1#64 <<< 63 else 0#64

/-- On AArch64, `SIG_BLOCK` of signal 64 leaves the mask empty. -/
theorem last_signal_not_blocked :
    (signalSigprocmask .aarch64 (fun _ => 0) 0 0 true false ⟨lastSignal, [], []⟩).2.mem .sigmask 0 =
        0#64 ∧
      ¬ ExactSigprocmask 0 true false ⟨lastSignal, [], []⟩
        (signalSigprocmask .aarch64 (fun _ => 0) 0 0 true false ⟨lastSignal, [], []⟩) := by
  have hmask : (signalSigprocmask .aarch64 (fun _ => 0) 0 0 true false
      ⟨lastSignal, [], []⟩).2.mem .sigmask 0 = 0#64 := by decide +kernel
  refine ⟨hmask, fun h => ?_⟩
  have hset := h.mask
  rw [hmask] at hset
  have hmem : (63 : Sig) ∈ newMask 0 true ⟨lastSignal, [], []⟩ := by decide
  rw [← hset, mem_toSet] at hmem
  exact absurd hmem (by decide)

end Instrew.Client.Signal
