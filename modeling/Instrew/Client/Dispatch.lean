import Instrew.Client.LoadObject
import Instrew.Lib.Run

/-!
# Dispatching: the quick TLB and the full resolver

`resolve_func` and `dispatch_cdecl` of `client/dispatch.c`. A thread's
`CpuState` has a direct-mapped cache of 2^10 pairs (guest address, entry point)
in front of the code-cache index; `resolve_func` asks the index, has the
address translated and loaded when it is unknown, and fills the cache unless
tracing is on.

Every filled pair agrees with the index for ever, because the index never
drops or changes an entry (`resolve_stable`). The empty pair is `(0, 0)`,
though, and it hits for address 0, which the index never has:
`quick_tlb_agrees_iff` states exactly when the cache and the index agree.
-/

namespace Instrew.Client

/-! ## State and steps -/

def quickTlbBits : Nat := 10
def quickTlbBitoff : Nat := 4
def quickTlbSlots : Nat := 2 ^ quickTlbBits

instance : NeZero quickTlbSlots := ⟨by decide⟩

/-- `QUICK_TLB_HASH`. -/
def quickTlbHash (addr : Word) : Fin quickTlbSlots :=
  Fin.ofNat quickTlbSlots (addr >>> quickTlbBitoff).toNat

/-- `struct RtldPatchData`. -/
structure RtldPatchData : Type where
  symAddr : Word
  relType : BitVec 32
  relSize : BitVec 32
  addend : Word
  patchAddr : Word
deriving DecidableEq

/-- A thread's `CpuState` with the code-cache index of its `State`. -/
structure CpuState : Type where
  quickTlb : Fin quickTlbSlots → Word × Word
  objects : Objects

/-- The zeroed `CpuState` and the fresh `Rtld`. -/
def CpuState.init : CpuState := ⟨fun _ => (0#64, 0#64), rtldEmpty⟩

/-- What one call meets outside the dispatcher: the loader's surroundings,
`tc_print_trace`, and the translator's answer to a request for the address
(the object and the address of the receive buffer). -/
structure CallEnv : Type where
  load : LoadEnv
  printTrace : Bool
  translatorGet : Word → Except Errno (Buf × Word)

/-- The full resolution of `addr`: the entry, and the index afterwards. -/
def resolveAddr (env : CallEnv) (objects : Objects) (addr : Word) :
    Except Errno (Word × Objects) :=
  match rtldResolve objects addr with
  | .ok func => .ok (func, objects)
  | .error _ => do
      let (obj, objBase) ← env.translatorGet addr
      match rtldAddObject env.load objects obj objBase addr with
      | (.error e, _) => .error e
      | (.ok _, objects) => do
          let func ← rtldResolve objects addr
          return (func, objects)

/-- `resolve_func`: `none` is the `_exit` of its error path. The code patched
by `rtld_patch` is not part of this state, and neither are the repeats that
`print_trace` counts, which end a traced process at their limit. -/
def resolveFunc (env : CallEnv) (cpu : CpuState) (addr : Word)
    (patchData : Option RtldPatchData) : Option (Word × CpuState) :=
  let addr := match patchData with
    | some p => p.symAddr
    | none => addr
  match resolveAddr env cpu.objects addr with
  | .error _ => none
  | .ok (func, objects) =>
      -- no quick TLB update when tracing: that forces a full resolve each time
      if env.printTrace then some (func, { cpu with objects := objects })
      else some (func, ⟨Function.update cpu.quickTlb (quickTlbHash addr) (addr, func), objects⟩)

/-- The quick path has a pair for `addr`. -/
def quickHit (cpu : CpuState) (addr : Word) : Prop :=
  (cpu.quickTlb (quickTlbHash addr)).1 = addr

instance (cpu : CpuState) (addr : Word) : Decidable (quickHit cpu addr) := by
  unfold quickHit
  infer_instance

/-- `dispatch_cdecl` up to the call of the translated function. -/
def dispatchCdecl (env : CallEnv) (cpu : CpuState) (addr : Word) : Option (Word × CpuState) :=
  if quickHit cpu addr then some ((cpu.quickTlb (quickTlbHash addr)).2, cpu)
  else resolveFunc env cpu addr none

inductive DispatchAction : Type where
  | dispatch (env : CallEnv) (addr : Word)
  | resolve (env : CallEnv) (addr : Word) (patchData : Option RtldPatchData)
  | addObject (env : LoadEnv) (obj : Buf) (objBase skew : Word)

def dispatchStep (cpu : CpuState) : DispatchAction → Option CpuState
  | .dispatch env addr => (dispatchCdecl env cpu addr).map Prod.snd
  | .resolve env addr patchData => (resolveFunc env cpu addr patchData).map Prod.snd
  | .addObject env obj objBase skew =>
      some { cpu with objects := (rtldAddObject env cpu.objects obj objBase skew).2 }

/-! ## The index never forgets -/

/-- The array is reached by `rtld_set` calls from the empty one. -/
def Indexed (objects : Objects) : Prop := ∃ l, IndexRep objects l

/-- An entry once found is found after any further registration. -/
theorem resolve_stable {objects : Objects} (h : Indexed objects) {addr func : Word}
    (hres : rtldResolve objects addr = .ok func) (new : RtldObject) :
    rtldResolve (rtldSet objects new).2 addr = .ok func := by
  obtain ⟨l, hl⟩ := h
  have hset := (hl.set new).2
  rw [hl.resolve] at hres
  have hentry : l.objectAt? addr = some func := by
    cases he : l.objectAt? addr with
    | none =>
        rw [he] at hres
        cases hres
    | some e =>
        rw [he] at hres
        cases hres
        rfl
  rcases l.set_cases new with ⟨-, hl'⟩ | ⟨e, -, hl'⟩
  · rw [hl'] at hset
    obtain ⟨o, ho, rfl⟩ := Option.map_eq_some_iff.mp hentry
    rw [hset.resolve]
    have happ : (l ++ [(new.addr, new)]).lookup addr = some o := by
      rw [List.lookup_append, ho]
      rfl
    simp [CodeMap.objectAt?, happ]
  · rw [hl'] at hset
    rw [hset.resolve, hentry]

/-- What registrations keep, for any objects: the representation and every
entry already found. -/
theorem keptBySets_resolve (addr func : Word) :
    KeptBySets (fun objects => Indexed objects ∧ rtldResolve objects addr = .ok func)
      (fun _ => True) where
  step := fun objects new h _ => by
    obtain ⟨⟨l, hl⟩, hres⟩ := h
    exact ⟨⟨_, (hl.set new).2⟩, resolve_stable ⟨l, hl⟩ hres new⟩

theorem keptBySets_indexed : KeptBySets Indexed (fun _ => True) where
  step := fun objects new h _ => by
    obtain ⟨l, hl⟩ := h
    exact ⟨_, (hl.set new).2⟩

theorem addObject_indexed {env : LoadEnv} {objects : Objects} {obj : Buf}
    {objBase skew : Word} (h : Indexed objects) :
    Indexed (rtldAddObject env objects obj objBase skew).2 :=
  rtldAddObject_kept keptBySets_indexed (fun _ _ _ _ _ _ => trivial) h

theorem addObject_resolve {env : LoadEnv} {objects : Objects} {obj : Buf}
    {objBase skew addr func : Word} (h : Indexed objects)
    (hres : rtldResolve objects addr = .ok func) :
    rtldResolve (rtldAddObject env objects obj objBase skew).2 addr = .ok func :=
  (rtldAddObject_kept (keptBySets_resolve addr func) (fun _ _ _ _ _ _ => trivial) ⟨h, hres⟩).2

/-- A successful full resolution: the answer is what the index now has, and
everything found before is still found. -/
theorem resolveAddr_spec {env : CallEnv} {objects objects' : Objects} {addr func : Word}
    (hidx : Indexed objects) (h : resolveAddr env objects addr = .ok (func, objects')) :
    Indexed objects' ∧ rtldResolve objects' addr = .ok func ∧
      ∀ a f, rtldResolve objects a = .ok f → rtldResolve objects' a = .ok f := by
  unfold resolveAddr at h
  cases hres : rtldResolve objects addr with
  | ok f =>
      rw [hres] at h
      cases h
      exact ⟨hidx, hres, fun a f hf => hf⟩
  | error e =>
      rw [hres] at h
      simp only at h
      cases hget : env.translatorGet addr with
      | error e' =>
          rw [hget] at h
          cases h
      | ok reply =>
          obtain ⟨obj, objBase⟩ := reply
          rw [hget] at h
          simp only [bind, Except.bind] at h
          have hidx' : Indexed (rtldAddObject env.load objects obj objBase addr).2 :=
            addObject_indexed hidx
          have hkeep : ∀ a f, rtldResolve objects a = .ok f →
              rtldResolve (rtldAddObject env.load objects obj objBase addr).2 a = .ok f :=
            fun a f hf => addObject_resolve hidx hf
          cases hadd : rtldAddObject env.load objects obj objBase addr with
          | mk code o =>
              rw [hadd] at h hidx' hkeep
              cases code with
              | error e' => cases h
              | ok u =>
                  simp only at h
                  cases hres' : rtldResolve o addr with
                  | error e' =>
                      rw [hres'] at h
                      cases h
                  | ok f =>
                      rw [hres'] at h
                      cases h
                      exact ⟨hidx', hres', hkeep⟩

/-! ## The cache invariant -/

/-- Every pair of the quick TLB is empty or agrees with the index. -/
structure TlbInv (cpu : CpuState) : Prop where
  indexed : Indexed cpu.objects
  agree : ∀ i, (cpu.quickTlb i).1 = 0#64 ∨
    rtldResolve cpu.objects (cpu.quickTlb i).1 = .ok (cpu.quickTlb i).2

theorem tlbInv_init : TlbInv CpuState.init where
  indexed := ⟨[], indexRep_empty⟩
  agree := fun _ => Or.inl rfl

theorem resolveFunc_inv {env : CallEnv} {cpu cpu' : CpuState} {addr func : Word}
    {patchData : Option RtldPatchData} (h : TlbInv cpu)
    (hs : resolveFunc env cpu addr patchData = some (func, cpu')) : TlbInv cpu' := by
  unfold resolveFunc at hs
  simp only at hs
  generalize (match patchData with
    | some p => p.symAddr
    | none => addr) = a at hs
  cases hres : resolveAddr env cpu.objects a with
  | error e =>
      rw [hres] at hs
      cases hs
  | ok r =>
      obtain ⟨f, objects⟩ := r
      obtain ⟨hidx, hfound, hkeep⟩ := resolveAddr_spec h.indexed hres
      rw [hres] at hs
      simp only at hs
      have hold : ∀ i, (cpu.quickTlb i).1 = 0#64 ∨
          rtldResolve objects (cpu.quickTlb i).1 = .ok (cpu.quickTlb i).2 :=
        fun i => (h.agree i).imp id (hkeep _ _)
      split_ifs at hs with htrace
      · cases hs
        exact ⟨hidx, hold⟩
      · cases hs
        refine ⟨hidx, ?_⟩
        intro i
        by_cases hi : i = quickTlbHash a
        · subst hi
          simp only [Function.update_self]
          exact Or.inr hfound
        · simp only [Function.update_of_ne hi]
          exact hold i

theorem dispatchStep_inv (cpu : CpuState) (a : DispatchAction) (cpu' : CpuState)
    (h : TlbInv cpu) (hs : dispatchStep cpu a = some cpu') : TlbInv cpu' := by
  cases a with
  | dispatch env addr =>
      obtain ⟨⟨func, c⟩, hd, rfl⟩ := Option.map_eq_some_iff.mp hs
      unfold dispatchCdecl at hd
      split_ifs at hd with hhit
      · cases hd
        exact h
      · exact resolveFunc_inv h hd
  | resolve env addr patchData =>
      obtain ⟨⟨func, c⟩, hd, rfl⟩ := Option.map_eq_some_iff.mp hs
      exact resolveFunc_inv h hd
  | addObject env obj objBase skew =>
      cases hs
      exact ⟨addObject_indexed h.indexed,
        fun i => (h.agree i).imp id (addObject_resolve h.indexed)⟩

/-- **When the quick TLB agrees with the full resolver.** In every state a run
from the zeroed state reaches and for every address: a hit of the quick path
is what `rtld_resolve` answers, except when the address is 0 and slot 0 is
still empty. -/
theorem quick_tlb_agrees_iff (actions : List DispatchAction) (cpu : CpuState)
    (hrun : Lib.Run.run dispatchStep CpuState.init actions = some cpu) (addr : Word) :
    (quickHit cpu addr →
      rtldResolve cpu.objects addr = .ok (cpu.quickTlb (quickTlbHash addr)).2) ↔
    (addr ≠ 0#64 ∨ (cpu.quickTlb 0).1 ≠ 0#64) := by
  have hinv := Lib.Run.run_invariant dispatchStep_inv actions tlbInv_init hrun
  constructor
  · intro hagree
    by_contra hcon
    rw [not_or, not_not, not_not] at hcon
    obtain ⟨rfl, hempty⟩ := hcon
    have hhit : quickHit cpu 0#64 := hempty
    have hres := hagree hhit
    -- the index answers -ENOENT for address 0
    simp [rtldResolve] at hres
  · intro hcond hhit
    unfold quickHit at hhit
    rcases hinv.agree (quickTlbHash addr) with h0 | hres
    · rw [hhit] at h0
      subst h0
      rcases hcond with hne | hne
      · exact absurd rfl hne
      · exact absurd hhit hne
    · rwa [hhit] at hres

/-- A run that fills the quick TLB: an object is loaded, its function is
dispatched to. -/
def loadThenDispatch : List DispatchAction :=
  [.addObject firstBlockEnv (objectNamed absoluteName) 0#64 0#64,
    .dispatch ⟨firstBlockEnv, false, fun _ => .error .EINVAL⟩ 0x401000#64]

theorem quick_tlb_agrees_after_dispatch :
    ∃ cpu, Lib.Run.run dispatchStep CpuState.init loadThenDispatch = some cpu ∧
      quickHit cpu 0x401000#64 ∧
      ((quickHit cpu 0x401000#64 → rtldResolve cpu.objects 0x401000#64 =
          .ok (cpu.quickTlb (quickTlbHash 0x401000#64)).2) ↔
        (0x401000#64 ≠ 0#64 ∨ (cpu.quickTlb 0).1 ≠ 0#64)) := by
  -- one evaluation of the run for both facts
  have hany : (Lib.Run.run dispatchStep CpuState.init loadThenDispatch).any
      (fun cpu => decide (quickHit cpu 0x401000#64)) = true := by decide +kernel
  obtain ⟨cpu, hrun, hhit⟩ := (Option.any_eq_true _ _).mp hany
  exact ⟨cpu, hrun, of_decide_eq_true hhit,
    quick_tlb_agrees_iff loadThenDispatch cpu hrun 0x401000#64⟩

/-- The zeroed quick TLB hits for address 0 with entry point 0, where the
resolver answers `-ENOENT`. -/
theorem quick_tlb_zero_disagrees :
    Lib.Run.run dispatchStep CpuState.init [] = some CpuState.init ∧
      quickHit CpuState.init 0#64 ∧
      (CpuState.init.quickTlb (quickTlbHash 0#64)).2 = 0#64 ∧
      rtldResolve CpuState.init.objects 0#64 = .error .ENOENT := by
  refine ⟨rfl, rfl, rfl, ?_⟩
  decide +kernel

end Instrew.Client
