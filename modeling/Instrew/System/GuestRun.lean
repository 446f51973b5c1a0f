import Instrew.Client.HotLoop
import Instrew.Client.RegisteredFuncs

/-!
# What a whole run does

Over runs of any length: the machine that dispatches translated functions executes
the guest's blocks in order (`machine_runs_guest`), and the translator is asked for
an address at most once (`translator_asked_once`).

Of the translator it is assumed that the functions in its answers are translations of
the code at the addresses their names stand for. That they are found under these
addresses is what the loader does with a well-formed answer. The names of the server do
not stand for the addresses that it was asked for (`Naming`), so this is about a server
that uses absolute names.
-/

namespace Instrew.Client

open Instrew.Lib.Asm

/-! ## The guest's blocks -/

section
variable {d : Dispatcher} {L : Layout d} {G : Type} {guest : GuestIn d L.toPlaces G}

/-- Every entry of the index is a translation of the guest code at its address. -/
def AllCorrect (Correct : Word → Word → Prop) (objects : Objects) : Prop :=
  ∀ addr func, rtldResolve objects addr = .ok func → Correct addr func

/-- **The translator is right.** Its answers are well-formed objects, and a function of an
answer, in the memory that the loader gets for it, is a translation of the guest code at
the address that the function's name stands for. -/
structure AnswersCorrectly (Correct : Word → Word → Prop) (re : RtldElf) (arena : RtldElf.Arena)
    (env : CallEnv) : Prop where
  load : env.load = re.loadEnv arena
  wellFormed : ∀ addr obj objBase, env.translatorGet addr = .ok (obj, objBase) →
    WellFormed re.host obj
  translates : ∀ addr obj objBase, env.translatorGet addr = .ok (obj, objBase) →
    ∀ a func, Provides arena.memAllocCode obj addr a func → Correct a func

/-- Translated code is right: entered for a guest state whose block it translates, it
ends with the state after the block. -/
def RunsBlocks (guest : GuestIn d L.toPlaces G) (rets : LoopReturns) (Correct : Word → Word → Prop)
    (block : G → G) (body : Word → Machine HostReg → Ending × Machine HostReg) : Prop :=
  ∀ func g cpu m, Entered guest rets g cpu m → Correct (guest.pc g) func →
    AtEnd guest rets (block g, cpu) (body func m)

variable {Correct : Word → Word → Prop} {re : RtldElf} {arena : RtldElf.Arena} {env : CallEnv}
  {cpu cpu' : CpuState} {addr func : Word}

/-- Loading an answer adds translations only. -/
theorem AnswersCorrectly.added (henv : AnswersCorrectly Correct re arena env) {objects : Objects}
    (hidx : Indexed objects) (hall : AllCorrect Correct objects) {obj : Buf} {objBase : Word}
    (hget : env.translatorGet addr = .ok (obj, objBase)) :
    AllCorrect Correct (rtldAddObject env.load objects obj objBase addr).2 := by
  intro a f hf
  rw [henv.load] at hf
  rcases rtldAddObject_adds (henv.wellFormed addr obj objBase hget) hidx hf with hold | hnew
  · exact hall a f hold
  · exact henv.translates addr obj objBase hget a f hnew

theorem resolveAddr_correct {objects objects' : Objects}
    (henv : AnswersCorrectly Correct re arena env) (hidx : Indexed objects)
    (hall : AllCorrect Correct objects)
    (h : resolveAddr env objects addr = .ok (func, objects')) : AllCorrect Correct objects' := by
  unfold resolveAddr at h
  cases hres : rtldResolve objects addr with
  | ok f =>
      rw [hres] at h
      cases h
      exact hall
  | error e =>
      rw [hres] at h
      cases hget : env.translatorGet addr with
      | error e' =>
          rw [hget] at h
          cases h
      | ok reply =>
          obtain ⟨obj, objBase⟩ := reply
          have hadded := henv.added hidx hall hget
          rw [hget] at h
          simp only [bind, Except.bind] at h
          rcases hadd : rtldAddObject env.load objects obj objBase addr with ⟨code, o⟩
          rw [hadd] at h hadded
          cases code with
          | error e' => cases h
          | ok u =>
              simp only at h
              cases hres' : rtldResolve o addr with
              | error e' =>
                  rw [hres'] at h
                  cases h
              | ok f =>
                  rw [hres'] at h
                  cases h
                  exact hadded

/-- A dispatch goes to a translation of the code at the address, and leaves the index
and the quick TLB as good as they were. -/
theorem dispatchCdecl_correct (henv : AnswersCorrectly Correct re arena env) (hinv : TlbInv cpu)
    (hall : AllCorrect Correct cpu.objects) (haddr : addr ≠ 0#64)
    (hd : dispatchCdecl env cpu addr = some (func, cpu')) :
    Correct addr func ∧ TlbInv cpu' ∧ AllCorrect Correct cpu'.objects := by
  by_cases hhit : quickHit cpu addr
  · obtain ⟨hfunc, hcpu⟩ := dispatchCdecl_hit hd hhit
    rw [hcpu, ← hfunc]
    refine ⟨hall addr _ ?_, hinv, hall⟩
    have hslot : (cpu.quickTlb (quickTlbHash addr)).1 = addr := hhit
    rcases hinv.agree (quickTlbHash addr) with hempty | hagree
    · exact absurd (hslot.symm.trans hempty) haddr
    · rwa [hslot] at hagree
  · rw [dispatchCdecl, if_neg hhit] at hd
    have hinv' := resolveFunc_inv hinv hd
    obtain ⟨objects, hr, hcpu⟩ := resolveFunc_cases hd
    have hall' : AllCorrect Correct objects := resolveAddr_correct henv hinv.indexed hall hr
    have hobjects : cpu'.objects = objects := by
      rcases hcpu with ⟨-, rfl⟩ | ⟨-, rfl⟩
      · rfl
      · rfl
    refine ⟨hall' addr func (resolveAddr_spec hinv.indexed hr).2.1, hinv', ?_⟩
    rw [hobjects]
    exact hall'

/-- **Running translated code is running the guest.** Under any of the fast
dispatchers, with a translator whose translations are right, the machine that has
entered `n` translated functions holds the guest state after `n` blocks, and the
`k`-th function entered is a translation of the guest code at the `k`-th program
counter. This is for programs that never get to address 0, where the empty quick TLB
hits, and runs in which no resolution fails. -/
theorem machine_runs_guest (guest : GuestIn d L.toPlaces G) (rets : LoopReturns)
    (Correct : Word → Word → Prop) (block : G → G)
    (body : Word → Machine HostReg → Ending × Machine HostReg)
    (hbody : RunsBlocks guest rets Correct block body)
    (calls : List (CallEnv × (Machine HostReg → Machine HostReg)))
    (hcalls : ∀ c ∈ calls, ResolvesFunc d L.toPlaces c.1 c.2 ∧
      ∃ re arena, AnswersCorrectly Correct re arena c.1)
    (g : G) (cpu : CpuState) (hinv : TlbInv cpu) (hall : AllCorrect Correct cpu.objects)
    (s : Ending × Machine HostReg) (hstart : AtEnd guest rets (g, cpu) s)
    (hpc : ∀ k < calls.length, guest.pc (block^[k] g) ≠ 0#64)
    (funcs : List Word) (final : G × CpuState)
    (hrun : cdeclLoop guest.pc (fun _ t => (block t.1, t.2)) (calls.map Prod.fst) (g, cpu) =
      some (funcs, final))
    (hret : ∀ func ∈ funcs, ¬ rets.Is func) :
    let machine := hotLoop rets d body (calls.map Prod.snd) s
    machine.1 = funcs ∧ funcs.length = calls.length ∧
      (∀ k func, funcs[k]? = some func → Correct (guest.pc (block^[k] g)) func) ∧
      AtEnd guest rets (block^[calls.length] g, final.2) machine.2 := by
  induction calls generalizing g cpu s funcs with
  | nil =>
      cases hrun
      exact ⟨rfl, rfl, fun k func h => by simp at h, hstart⟩
  | cons c calls ih =>
      obtain ⟨⟨func, cpu'⟩, hd, hrest⟩ := Option.bind_eq_some_iff.mp hrun
      obtain ⟨⟨rest, last⟩, hloop, hfuncs⟩ := Option.bind_eq_some_iff.mp hrest
      cases hfuncs
      rw [List.forall_mem_cons] at hret
      obtain ⟨hfunc, re, arena, henv⟩ := hcalls c List.mem_cons_self
      obtain ⟨hcorrect, hinv', hall'⟩ := dispatchCdecl_correct henv hinv hall
        (hpc 0 (Nat.succ_pos _)) hd
      obtain ⟨htarget, hentered⟩ := nextFunc_enters hstart hinv.indexed hfunc hret.1 hd
      have hend := hbody func g cpu' _ hentered hcorrect
      obtain ⟨hfuncs, hlen, hks, hat⟩ := ih (fun c' hc' => hcalls c' (List.mem_cons_of_mem _ hc'))
        (block g) cpu' hinv' hall' _ hend (fun k hk => hpc (k + 1) (Nat.succ_lt_succ hk)) rest hloop
        hret.2
      simp only [List.map_cons, hotLoop, htarget]
      refine ⟨congrArg (func :: ·) hfuncs, congrArg (· + 1) hlen, ?_, hat⟩
      intro k f hk
      cases k with
      | zero =>
          cases hk
          exact hcorrect
      | succ k => exact hks k f hk

end

/-! A RISC-V thread that starts with an empty index, in a guest function that tail-calls
itself: the first dispatch asks the translator and loads its answer, the second one hits
the quick TLB. -/

section Asking

open Lib.Bytes (le)

/-- The answer: header, `.text`, `.symtab` with a function of the given name, section
headers, `.strtab`. -/
def riscvAnswer (name : List Byte) : Buf :=
  [elfHeader 243 120 4, le 4 0x8067, le 4 0, symBytes 0 0 0 0, symBytes 1 0x12 1 0,
    shdrBytes 0 0 0 0 0 0 0, shdrBytes 1 6 64 4 0 4 0, shdrBytes 2 0 72 48 3 8 24,
    shdrBytes 3 0 376 (name.length + 2) 0 1 0, [0#8], name, [0#8]].flatten

def askingEnv : CallEnv where
  load := riscvElf.loadEnv riscvArena
  printTrace := false
  translatorGet := fun addr =>
    if addr = 0x401000#64 then .ok (riscvAnswer absoluteName, 0x1000#64) else .error .EINVAL

/-- The index with the answer. -/
@[irreducible]
def answerIndex : Objects :=
  (rtldAddObject askingEnv.load rtldEmpty (riscvAnswer absoluteName) 0x1000#64 0x401000#64).2

theorem answer_added :
    (rtldAddObject askingEnv.load rtldEmpty (riscvAnswer absoluteName) 0x1000#64 0x401000#64).1 =
      .ok () ∧ rtldResolve answerIndex 0x401000#64 = .ok 0x400000002000#64 := by
  decide +kernel

theorem answer_loaded :
    rtldAddObject askingEnv.load rtldEmpty (riscvAnswer absoluteName) 0x1000#64 0x401000#64 =
      (.ok (), answerIndex) := by
  have hok := answer_added.1
  delta answerIndex
  generalize rtldAddObject askingEnv.load rtldEmpty _ _ _ = added at hok ⊢
  exact Prod.ext hok rfl

theorem askingEnv_translatorGet :
    askingEnv.translatorGet 0x401000#64 = .ok (riscvAnswer absoluteName, 0x1000#64) := by
  simp only [askingEnv, if_true]

/-- The first resolution of the address. -/
theorem askingEnv_first :
    resolveAddr askingEnv rtldEmpty 0x401000#64 = .ok (0x400000002000#64, answerIndex) := by
  have hempty : rtldResolve rtldEmpty 0x401000#64 = .error .ENOENT := indexRep_empty.resolve _
  rw [resolveAddr, hempty, askingEnv_translatorGet]
  simp only [bind, Except.bind, answer_loaded, answer_added.2, pure, Except.pure]

theorem answer_wellFormed : WellFormed .riscv (riscvAnswer absoluteName) := by decide +kernel

/-- The answer has one function, for the address that was asked for. -/
theorem answer_provides {a func : Word}
    (h : Provides riscvArena.memAllocCode (riscvAnswer absoluteName) 0x401000#64 a func) :
    a = 0x401000#64 ∧ func = 0x400000002000#64 := by
  have hfuncs : ∀ i < shnum (riscvAnswer absoluteName),
      shType (riscvAnswer absoluteName) i = SHT_SYMTAB →
      ∀ k < symCount (riscvAnswer absoluteName) i,
        IsNamedFunc (riscvAnswer absoluteName) i (symAt (riscvAnswer absoluteName) i k) →
        (rtldElfDecodeName 0x401000#64 ((riscvAnswer absoluteName).cstr
          (nameAt (riscvAnswer absoluteName) i (symAt (riscvAnswer absoluteName) i k))) 0#64).2 =
            0x401000#64 ∧
        placedAddrs (riscvAnswer absoluteName) 0x400000002000#64
            (stShndx (riscvAnswer absoluteName) (symAt (riscvAnswer absoluteName) i k)).toNat +
          stValue (riscvAnswer absoluteName) (symAt (riscvAnswer absoluteName) i k) =
            0x400000002000#64 := by
    decide +kernel
  obtain ⟨i, hi, htype, k, hk, hnamed, hdecode, base, halloc, rfl⟩ := h
  obtain ⟨haddr, hplace⟩ := hfuncs i hi htype k hk hnamed
  rw [hdecode] at haddr
  obtain rfl : 0x400000002000#64 = base := Except.ok.inj halloc
  exact ⟨haddr, hplace⟩

theorem askingEnv_answersCorrectly :
    AnswersCorrectly (fun addr func => addr = 0x401000#64 ∧ func = 0x400000002000#64) riscvElf
      riscvArena askingEnv where
  load := rfl
  wellFormed := fun addr obj objBase hget => by
    simp only [askingEnv] at hget
    split_ifs at hget
    cases hget
    exact answer_wellFormed
  translates := fun addr obj objBase hget a func h => by
    simp only [askingEnv] at hget
    split_ifs at hget with haddr
    cases hget
    subst haddr
    exact answer_provides h

/-- The thread's memory: a word for the index below the CPU state. -/
def askingPlaces : Places where
  sptr := 0x7040#64
  sp := 0x20000#64
  slot := 0x20100#64
  own := { a | a.toNat < 0x10000 }
  Index := fun o mem => mem 0x6000#64 = 0#64 ∧ o = rtldEmpty ∨ mem 0x6000#64 = 1#64 ∧ o = answerIndex

theorem asking_scratch {a : Word} (h : askingPlaces.Scratch .lp64 a) : 0x1ffa8 ≤ a.toNat :=
  selfLoop_scratch h

theorem asking_not_scratch {a : Word} (ha : a.toNat < 0x10000) : ¬ askingPlaces.Scratch .lp64 a :=
  fun h => absurd (asking_scratch h) (by omega)

theorem asking_cpuState_apart : ¬ askingPlaces.Scratch .lp64 (askingPlaces.sptr - 0x40#64) :=
  asking_not_scratch (by decide)

theorem asking_tlb_apart {j : Nat} (hj : j < 2 * quickTlbSlots) :
    ¬ askingPlaces.Scratch .lp64 (tlbWord askingPlaces.sptr j) := by
  refine asking_not_scratch ?_
  have hj' : j < 2048 := hj
  rw [show askingPlaces.sptr = 0x7040#64 from rfl, selfLoop_tlbWord hj]
  omega

theorem asking_index_apart {o : Objects} {mem mem' : Word → Word}
    (hmem : ∀ a, ¬ askingPlaces.Scratch .lp64 a → mem' a = mem a) (h : askingPlaces.Index o mem) :
    askingPlaces.Index o mem' := by
  have hword : mem' 0x6000#64 = mem 0x6000#64 := hmem _ (asking_not_scratch (by decide))
  simpa only [askingPlaces, hword] using h

theorem asking_slot_own : ∀ p ∈ Rv.sretSlot, askingPlaces.slot + p.2 ∉ askingPlaces.own := by
  have hslot : ∀ p ∈ Rv.sretSlot, ¬ (askingPlaces.slot + p.2).toNat < 0x10000 := by decide
  exact hslot

def askingLayout : Layout .lp64 where
  toPlaces := askingPlaces
  cpuState_apart := asking_cpuState_apart
  tlb_apart := fun _ => asking_tlb_apart
  index_apart := fun _ _ _ => asking_index_apart
  slot_own := fun _ => asking_slot_own
  slot_stack := fun _ => selfLoop_slot_stack

def askingGuest : GuestIn .lp64 askingLayout.toPlaces Word where
  pc := id
  Holds := fun g m => m.regs (Rv.a 2) = g
  pc_eq := fun _ _ h => h
  stable := fun _ _ _ hregs _ h => (hregs _ (by decide)).trans h

/-- Where `resolve_func` stores the pair for an address. -/
def askingSlot (addr : Word) : Nat := 2 * (quickTlbHash addr).val

/-- `resolve_func` of the thread, when it returns. -/
def resolveAsked (c : Machine HostReg) : Machine HostReg :=
  match rtldResolve answerIndex (c.regs (Rv.a 1)) with
  | .error _ => c
  | .ok func =>
      (((c.setMem 0x6000#64 1#64).setMem (tlbWord 0x7040#64 (askingSlot (c.regs (Rv.a 1))))
        (c.regs (Rv.a 1))).setMem (tlbWord 0x7040#64 (askingSlot (c.regs (Rv.a 1)) + 1)) func).setReg
          (Rv.a 0) func

/-- A resolution ends with the answer in the index. -/
theorem askingEnv_resolves {objects objects' : Objects} {addr func : Word}
    (hobjects : objects = rtldEmpty ∨ objects = answerIndex)
    (h : resolveAddr askingEnv objects addr = .ok (func, objects')) :
    objects' = answerIndex ∧ rtldResolve answerIndex addr = .ok func := by
  by_cases haddr : addr = 0x401000#64
  · subst haddr
    have hr : resolveAddr askingEnv objects 0x401000#64 = .ok (0x400000002000#64, answerIndex) := by
      rcases hobjects with hempty | hanswer
      · rw [hempty, askingEnv_first]
      · rw [hanswer, resolveAddr, answer_added.2]
    simp only [hr, Except.ok.injEq, Prod.mk.injEq] at h
    rw [← h.1, ← h.2]
    exact ⟨rfl, answer_added.2⟩
  · -- the translator has no answer for any other address
    have hget : askingEnv.translatorGet addr = .error .EINVAL := if_neg haddr
    rw [resolveAddr, hget] at h
    cases hres : rtldResolve objects addr with
    | error e =>
        rw [hres] at h
        cases h
    | ok f =>
        simp only [hres, Except.ok.injEq, Prod.mk.injEq] at h
        rcases hobjects with hempty | hanswer
        · rw [hempty, indexRep_empty.resolve addr] at hres
          cases hres
        · rw [← h.1, ← h.2, ← hanswer]
          exact ⟨rfl, hres⟩

theorem resolveAsked_of_ok {c : Machine HostReg} {func : Word}
    (h : rtldResolve answerIndex (c.regs (Rv.a 1)) = .ok func) :
    (resolveAsked c).regs = Function.update c.regs (Rv.a 0) func ∧
      (resolveAsked c).mem = Function.update (Function.update (Function.update c.mem 0x6000#64 1#64)
        (tlbWord 0x7040#64 (askingSlot (c.regs (Rv.a 1)))) (c.regs (Rv.a 1)))
        (tlbWord 0x7040#64 (askingSlot (c.regs (Rv.a 1)) + 1)) func := by
  rw [resolveAsked, h]
  exact ⟨rfl, rfl⟩

theorem resolveAsked_regs (c : Machine HostReg) {r : HostReg} (hr : r ≠ Rv.a 0) :
    (resolveAsked c).regs r = c.regs r := by
  cases h : rtldResolve answerIndex (c.regs (Rv.a 1)) with
  | error e => rw [resolveAsked, h]
  | ok func =>
      rw [(resolveAsked_of_ok h).1]
      exact Function.update_of_ne hr _ _

theorem askingSlot_lt (addr : Word) : askingSlot addr + 1 < 2 * quickTlbSlots := by
  have := (quickTlbHash addr).isLt
  rw [askingSlot]
  omega

/-- Only the thread's own words are written. -/
theorem resolveAsked_mem (c : Machine HostReg) {a : Word} (ha : 0x10000 ≤ a.toNat) :
    (resolveAsked c).mem a = c.mem a := by
  cases h : rtldResolve answerIndex (c.regs (Rv.a 1)) with
  | error e => rw [resolveAsked, h]
  | ok func =>
      have hslot : askingSlot (c.regs (Rv.a 1)) + 1 < 2048 := askingSlot_lt _
      have hne : ∀ {b : Word}, b.toNat < 0x10000 → a ≠ b := by
        rintro b hb rfl
        omega
      rw [(resolveAsked_of_ok h).2, Function.update_of_ne, Function.update_of_ne,
        Function.update_of_ne]
      · exact hne (by decide)
      · exact hne (by rw [selfLoop_tlbWord (Nat.lt_of_succ_lt hslot)]; omega)
      · exact hne (by rw [selfLoop_tlbWord hslot]; omega)

theorem tlbWord_ne {j k : Nat} (hj : j < 2 * quickTlbSlots) (hk : k < 2 * quickTlbSlots)
    (hjk : j ≠ k) : tlbWord 0x7040#64 j ≠ tlbWord 0x7040#64 k := by
  intro heq
  have htoNat := congrArg BitVec.toNat heq
  rw [selfLoop_tlbWord hj, selfLoop_tlbWord hk] at htoNat
  omega

/-- The other words of the CPU state and the index lie below the quick TLB. -/
theorem ne_tlbWord_of_lt {a : Word} (ha : a.toNat < 0x7040) {j : Nat} (hj : j < 2 * quickTlbSlots) :
    a ≠ tlbWord 0x7040#64 j := by
  rintro rfl
  rw [selfLoop_tlbWord hj] at ha
  omega

theorem resolveAsked_ret {c : Machine HostReg} {func : Word}
    (h : rtldResolve answerIndex (c.regs (Rv.a 1)) = .ok func) :
    (resolveAsked c).regs (Rv.a 0) = func := by
  rw [(resolveAsked_of_ok h).1]
  exact Function.update_self _ _ _

/-- The pair goes to the slot of the address. -/
theorem resolveAsked_cpuAt {c : Machine HostReg} {cpu : CpuState} {func : Word}
    (hcpu : CpuAt askingPlaces cpu c.mem)
    (h : rtldResolve answerIndex (c.regs (Rv.a 1)) = .ok func) :
    CpuAt askingPlaces ⟨Function.update cpu.quickTlb (quickTlbHash (c.regs (Rv.a 1)))
      (c.regs (Rv.a 1), func), answerIndex⟩ (resolveAsked c).mem := by
  have hmem := (resolveAsked_of_ok h).2
  generalize c.regs (Rv.a 1) = addr at h hmem ⊢
  have hslot := askingSlot_lt addr
  have hword : ∀ {j}, j < 2 * quickTlbSlots → tlbWord 0x7040#64 j ≠ 0x6000#64 :=
    fun hj => (ne_tlbWord_of_lt (by decide) hj).symm
  have hbelow : ∀ {a : Word}, a.toNat < 0x7040 →
      (resolveAsked c).mem a = Function.update c.mem 0x6000#64 1#64 a := by
    intro a ha
    rw [hmem, Function.update_of_ne (ne_tlbWord_of_lt ha hslot),
      Function.update_of_ne (ne_tlbWord_of_lt ha (Nat.lt_of_succ_lt hslot))]
  constructor
  case self =>
    exact (hbelow (by decide)).trans ((Function.update_of_ne (by decide) _ _).trans hcpu.self)
  case addr =>
    intro i
    have hi : 2 * i.val < 2 * quickTlbSlots := by omega
    show _ = (Function.update cpu.quickTlb (quickTlbHash addr) (addr, func) i).1
    rw [hmem, show askingPlaces.sptr = 0x7040#64 from rfl,
      Function.update_of_ne (tlbWord_ne hi hslot (by rw [askingSlot]; omega))]
    by_cases hhash : i = quickTlbHash addr
    · rw [hhash, Function.update_self, askingSlot, Function.update_self]
    · have hne : 2 * i.val ≠ askingSlot addr := fun heq =>
        hhash (Fin.ext (Nat.eq_of_mul_eq_mul_left Nat.two_pos heq))
      rw [Function.update_of_ne hhash, Function.update_of_ne (tlbWord_ne hi (by omega) hne),
        Function.update_of_ne (hword hi)]
      exact hcpu.addr i
  case func =>
    intro i
    have hi : 2 * i.val + 1 < 2 * quickTlbSlots := by omega
    show _ = (Function.update cpu.quickTlb (quickTlbHash addr) (addr, func) i).2
    rw [hmem, show askingPlaces.sptr = 0x7040#64 from rfl]
    by_cases hhash : i = quickTlbHash addr
    · rw [hhash, Function.update_self, askingSlot, Function.update_self]
    · have hne : 2 * i.val + 1 ≠ askingSlot addr + 1 := fun heq =>
        hhash (Fin.ext (Nat.eq_of_mul_eq_mul_left Nat.two_pos (Nat.succ.inj heq)))
      rw [Function.update_of_ne hhash, Function.update_of_ne (tlbWord_ne hi hslot hne),
        Function.update_of_ne (tlbWord_ne hi (by omega) (by rw [askingSlot]; omega)),
        Function.update_of_ne (hword hi)]
      exact hcpu.func i
  case index =>
    exact Or.inr ⟨(hbelow (by decide)).trans (Function.update_self _ _ _), rfl⟩

theorem resolveAsked_resolves :
    ResolvesFunc .lp64 askingLayout.toPlaces askingEnv resolveAsked where
  sp := fun c => resolveAsked_regs c (by decide)
  saved := fun c r hr => resolveAsked_regs c (by
    have hne : ∀ r ∈ Rv.abi.calleeSaved, r ≠ Rv.a 0 := by decide
    exact hne r hr)
  frame := fun c i _ h => resolveAsked_mem c (le_trans (by decide) (asking_scratch h))
  outside := fun c a ha => resolveAsked_mem c (Nat.not_lt.mp ha)
  resolves := by
    intro c cpu cpu' func hcpu _ _ hres
    have hobjects : cpu.objects = rtldEmpty ∨ cpu.objects = answerIndex :=
      hcpu.index.imp And.right And.right
    obtain ⟨objects, hr, ⟨htrace, -⟩ | ⟨-, hcpu'⟩⟩ := resolveFunc_cases hres
    · cases htrace
    obtain ⟨hnew, hfound⟩ := askingEnv_resolves hobjects hr
    rw [hcpu', hnew]
    exact ⟨resolveAsked_ret hfound, resolveAsked_cpuAt hcpu hfound⟩

theorem asking_entered :
    Entered askingGuest selfLoopReturns 0x401000#64 CpuState.init selfLoopThread where
  cpuAt :=
    { self := by decide
      addr := fun i => selfLoopThread_tlb (by omega)
      func := fun i => selfLoopThread_tlb (by omega)
      index := Or.inl ⟨by decide, rfl⟩ }
  sptr := by decide
  holds := show selfLoopThread.regs (Rv.a 2) = 0x401000#64 by decide
  slot := fun _ => by decide
  sp := by decide
  returnAddr := by decide

/-- The state after the first dispatch. -/
def askedCpu : CpuState :=
  ⟨Function.update CpuState.init.quickTlb (quickTlbHash 0x401000#64)
    (0x401000#64, 0x400000002000#64), answerIndex⟩

/-- The first dispatch asks the translator. -/
theorem asking_dispatch :
    dispatchCdecl askingEnv CpuState.init 0x401000#64 = some (0x400000002000#64, askedCpu) := by
  have hmiss : ¬ quickHit CpuState.init 0x401000#64 := by decide
  rw [dispatchCdecl, if_neg hmiss, resolveFunc]
  simp only [show CpuState.init.objects = rtldEmpty from rfl, askingEnv_first]
  rfl

/-- The second one hits the quick TLB. -/
theorem asked_dispatch :
    dispatchCdecl askingEnv askedCpu 0x401000#64 = some (0x400000002000#64, askedCpu) := by
  have hslot : askedCpu.quickTlb (quickTlbHash 0x401000#64) = (0x401000#64, 0x400000002000#64) := by
    simp only [askedCpu, Function.update_self]
  have hhit : quickHit askedCpu 0x401000#64 := congrArg Prod.fst hslot
  rw [dispatchCdecl, if_pos hhit, hslot]

theorem asking_cdecl :
    cdeclLoop askingGuest.pc (fun _ t => (id t.1, t.2)) [askingEnv, askingEnv]
      (0x401000#64, CpuState.init) =
        some ([0x400000002000#64, 0x400000002000#64], (0x401000#64, askedCpu)) := by
  simp only [cdeclLoop, askingGuest, id, asking_dispatch, asked_dispatch, bind, Option.bind]
  rfl

theorem machine_runs_guest_asking :
    rtldResolve CpuState.init.objects 0x401000#64 = .error .ENOENT ∧
    (hotLoop selfLoopReturns .lp64 (fun _ m => (.dispatches, m)) [resolveAsked, resolveAsked]
      (.dispatches, selfLoopThread)).1 = [0x400000002000#64, 0x400000002000#64] :=
  ⟨indexRep_empty.resolve _,
    (machine_runs_guest askingGuest selfLoopReturns
      (fun addr func => addr = 0x401000#64 ∧ func = 0x400000002000#64) id
      (fun _ m => (.dispatches, m)) (fun _ _ _ _ h _ => h)
      [(askingEnv, resolveAsked), (askingEnv, resolveAsked)]
      (by simpa using ⟨resolveAsked_resolves, riscvElf, riscvArena, askingEnv_answersCorrectly⟩)
      0x401000#64 CpuState.init tlbInv_init
      (fun addr func h => by cases (indexRep_empty.resolve addr).symm.trans h)
      (.dispatches, selfLoopThread) asking_entered
      (fun k _ => by rw [Function.iterate_id]; decide) _ _ asking_cdecl
      (by simp [LoopReturns.Is, selfLoopReturns])).1⟩

end Asking

/-! ## What the translator is asked -/

/-- The address of a resolution: the patch data's, if there is any. -/
def resolvedAddr (addr : Word) : Option RtldPatchData → Word
  | some p => p.symAddr
  | none => addr

theorem resolveFunc_resolvedAddr (env : CallEnv) (cpu : CpuState) (addr : Word)
    (patchData : Option RtldPatchData) :
    resolveFunc env cpu addr patchData = resolveFunc env cpu (resolvedAddr addr patchData) none := by
  cases patchData with
  | none => rfl
  | some p => rfl

/-- The address that a full resolution asks the translator for, if it does. -/
def resolveAsks (cpu : CpuState) (addr : Word) : List Word :=
  match rtldResolve cpu.objects addr with
  | .ok _ => []
  | .error _ => [addr]

/-- The requests that `translator_get` sends in one action. -/
def asks (cpu : CpuState) : DispatchAction → List Word
  | .dispatch _ addr => if quickHit cpu addr then [] else resolveAsks cpu addr
  | .resolve _ addr patchData => resolveAsks cpu (resolvedAddr addr patchData)
  | .addObject _ _ _ _ => []

section
variable {env env' : CallEnv} {cpu : CpuState} {addr : Word} {patchData : Option RtldPatchData}

/-- A full resolution does not depend on what the translator has for other addresses. -/
theorem resolveFunc_congr (hload : env'.load = env.load) (htrace : env'.printTrace = env.printTrace)
    (hget : ∀ a ∈ resolveAsks cpu (resolvedAddr addr patchData),
      env'.translatorGet a = env.translatorGet a) :
    resolveFunc env' cpu addr patchData = resolveFunc env cpu addr patchData := by
  have hr : resolveAddr env' cpu.objects (resolvedAddr addr patchData) =
      resolveAddr env cpu.objects (resolvedAddr addr patchData) := by
    rw [resolveAsks] at hget
    rw [resolveAddr, resolveAddr]
    cases hres : rtldResolve cpu.objects (resolvedAddr addr patchData) with
    | ok func => rfl
    | error e =>
        rw [hres] at hget
        rw [hload, hget _ List.mem_cons_self]
  rw [resolveFunc_resolvedAddr env', resolveFunc_resolvedAddr env, resolveFunc, resolveFunc]
  simp only [hr, htrace]

/-- What it asks for it needs: without an answer it fails. -/
theorem resolveFunc_unanswered {e : Errno}
    (hasks : resolvedAddr addr patchData ∈ resolveAsks cpu (resolvedAddr addr patchData))
    (hget : env.translatorGet (resolvedAddr addr patchData) = .error e) :
    resolveFunc env cpu addr patchData = none := by
  have hr : resolveAddr env cpu.objects (resolvedAddr addr patchData) = .error e := by
    rw [resolveAsks] at hasks
    rw [resolveAddr]
    cases hres : rtldResolve cpu.objects (resolvedAddr addr patchData) with
    | ok func =>
        rw [hres] at hasks
        cases hasks
    | error e' => rw [hget]; rfl
  rw [resolveFunc_resolvedAddr, resolveFunc]
  simp only [hr]

/-- Nor does a dispatch, which asks for nothing when the quick TLB hits. -/
theorem dispatchCdecl_congr (hload : env'.load = env.load)
    (htrace : env'.printTrace = env.printTrace)
    (hget : ∀ a ∈ asks cpu (.dispatch env addr), env'.translatorGet a = env.translatorGet a) :
    dispatchCdecl env' cpu addr = dispatchCdecl env cpu addr := by
  rw [dispatchCdecl, dispatchCdecl]
  split_ifs with hhit
  · rfl
  · rw [asks, if_neg hhit] at hget
    exact resolveFunc_congr hload htrace hget

end

/-- The requests of a run, in order. A failed resolution ends the client, so its
request is the last. -/
def asked : CpuState → List DispatchAction → List Word
  | _, [] => []
  | cpu, a :: as =>
      asks cpu a ++ match dispatchStep cpu a with
        | some cpu' => asked cpu' as
        | none => []

/-- The address is in the index. -/
def Known (cpu : CpuState) (addr : Word) : Prop := ∃ func, rtldResolve cpu.objects addr = .ok func

theorem resolveAsks_unknown {cpu : CpuState} {addr a : Word} (h : a ∈ resolveAsks cpu addr) :
    a = addr ∧ ¬ Known cpu a := by
  unfold resolveAsks at h
  cases hres : rtldResolve cpu.objects addr with
  | ok func =>
      rw [hres] at h
      cases h
  | error e =>
      rw [hres, List.mem_singleton] at h
      subst h
      refine ⟨rfl, ?_⟩
      rintro ⟨func, hfunc⟩
      rw [hres] at hfunc
      cases hfunc

/-- A full resolution that does not fail: nothing is forgotten, and what it asked for
is known from then on. -/
theorem resolveFunc_known {env : CallEnv} {cpu cpu' : CpuState} {addr func : Word}
    {patchData : Option RtldPatchData} (hidx : Indexed cpu.objects)
    (h : resolveFunc env cpu addr patchData = some (func, cpu')) :
    (∀ a, Known cpu a → Known cpu' a) ∧ Known cpu' (resolvedAddr addr patchData) := by
  rw [resolveFunc_resolvedAddr] at h
  obtain ⟨objects, hr, hcpu⟩ := resolveFunc_cases h
  have hobjects : cpu'.objects = objects := by
    rcases hcpu with ⟨-, rfl⟩ | ⟨-, rfl⟩
    · rfl
    · rfl
  obtain ⟨-, hfound, hkeep⟩ := resolveAddr_spec hidx hr
  rw [← hobjects] at hfound hkeep
  refine ⟨?_, func, hfound⟩
  rintro a ⟨f, hf⟩
  exact ⟨f, hkeep a f hf⟩

theorem asks_unknown {cpu : CpuState} {a : DispatchAction} :
    ∀ addr ∈ asks cpu a, ¬ Known cpu addr := by
  intro addr haddr
  cases a with
  | dispatch env addr' =>
      rw [asks] at haddr
      split_ifs at haddr
      · cases haddr
      · exact (resolveAsks_unknown haddr).2
  | resolve env addr' patchData => exact (resolveAsks_unknown haddr).2
  | addObject env obj objBase skew => cases haddr

theorem asks_nodup (cpu : CpuState) (a : DispatchAction) : (asks cpu a).Nodup := by
  have hresolve : ∀ addr, (resolveAsks cpu addr).Nodup := by
    intro addr
    unfold resolveAsks
    split
    · exact List.nodup_nil
    · exact List.nodup_singleton _
  cases a with
  | dispatch env addr =>
      rw [asks]
      split_ifs
      · exact List.nodup_nil
      · exact hresolve addr
  | resolve env addr patchData => exact hresolve _
  | addObject env obj objBase skew => exact List.nodup_nil

/-- What an action asks for is known after it, and nothing is forgotten. -/
theorem dispatchStep_known {cpu cpu' : CpuState} {a : DispatchAction} (hinv : TlbInv cpu)
    (h : dispatchStep cpu a = some cpu') :
    (∀ addr, Known cpu addr → Known cpu' addr) ∧ ∀ addr ∈ asks cpu a, Known cpu' addr := by
  cases a with
  | dispatch env addr =>
      obtain ⟨⟨func, c⟩, hd, rfl⟩ := Option.map_eq_some_iff.mp h
      by_cases hhit : quickHit cpu addr
      · obtain ⟨-, hcpu⟩ := dispatchCdecl_hit hd hhit
        simp only [hcpu, asks, if_pos hhit]
        exact ⟨fun _ hk => hk, fun _ hnil => absurd hnil List.not_mem_nil⟩
      · rw [dispatchCdecl, if_neg hhit] at hd
        obtain ⟨hkeep, hknown⟩ := resolveFunc_known hinv.indexed hd
        refine ⟨hkeep, fun x hx => ?_⟩
        rw [asks, if_neg hhit] at hx
        rw [(resolveAsks_unknown hx).1]
        exact hknown
  | resolve env addr patchData =>
      obtain ⟨⟨func, c⟩, hd, rfl⟩ := Option.map_eq_some_iff.mp h
      obtain ⟨hkeep, hknown⟩ := resolveFunc_known hinv.indexed hd
      refine ⟨hkeep, fun x hx => ?_⟩
      rw [(resolveAsks_unknown hx).1]
      exact hknown
  | addObject env obj objBase skew =>
      cases h
      refine ⟨?_, fun _ hnil => absurd hnil List.not_mem_nil⟩
      rintro addr ⟨func, hfunc⟩
      exact ⟨func, addObject_resolve hinv.indexed hfunc⟩

/-- From a state of a run on, no known address is asked for and none twice. -/
theorem asked_nodup (actions : List DispatchAction) : ∀ (cpu : CpuState), TlbInv cpu →
    (asked cpu actions).Nodup ∧ ∀ addr ∈ asked cpu actions, ¬ Known cpu addr := by
  induction actions with
  | nil => exact fun _ _ => ⟨List.nodup_nil, fun _ h => absurd h List.not_mem_nil⟩
  | cons a as ih =>
      intro cpu hinv
      cases hstep : dispatchStep cpu a with
      | none =>
          simp only [asked, hstep, List.append_nil]
          exact ⟨asks_nodup cpu a, asks_unknown⟩
      | some cpu' =>
          obtain ⟨hkeep, hknown⟩ := dispatchStep_known hinv hstep
          obtain ⟨hnodup, hunknown⟩ := ih cpu' (dispatchStep_inv cpu a cpu' hinv hstep)
          simp only [asked, hstep]
          constructor
          · refine List.Nodup.append (asks_nodup cpu a) hnodup ?_
            intro addr hnow hlater
            exact hunknown addr hlater (hknown addr hnow)
          · intro addr haddr
            rcases List.mem_append.mp haddr with hnow | hlater
            · exact asks_unknown addr hnow
            · exact fun hk => hunknown addr hlater (hkeep addr hk)

/-- **The translator is asked once.** In every run of a thread from the zeroed state,
with objects loaded at any time, full resolutions through patch stubs and a quick TLB
that may or may not be filled, no address is requested from the translator a second
time. -/
theorem translator_asked_once (actions : List DispatchAction) :
    (asked CpuState.init actions).Nodup :=
  (asked_nodup actions CpuState.init tlbInv_init).1

end Instrew.Client
