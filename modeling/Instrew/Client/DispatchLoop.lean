import Instrew.Client.FullDispatch
import Instrew.Server.CallConv

/-!
# Entering the dispatch loops

The loop function of each fast convention, from its entry with a pointer to
`regdata` up to the jump to the first translated function. Each loads guest
registers into argument registers and dispatches, through the quick TLB where the
first dispatch looks there, and through the full-resolve code otherwise.
-/

namespace Instrew.Client

open Instrew.Lib.Asm
open Instrew.Server (emX86_64 emAarch64 emRiscv)

/-- `((1 << QUICK_TLB_BITS) - 1) << QUICK_TLB_BITOFF` -/
def quickTlbMask : Word := 0x3ff0#64

/-- `-CPU_STATE_REGDATA_OFFSET + CPU_STATE_QTLB_OFFSET` -/
def quickTlbOffset : Word := 0x400#64

/-- The byte offset of the `w`-th word of `regdata`. -/
def wordOff (w : Nat) : Word := BitVec.ofNat 64 (8 * w)

/-- Load words of `regdata`, which `b` points to. -/
def loadWords (b : HostReg) (l : List (HostReg × Nat)) : List (Instr HostReg) :=
  restoreAll b (l.map (fun p => (p.1, wordOff p.2)))

/-! ## The loop functions

`ret` stands for the return addresses that the loops leave for the function they
call. -/

section
variable (ret : Word)

namespace X86

/-- `call` of a local function, on its way to the function's code. -/
def callTo (f : Code HostReg) : Code HostReg :=
  .line [.addi rsp rsp (-8#64), .sdi ret rsp 0#64] f

/-- The x86-64 loops load their words and jump past the quick TLB to a full resolve
at first. -/
def loop (sptr patchData : HostReg) (l : List (HostReg × Nat)) (full : Code HostReg) :
    Code HostReg :=
  .line (.mov sptr rdi :: loadWords sptr l) (.line [.li patchData 0#64] (callTo ret full))

def hhvmLoads : List (HostReg × Nat) :=
  [(rbx, 0), (rax, 1), (rcx, 2), (rdx, 3), (rbp, 4), (r15, 5), (r13, 6), (rsi, 7), (rdi, 8),
    (r8, 9), (r9, 10), (r10, 11), (r11, 12)]

def dispatchHhvm : Code HostReg := loop ret r12 r14 hhvmLoads dispatchHhvmFullresolve

def regcallLoads : List (HostReg × Nat) :=
  [(rcx, 0), (rdx, 1), (rdi, 2), (rsi, 3), (r8, 4), (r9, 5), (r12, 7), (r13, 8), (r14, 9), (r15, 10)]

def dispatchRegcall : Code HostReg := loop ret rax r10 regcallLoads dispatchRegcallFullresolve

end X86

namespace A64

def otherLoads : List (HostReg × Nat) :=
  [(x 1, 1), (x 2, 2), (x 3, 3), (x 4, 4), (x 5, 5), (x 6, 7), (x 7, 8)]

def loads : List (HostReg × Nat) := (x 0, 0) :: otherLoads

def quickTlb : List (Instr HostReg) :=
  [.addi (x 17) (x 20) quickTlbOffset, .andi (x 16) (x 0) quickTlbMask, .add (x 17) (x 17) (x 16),
    .ld (x 16) (x 17) 0#64, .ld (x 17) (x 17) 8#64]

def dispatchAapcsxLoop : Code HostReg :=
  .line (.mov (x 20) (x 0) :: .ld (x 0) (x 0) 0#64 :: loadWords (x 20) otherLoads)
    (.line quickTlb
      (.ifEq (x 16) (x 0) (.line [.li (x 30) ret] (.jump (x 17)))
        (.line [.li (x 16) 0#64, .li (x 30) ret] dispatchAapcsxFullresolve)))

end A64

namespace Rv

/-- The words of `regdata` that `dispatch_lp64_loop` passes on, by the guest's
architecture. -/
def words (guestArch : Nat) : List Nat :=
  if guestArch = emX86_64 then [0, 1, 2, 3, 4, 5]
  else if guestArch = emRiscv then [0, 11, 12, 13, 14, 15]
  else if guestArch = emAarch64 then [0, 2, 3, 4, 5, 6]
  else [0, 0, 0, 0, 0, 0]

def loads (guestArch : Nat) : List (HostReg × Nat) :=
  [a 2, a 3, a 4, a 5, a 6, a 7].zip (words guestArch)

def quickTlb : List (Instr HostReg) :=
  [.li t3 quickTlbMask, .and t0 (a 2) t3, .add t0 (a 1) t0, .li t3 quickTlbOffset, .add t0 t0 t3,
    .ld t1 t0 0#64, .ld t2 t0 8#64]

def dispatchLp64Hot : Code HostReg :=
  .line [.addi sp sp (-16#64), .sd ra sp 0#64, .sd s0 sp 8#64, .mov s0 (a 0)]
    (.line quickTlb
      (.ifEq t1 (a 2) (.line [.li ra ret] (.jump t2))
        (.line [.li t6 0#64] (.callLocal ra ret dispatchLp64Fullresolve
          (.line [.li ra ret] (.jump t0))))))

/-- The C function `dispatch_lp64_loop` up to the call of `dispatch_lp64_hot`: it
takes `frame` bytes of stack, with the struct returned to at `sp + slot`. -/
def dispatchLp64Loop (frame slot : Word) (guestArch : Nat) : Code HostReg :=
  .line (.addi sp sp (-frame) :: .mov (a 1) (a 0) :: loadWords (a 1) (loads guestArch))
    (.line [.addi (a 0) sp slot, .li ra ret] (dispatchLp64Hot ret))

end Rv

/-- The `loop_func` of each dispatcher. -/
def Dispatcher.loopFunc (frame slot : Word) (guestArch : Nat) : Dispatcher → Code HostReg
  | .hhvm => X86.dispatchHhvm ret
  | .regcall => X86.dispatchRegcall ret
  | .aapcsx => A64.dispatchAapcsxLoop ret
  | .lp64 => Rv.dispatchLp64Loop ret frame slot guestArch

end

/-- The words that the loop function loads, by register. -/
def Dispatcher.loads (guestArch : Nat) : Dispatcher → List (HostReg × Nat)
  | .hhvm => X86.hhvmLoads
  | .regcall => X86.regcallLoads
  | .aapcsx => A64.loads
  | .lp64 => Rv.loads guestArch

/-- The argument register of a C function: the loop functions get `regdata` in it. -/
def Dispatcher.loopArg : Dispatcher → HostReg
  | .hhvm | .regcall => X86.rdi
  | .aapcsx => A64.x 0
  | .lp64 => Rv.a 0

/-- The `w`-th word of the register file that the loop function is entered with. -/
def Dispatcher.regWord (d : Dispatcher) (m : Machine HostReg) (w : Nat) : Word :=
  m.mem (m.regs d.loopArg + wordOff w)

/-! ## What the loops load -/

variable {callee : Machine HostReg → Machine HostReg} {m : Machine HostReg}

theorem execAll_loadWords {b : HostReg} {l : List (HostReg × Nat)} (hb : b ∉ l.map Prod.fst)
    (hnd : (l.map Prod.fst).Nodup) (m : Machine HostReg) {p : HostReg × Nat} (hp : p ∈ l) :
    (execAll (loadWords b l) m).regs p.1 = m.mem (m.regs b + wordOff p.2) := by
  have hfst : (l.map (fun p => (p.1, wordOff p.2))).map Prod.fst = l.map Prod.fst := by simp
  refine execAll_restoreAll_loads _ m (by rwa [hfst]) (by rwa [hfst]) (p.1, wordOff p.2) ?_
  exact List.mem_map.mpr ⟨p, hp, rfl⟩

section
variable (ret frame slot : Word) (guestArch : Nat)

theorem x86Loop_loads {d : Dispatcher} {l : List (HostReg × Nat)}
    (hb : d.sptr ∉ l.map Prod.fst) (hnd : (l.map Prod.fst).Nodup)
    (hl : ∀ p ∈ l, p.1 ∈ d.kept ∧ p.1 ≠ d.patchDataReg ∧ p.1 ≠ X86.rsp)
    (hk : d.abi.Keeps d.frame callee) :
    ∀ p ∈ l, ((X86.loop ret d.sptr d.patchDataReg l d.fullDispatchFunc).exec
      callee m).machine.regs p.1 = m.mem (m.regs X86.rdi + wordOff p.2) := by
  intro p hp
  obtain ⟨hkept, hpd, hsp⟩ := hl p hp
  let loaded := execAll (.mov d.sptr X86.rdi :: loadWords d.sptr l) m
  let is : List (Instr HostReg) :=
    [.li d.patchDataReg 0#64, .addi X86.rsp X86.rsp (-8#64), .sdi ret X86.rsp 0#64]
  have hdest : ∀ i ∈ is, i.dest ≠ some p.1 := by simp [is, Instr.dest, Ne.symm hpd, Ne.symm hsp]
  have hloaded : loaded.regs p.1 = m.mem (m.regs X86.rdi + wordOff p.2) := by
    simp only [loaded, execAll_cons]
    rw [execAll_loadWords hb hnd _ hp, Instr.exec, setReg_regs, Function.update_self, setReg_mem]
  obtain ⟨c, hc⟩ := fullDispatchFunc_resolves (m := execAll is loaded) d hk
  calc ((X86.loop ret d.sptr d.patchDataReg l d.fullDispatchFunc).exec callee m).machine.regs p.1
      = (d.fullDispatchFunc.exec callee (execAll is loaded)).machine.regs p.1 := rfl
    _ = (execAll is loaded).regs p.1 := hc.kept p.1 hkept
    _ = loaded.regs p.1 := execAll_regs_of_dest is loaded hdest
    _ = m.mem (m.regs X86.rdi + wordOff p.2) := hloaded

/-- The AArch64 loop loads the guest PC from `x0`, the others from `x20`. -/
theorem A64.execAll_loads : ∀ p ∈ A64.loads,
    (execAll (.mov (A64.x 20) (A64.x 0) :: .ld (A64.x 0) (A64.x 0) 0#64 ::
      loadWords (A64.x 20) A64.otherLoads) m).regs p.1 =
        m.mem (m.regs (A64.x 0) + wordOff p.2) := by
  intro p hp
  rw [execAll_cons, execAll_cons]
  rcases List.mem_cons.mp hp with rfl | hother
  · rw [loadWords, execAll_restoreAll_other _ _ _ (by decide)]
    simp only [Instr.exec, setReg_regs, setReg_mem, Function.update_self]
    rw [Function.update_of_ne (by decide)]
    rfl
  · rw [execAll_loadWords (b := A64.x 20) (l := A64.otherLoads) (by decide) (by decide) _ hother]
    simp only [Instr.exec, setReg_regs, setReg_mem]
    rw [Function.update_of_ne (by decide), Function.update_self]

theorem dispatchAapcsxLoop_loads (hk : A64.abi.Keeps 86 callee) :
    ∀ p ∈ A64.loads, ((A64.dispatchAapcsxLoop ret).exec callee m).machine.regs p.1 =
      m.mem (m.regs (A64.x 0) + wordOff p.2) := by
  intro p hp
  set loaded := execAll (.mov (A64.x 20) (A64.x 0) :: .ld (A64.x 0) (A64.x 0) 0#64 ::
    loadWords (A64.x 20) A64.otherLoads) m with hloaded
  have hkept : ∀ p ∈ A64.loads, p.1 ∈ Dispatcher.aapcsx.kept := by decide
  have htlb : ∀ p ∈ A64.loads, ∀ i ∈ A64.quickTlb, i.dest ≠ some p.1 := by decide
  -- Neither way out of the quick TLB writes a register that has been loaded.
  have hhit : ∀ p ∈ A64.loads, ∀ i ∈ ([.li (A64.x 30) ret] : List (Instr HostReg)),
      i.dest ≠ some p.1 := of_decide_eq_true rfl
  have hmiss : ∀ p ∈ A64.loads, ∀ i ∈ ([.li (A64.x 16) 0#64, .li (A64.x 30) ret] :
      List (Instr HostReg)), i.dest ≠ some p.1 := of_decide_eq_true rfl
  have hbefore : (execAll A64.quickTlb loaded).regs p.1 = m.mem (m.regs (A64.x 0) + wordOff p.2) := by
    rw [execAll_regs_of_dest _ _ (htlb p hp), hloaded, A64.execAll_loads p hp]
  simp only [A64.dispatchAapcsxLoop, Code.exec, ← hloaded]
  split
  · rw [execAll_regs_of_dest _ _ (hhit p hp), hbefore]
  · obtain ⟨c, hc⟩ := fullDispatchFunc_resolves (m := execAll [.li (A64.x 16) 0#64,
      .li (A64.x 30) ret] (execAll A64.quickTlb loaded)) .aapcsx hk
    exact (hc.kept p.1 (hkept p hp)).trans
      ((execAll_regs_of_dest _ _ (hmiss p hp)).trans hbefore)

/-- Every word list of the RISC-V loop has one word for each of `a2` to `a7`. -/
theorem Rv.loads_regs : (Rv.loads guestArch).map Prod.fst =
    [Rv.a 2, Rv.a 3, Rv.a 4, Rv.a 5, Rv.a 6, Rv.a 7] := by
  unfold Rv.loads Rv.words
  split_ifs <;> rfl

theorem dispatchLp64Hot_kept (hk : Rv.abi.Keeps 10 callee) :
    ∀ r ∈ [Rv.a 2, Rv.a 3, Rv.a 4, Rv.a 5, Rv.a 6, Rv.a 7],
      ((Rv.dispatchLp64Hot ret).exec callee m).machine.regs r = m.regs r := by
  intro r hr
  have hkept : ∀ r ∈ [Rv.a 2, Rv.a 3, Rv.a 4, Rv.a 5, Rv.a 6, Rv.a 7],
    r ∈ Dispatcher.lp64.kept ∧ r ≠ Rv.ra ∧ r ≠ Rv.t6 := by decide
  obtain ⟨hk1, hra, ht6⟩ := hkept r hr
  set entered := execAll [.addi Rv.sp Rv.sp (-16#64), .sd Rv.ra Rv.sp 0#64, .sd Rv.s0 Rv.sp 8#64,
    .mov Rv.s0 (Rv.a 0)] m with hentered
  have hpro : ∀ r ∈ [Rv.a 2, Rv.a 3, Rv.a 4, Rv.a 5, Rv.a 6, Rv.a 7],
      ∀ i ∈ ([.addi Rv.sp Rv.sp (-16#64), .sd Rv.ra Rv.sp 0#64, .sd Rv.s0 Rv.sp 8#64,
        .mov Rv.s0 (Rv.a 0)] : List (Instr HostReg)), i.dest ≠ some r := by decide
  have htlb : ∀ r ∈ [Rv.a 2, Rv.a 3, Rv.a 4, Rv.a 5, Rv.a 6, Rv.a 7],
      ∀ i ∈ Rv.quickTlb, i.dest ≠ some r := by decide
  have hbefore : (execAll Rv.quickTlb entered).regs r = m.regs r := by
    rw [execAll_regs_of_dest _ _ (htlb r hr), hentered, execAll_regs_of_dest _ _ (hpro r hr)]
  simp only [Rv.dispatchLp64Hot, Code.exec, ← hentered]
  split
  · exact (Function.update_of_ne hra _ _).trans hbefore
  · obtain ⟨c, hc⟩ := fullDispatchFunc_resolves (m := (execAll [.li Rv.t6 0#64]
      (execAll Rv.quickTlb entered)).setReg Rv.ra ret) .lp64 hk
    have hrun := hc.kept r hk1
    rw [setReg_regs, Function.update_of_ne hra, execAll_cons, execAll_nil, Instr.exec, setReg_regs,
      Function.update_of_ne ht6, hbefore] at hrun
    split
    · exact (Function.update_of_ne hra _ _).trans hrun
    · exact hrun

theorem dispatchLp64Loop_loads (hk : Rv.abi.Keeps 10 callee) :
    ∀ p ∈ Rv.loads guestArch,
      ((Rv.dispatchLp64Loop ret frame slot guestArch).exec callee m).machine.regs p.1 =
        m.mem (m.regs (Rv.a 0) + wordOff p.2) := by
  intro p hp
  have hregs := Rv.loads_regs guestArch
  have hpr : p.1 ∈ [Rv.a 2, Rv.a 3, Rv.a 4, Rv.a 5, Rv.a 6, Rv.a 7] :=
    hregs ▸ List.mem_map.mpr ⟨p, hp, rfl⟩
  have hcall : ∀ r ∈ [Rv.a 2, Rv.a 3, Rv.a 4, Rv.a 5, Rv.a 6, Rv.a 7],
      ∀ i ∈ ([.addi (Rv.a 0) Rv.sp slot, .li Rv.ra ret] : List (Instr HostReg)),
        i.dest ≠ some r := of_decide_eq_true rfl
  rw [Rv.dispatchLp64Loop, Code.exec, Code.exec, dispatchLp64Hot_kept ret hk p.1 hpr,
    execAll_regs_of_dest _ _ (hcall p.1 hpr), execAll_cons, execAll_cons,
    execAll_loadWords (by rw [hregs]; decide) (by rw [hregs]; decide) _ hp]
  simp only [Instr.exec, setReg_regs, setReg_mem, Function.update_self]
  rw [Function.update_of_ne (by decide)]

/-- **The loops load what their tables say.** Whichever way the first dispatch goes,
the first translated function finds in each argument register the word of the
register file that the loop function loads there. -/
theorem loopFunc_loads (d : Dispatcher) (hk : d.abi.Keeps d.frame callee) :
    ∀ p ∈ d.loads guestArch,
      ((d.loopFunc ret frame slot guestArch).exec callee m).machine.regs p.1 = d.regWord m p.2 := by
  cases d <;>
    simp only [Dispatcher.loads, Dispatcher.loopFunc, Dispatcher.regWord, Dispatcher.loopArg]
  case hhvm =>
    exact x86Loop_loads (d := .hhvm) (l := X86.hhvmLoads) ret (by decide) (by decide) (by decide) hk
  case regcall =>
    exact x86Loop_loads (d := .regcall) (l := X86.regcallLoads) ret (by decide) (by decide)
      (by decide) hk
  case aapcsx => exact dispatchAapcsxLoop_loads ret hk
  case lp64 => exact dispatchLp64Loop_loads ret frame slot guestArch hk

end

end Instrew.Client
