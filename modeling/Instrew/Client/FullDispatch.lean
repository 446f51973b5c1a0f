import Instrew.Lib.Asm

/-!
# The full-resolve dispatchers

The hand-written code of `dispatch.c` that a patch stub jumps to when a direct call
is not linked yet: save the registers, call `resolve_func(cpu_state, addr,
patch_data)`, restore, and go on to the function it returned. There is one for
each fast calling convention of the client.

Registers are named by their hardware numbers, as `patch_data_reg` names them; the
64-bit halves of the AArch64 vector registers come after them.
-/

namespace Instrew.Client

open Instrew.Lib.Asm

abbrev HostReg : Type := Nat

namespace X86

abbrev rax : HostReg := 0
abbrev rcx : HostReg := 1
abbrev rdx : HostReg := 2
abbrev rbx : HostReg := 3
abbrev rsp : HostReg := 4
abbrev rbp : HostReg := 5
abbrev rsi : HostReg := 6
abbrev rdi : HostReg := 7
abbrev r8 : HostReg := 8
abbrev r9 : HostReg := 9
abbrev r10 : HostReg := 10
abbrev r11 : HostReg := 11
abbrev r12 : HostReg := 12
abbrev r13 : HostReg := 13
abbrev r14 : HostReg := 14
abbrev r15 : HostReg := 15

def abi : Abi HostReg := ⟨rsp, rax, [rbx, rbp, r12, r13, r14, r15]⟩

end X86

namespace A64

abbrev x (n : Nat) : HostReg := n
abbrev sp : HostReg := 31
abbrev qlo (n : Nat) : HostReg := 32 + 2 * n
abbrev qhi (n : Nat) : HostReg := 33 + 2 * n

def abi : Abi HostReg := ⟨sp, x 0, [x 19, x 20, x 21, x 22, x 23, x 24, x 25, x 26, x 27, x 28, x 29]⟩

/-- The cells of `stp xA, xB, [sp, off]`. -/
def pairX (a b : Nat) (off : Word) : List (HostReg × Word) := [(x a, off), (x b, off + 8#64)]

/-- The cells of `stp qA, qB, [sp, off]`. -/
def pairQ (a b : Nat) (off : Word) : List (HostReg × Word) :=
  [(qlo a, off), (qhi a, off + 8#64), (qlo b, off + 16#64), (qhi b, off + 24#64)]

end A64

namespace Rv

abbrev ra : HostReg := 1
abbrev sp : HostReg := 2
abbrev t0 : HostReg := 5
abbrev t1 : HostReg := 6
abbrev t2 : HostReg := 7
abbrev s0 : HostReg := 8
abbrev a (n : Nat) : HostReg := 10 + n
abbrev t3 : HostReg := 28
abbrev t6 : HostReg := 31

def abi : Abi HostReg := ⟨sp, a 0, [s0, 9, 18, 19, 20, 21, 22, 23, 24, 25, 26, 27]⟩

end Rv

def cpuStateRegdataOffset : Word := 0x40#64

/-! ## The four dispatchers

Each puts the arguments `cpu_state`, `addr` and `patch_data` of `resolve_func` in
place between saving its registers and the call. -/

def x86Setup (sptr pc patchData : HostReg) : List (Instr HostReg) :=
  [.ld X86.rdi sptr (-cpuStateRegdataOffset), .mov X86.rsi pc, .mov X86.rdx patchData]

/-- The x86-64 dispatchers differ in the registers they save and in where the
convention has the state pointer, the guest PC and the patch data. -/
def x86Fullresolve (saved : List HostReg) (sptr pc patchData : HostReg) : Code HostReg :=
  pushedCall X86.abi saved (x86Setup sptr pc patchData) patchData

namespace X86

def hhvmSaved : List HostReg := [rax, rcx, rdx, rsi, rdi, r8, r9, r10, r11]

def dispatchHhvmFullresolve : Code HostReg := x86Fullresolve hhvmSaved r12 rbx r14

def regcallSaved : List HostReg := [rax, rcx, rdx, rsi, rdi, r8, r9]

def dispatchRegcallFullresolve : Code HostReg := x86Fullresolve regcallSaved rax rcx r10

end X86

namespace A64

/-- The save area of the AArch64 dispatcher; `q6` and `q7` are saved twice. -/
def slots : List (HostReg × Word) :=
  pairX 18 30 0x0#64 ++ pairX 0 1 0x10#64 ++ pairX 2 3 0x20#64 ++ pairX 4 5 0x30#64 ++
  pairX 6 7 0x40#64 ++ pairX 8 9 0x50#64 ++ pairX 10 11 0x60#64 ++ pairX 12 13 0x70#64 ++
  pairX 14 15 0x80#64 ++
  pairQ 0 1 0x90#64 ++ pairQ 2 3 0xb0#64 ++ pairQ 4 5 0xd0#64 ++ pairQ 6 7 0xf0#64 ++
  pairQ 6 7 0x110#64 ++ pairQ 8 9 0x130#64 ++ pairQ 10 11 0x150#64 ++ pairQ 12 13 0x170#64 ++
  pairQ 14 15 0x190#64 ++ pairQ 16 17 0x1b0#64 ++ pairQ 18 19 0x1d0#64 ++ pairQ 20 21 0x1f0#64 ++
  pairQ 22 23 0x210#64 ++ pairQ 24 25 0x230#64 ++ pairQ 26 27 0x250#64 ++ pairQ 28 29 0x270#64 ++
  pairQ 30 31 0x290#64

def setup : List (Instr HostReg) :=
  [.mov (x 1) (x 0), .addi (x 0) (x 20) (-cpuStateRegdataOffset), .mov (x 2) (x 16)]

def dispatchAapcsxFullresolve : Code HostReg := framedCall abi 0x2b0#64 slots setup (x 16) (x 16)

end A64

namespace Rv

def slots : List (HostReg × Word) :=
  [(ra, 0#64), (a 0, 8#64), (a 1, 16#64), (a 2, 24#64), (a 3, 32#64), (a 4, 40#64), (a 5, 48#64),
    (a 6, 56#64), (a 7, 64#64), (t6, 72#64)]

def setup : List (Instr HostReg) :=
  [.addi (a 0) (a 1) (-cpuStateRegdataOffset), .mov (a 1) (a 2), .mov (a 2) t6]

/-- Unlike the others, this dispatcher leaves by `ret`: it jumps to `ra`, with the
resolved function in `t0`. -/
def dispatchLp64Fullresolve : Code HostReg := framedCall abi 80#64 slots setup t0 ra

end Rv

/-- The fast entries of `dispatch_get`. -/
inductive Dispatcher : Type where
  | hhvm
  | regcall
  | aapcsx
  | lp64
  deriving DecidableEq

namespace Dispatcher

def abi : Dispatcher → Abi HostReg
  | .hhvm | .regcall => X86.abi
  | .aapcsx => A64.abi
  | .lp64 => Rv.abi

def fullDispatchFunc : Dispatcher → Code HostReg
  | .hhvm => X86.dispatchHhvmFullresolve
  | .regcall => X86.dispatchRegcallFullresolve
  | .aapcsx => A64.dispatchAapcsxFullresolve
  | .lp64 => Rv.dispatchLp64Fullresolve

def patchDataReg : Dispatcher → HostReg
  | .hhvm => 14
  | .regcall => 10
  | .aapcsx => 16
  | .lp64 => 31

/-- The register of the state pointer in the convention. -/
def sptr : Dispatcher → HostReg
  | .hhvm => X86.r12
  | .regcall => X86.rax
  | .aapcsx => A64.x 20
  | .lp64 => Rv.a 1

/-- The registers that carry guest registers, the guest PC first. -/
def guestRegs : Dispatcher → List HostReg
  | .hhvm => [X86.rbx, X86.rbp, X86.r15, X86.rdi, X86.rsi, X86.rdx, X86.rcx, X86.r8, X86.r9,
      X86.rax, X86.r10, X86.r11, X86.r13]
  | .regcall => [X86.rcx, X86.rdx, X86.rdi, X86.rsi, X86.r8, X86.r9, X86.r12, X86.r13, X86.r14,
      X86.r15]
  | .aapcsx => [A64.x 0, A64.x 1, A64.x 2, A64.x 3, A64.x 4, A64.x 5, A64.x 6, A64.x 7]
  | .lp64 => [Rv.a 2, Rv.a 3, Rv.a 4, Rv.a 5, Rv.a 6, Rv.a 7]

/-- What a callee of translated code finds in registers: guest registers, the
state pointer and, on RISC-V, the pointer to the returned struct. -/
def kept (d : Dispatcher) : List HostReg :=
  d.sptr :: (match d with | .lp64 => [Rv.a 0] | _ => []) ++ d.guestRegs

/-- The link register of the host, where it has one. -/
def linkRegs : Dispatcher → List HostReg
  | .hhvm | .regcall => []
  | .aapcsx => [A64.x 30]
  | .lp64 => [Rv.ra]

/-- Where the return address of translated code is. -/
def returnAddr (m : Machine HostReg) : Dispatcher → Word
  | .hhvm | .regcall => m.mem (m.regs X86.rsp)
  | .aapcsx => m.regs (A64.x 30)
  | .lp64 => m.regs Rv.ra

theorem returnAddr_aapcsx (m : Machine HostReg) :
    Dispatcher.aapcsx.returnAddr m = m.regs (A64.x 30) := rfl

/-- The first and third argument registers of the host's C convention. -/
def argRegs : Dispatcher → HostReg × HostReg
  | .hhvm | .regcall => (X86.rdi, X86.rdx)
  | .aapcsx => (A64.x 0, A64.x 2)
  | .lp64 => (Rv.a 0, Rv.a 2)

/-- Words of stack from the stack pointer at the call of `resolve_func` on that
belong to the dispatcher; on x86-64 the return address is the last. -/
def frame : Dispatcher → Nat
  | .hhvm => 10
  | .regcall => 8
  | .aapcsx => 86
  | .lp64 => 10

end Dispatcher

/-! ## The patch stub -/

/-- The stub of `rtld_patch_create_stub` at `stub`, and the PLT entry it jumps to:
the patch data follows the 16 bytes of code, and `full` is the address of the
dispatcher that the PLT entry loads. On RISC-V the stub's own jump goes through
`t0` too, at a page `hi`. -/
def stubCode (stub full hi : Word) (d : Dispatcher) : List (Instr HostReg) :=
  match d with
  | .hhvm | .regcall => [.li d.patchDataReg (stub + 16#64)]
  | .aapcsx => [.li d.patchDataReg (stub + 16#64), .li (A64.x 17) full]
  | .lp64 =>
      [.li d.patchDataReg stub, .addi d.patchDataReg d.patchDataReg 16#64, .li Rv.t0 hi,
        .li Rv.t0 full]

def patchStub (stub full hi : Word) (d : Dispatcher) : Code HostReg :=
  .line (stubCode stub full hi d) d.fullDispatchFunc

/-- Entering `e` from the machine `m` ran the callee: one call
`resolve_func(cpu_state, _, p)`, then a jump to the function it returned, with what
a callee of translated code relies on unchanged. -/
structure RunsCallee (d : Dispatcher) (callee : Machine HostReg → Machine HostReg) (p : Word)
    (m : Machine HostReg) (e : Exit HostReg) : Prop where
  resolves : ∃ c, e.calls = [c] ∧ c.regs d.argRegs.1 = m.regs d.sptr - cpuStateRegdataOffset ∧
    c.regs d.argRegs.2 = p ∧ e.target = (callee c).regs d.abi.ret
  kept : ∀ r ∈ d.kept, e.machine.regs r = m.regs r
  sp : e.machine.regs d.abi.sp = m.regs d.abi.sp
  returnAddr : d.returnAddr e.machine = d.returnAddr m

/-- The CPU state as the dispatcher finds it: its first word points to itself, and
it does not lie in the stack below the stack pointer. -/
structure CpuStateInPlace (d : Dispatcher) (m : Machine HostReg) : Prop where
  self : m.mem (m.regs d.sptr - cpuStateRegdataOffset) = m.regs d.sptr - cpuStateRegdataOffset
  apart : ∀ i < d.frame, m.regs d.sptr - cpuStateRegdataOffset ≠ below (m.regs d.abi.sp) (i + 1)

/-! ## What each dispatcher does -/

/-- The machine in which the dispatcher calls `resolve_func`, and what is left of
the machine `m` afterwards. -/
structure Resolves (d : Dispatcher) (callee : Machine HostReg → Machine HostReg)
    (m : Machine HostReg) (result : HostReg) (e : Exit HostReg) (c : Machine HostReg) : Prop where
  calls : e.calls = [c]
  cpuState : CpuStateInPlace d m → c.regs d.argRegs.1 = m.regs d.sptr - cpuStateRegdataOffset
  patchData : c.regs d.argRegs.2 = m.regs d.patchDataReg
  result : e.machine.regs result = (callee c).regs d.abi.ret
  kept : ∀ r ∈ d.kept, e.machine.regs r = m.regs r
  sp : e.machine.regs d.abi.sp = m.regs d.abi.sp
  returnAddr : d.returnAddr e.machine = d.returnAddr m

variable {callee : Machine HostReg → Machine HostReg} {m : Machine HostReg}

/-- The x86-64 registers at the call of `resolve_func`. -/
theorem x86_call_regs {saved : List HostReg} {sptr pc patchData : HostReg}
    (hsp : X86.rsp ∉ saved) (hsptr : sptr ≠ X86.rsp)
    (hpd : patchData ≠ X86.rsp ∧ patchData ≠ X86.rdi ∧ patchData ≠ X86.rsi) :
    let c := execAll (x86Setup sptr pc patchData) (execAll (pushAll X86.rsp saved) m)
    ((∀ i < saved.length,
        m.regs sptr - cpuStateRegdataOffset ≠ below (m.regs X86.rsp) (i + 1)) →
      c.regs X86.rdi = m.mem (m.regs sptr - cpuStateRegdataOffset)) ∧
    c.regs X86.rdx = m.regs patchData ∧
    ∀ r, r ≠ X86.rdi → r ≠ X86.rsi → r ≠ X86.rdx → r ≠ X86.rsp → c.regs r = m.regs r := by
  have hregs := execAll_pushAll_sp X86.rsp saved m hsp
  refine ⟨fun hapart => ?_, ?_, ?_⟩
  · have hmem := execAll_pushAll_other X86.rsp saved m hsp hapart
    rw [BitVec.sub_eq_add_neg] at hmem
    simp [x86Setup, Instr.exec, hregs, Function.update_of_ne hsptr, hmem, BitVec.sub_eq_add_neg]
  · simp [x86Setup, Instr.exec, hregs, Function.update_of_ne hpd.1, Function.update_of_ne hpd.2.1,
      Function.update_of_ne hpd.2.2]
  · intro r h1 h2 h3 h4
    simp [x86Setup, Instr.exec, hregs, Function.update_of_ne h1, Function.update_of_ne h2,
      Function.update_of_ne h3, Function.update_of_ne h4]

/-- Both x86-64 dispatchers: the side conditions are facts about their registers. -/
theorem x86Fullresolve_resolves {d : Dispatcher} {saved : List HostReg} {pc : HostReg}
    (habi : d.abi = X86.abi) (hargs : d.argRegs = (X86.rdi, X86.rdx))
    (hret : ∀ m, d.returnAddr m = m.mem (m.regs X86.rsp)) (hframe : d.frame = saved.length + 1)
    (hlen : 8 * saved.length < 2 ^ 64) (hsp : X86.rsp ∉ saved) (hsptr : d.sptr ≠ X86.rsp)
    (hpd : d.patchDataReg ≠ X86.rsp ∧ d.patchDataReg ≠ X86.rdi ∧ d.patchDataReg ≠ X86.rsi)
    (hpds : d.patchDataReg ∉ saved)
    (hkept : ∀ r ∈ d.kept, r ∈ saved ∨ (r ∈ X86.abi.calleeSaved ∧ r ≠ d.patchDataReg ∧
      r ≠ X86.rsp ∧ r ≠ X86.rdi ∧ r ≠ X86.rsi ∧ r ≠ X86.rdx))
    (hk : d.abi.Keeps d.frame callee) :
    ∃ c, Resolves d callee m d.patchDataReg
      ((x86Fullresolve saved d.sptr pc d.patchDataReg).exec callee m) c := by
  rw [habi, hframe] at hk
  have hset : RegsOnly X86.rsp (x86Setup d.sptr pc d.patchDataReg) :=
    regsOnly_of_dest (by simp [x86Setup, Instr.dest])
  obtain ⟨hw, htop⟩ := pushedCall_wraps hk hset hsp hpd.1 hlen m
  obtain ⟨hcpu, hpatch, hother⟩ := @x86_call_regs m _ _ pc _ hsp hsptr hpd
  refine ⟨_, hw.calls, fun h => ?_, ?_, ?_, ?_, ?_, ?_⟩
  · have hapart := h.apart
    rw [habi] at hapart
    rw [hargs]
    exact (hcpu (fun i hi => hapart i (by omega))).trans h.self
  · rw [hargs]
    exact hpatch
  · rw [habi]
    exact hw.result hpds
  · intro r hr
    refine hw.kept hk ?_
    rcases hkept r hr with hsaved | ⟨hcs, hne, hrsp, h1, h2, h3⟩
    · exact .inl hsaved
    · exact .inr ⟨hcs, hne, hrsp, hother r h1 h2 h3 hrsp⟩
  · rw [habi]
    exact hw.sp
  · rw [hret, hret]
    exact (congrArg _ hw.sp).trans htop

theorem A64.slots_sp : A64.sp ∉ A64.slots.map Prod.fst := by decide

theorem A64.slots_nodup : (A64.slots.map Prod.snd).Nodup := by decide

theorem A64.slots_inFrame : ∀ p ∈ A64.slots, ∃ i < 86, p.2 = BitVec.ofNat 64 (8 * i) := by
  decide +kernel

theorem Rv.slots_inFrame : ∀ p ∈ Rv.slots, ∃ i < 10, p.2 = BitVec.ofNat 64 (8 * i) := by
  decide

theorem A64.call_regs (m : Machine HostReg) :
    (execAll A64.setup m).regs (A64.x 0) = m.regs (A64.x 20) - cpuStateRegdataOffset ∧
    (execAll A64.setup m).regs (A64.x 2) = m.regs (A64.x 16) := by
  simp only [A64.setup, execAll_cons, execAll_nil, Instr.exec, setReg_regs, Function.update_self,
    BitVec.sub_eq_add_neg]
  refine ⟨?_, ?_⟩
  · rw [Function.update_of_ne (by decide), Function.update_self, Function.update_of_ne (by decide)]
  · rw [Function.update_of_ne (by decide), Function.update_of_ne (by decide)]

theorem Rv.call_regs (m : Machine HostReg) :
    (execAll Rv.setup m).regs (Rv.a 0) = m.regs (Rv.a 1) - cpuStateRegdataOffset ∧
    (execAll Rv.setup m).regs (Rv.a 2) = m.regs Rv.t6 := by
  simp only [Rv.setup, execAll_cons, execAll_nil, Instr.exec, setReg_regs, Function.update_self,
    BitVec.sub_eq_add_neg]
  refine ⟨?_, ?_⟩
  · rw [Function.update_of_ne (by decide), Function.update_of_ne (by decide), Function.update_self]
  · rw [Function.update_of_ne (by decide), Function.update_of_ne (by decide)]

theorem dispatchAapcsxFullresolve_resolves (hk : A64.abi.Keeps 86 callee) :
    ∃ c, Resolves .aapcsx callee m (A64.x 16) (A64.dispatchAapcsxFullresolve.exec callee m) c := by
  have hset : RegsOnly A64.sp A64.setup := regsOnly_of_dest (by decide)
  have hw := @framedCall_wraps _ _ A64.abi callee (A64.x 16) 0x2b0#64 A64.slots A64.setup 86
    (A64.x 16) hk hset A64.slots_sp (by decide) A64.slots_nodup A64.slots_inFrame m
  rw [← A64.dispatchAapcsxFullresolve] at hw
  have hframed := fun r (hr : r ≠ A64.sp) => execAll_frame_regs A64.sp 0x2b0#64 A64.slots m hr
  have hkept : ∀ r ∈ Dispatcher.aapcsx.kept, r ∈ A64.slots.map Prod.fst ∨ r = A64.x 20 := by
    decide
  refine ⟨_, hw.calls, ?_, ?_, hw.result (by decide), ?_, hw.sp, ?_⟩
  · intro _
    exact (A64.call_regs _).1.trans (congrArg (· - _) (hframed _ (by decide)))
  · exact (A64.call_regs _).2.trans (hframed _ (by decide))
  · intro r hr
    refine hw.kept hk ((hkept r hr).imp_right ?_)
    rintro rfl
    refine ⟨by decide, by decide, by decide, ?_⟩
    exact (execAll_regs_of_dest A64.setup _ (by decide)).trans (hframed _ (by decide))
  · rw [Dispatcher.returnAddr_aapcsx, Dispatcher.returnAddr_aapcsx]
    exact hw.saved (A64.x 30) (by decide)

theorem dispatchLp64Fullresolve_resolves (hk : Rv.abi.Keeps 10 callee) :
    ∃ c, Resolves .lp64 callee m Rv.t0 (Rv.dispatchLp64Fullresolve.exec callee m) c := by
  have hset : RegsOnly Rv.sp Rv.setup := regsOnly_of_dest (by decide)
  have hw := @framedCall_wraps _ _ Rv.abi callee Rv.t0 80#64 Rv.slots Rv.setup 10 Rv.ra hk hset
    (by decide) (by decide) (by decide) Rv.slots_inFrame m
  rw [← Rv.dispatchLp64Fullresolve] at hw
  have hframed := fun r (hr : r ≠ Rv.sp) => execAll_frame_regs Rv.sp 80#64 Rv.slots m hr
  have hkept : ∀ r ∈ Dispatcher.lp64.kept, r ∈ Rv.slots.map Prod.fst := by decide
  refine ⟨_, hw.calls, ?_, ?_, hw.result (by decide), fun r hr => hw.saved r (hkept r hr), hw.sp,
    hw.saved Rv.ra (by decide)⟩
  · intro _
    exact (Rv.call_regs _).1.trans (congrArg (· - _) (hframed _ (by decide)))
  · exact (Rv.call_regs _).2.trans (hframed _ (by decide))

/-! ## Entering a dispatcher through a patch stub -/

/-- Each dispatcher calls `resolve_func` once, on the CPU state and the patch data,
and gives back what it must; the result is in `t0` on RISC-V and in the register
of the patch data elsewhere. -/
theorem fullDispatchFunc_resolves (d : Dispatcher) (hk : d.abi.Keeps d.frame callee) :
    ∃ c, Resolves d callee m (if d = .lp64 then Rv.t0 else d.patchDataReg)
      (d.fullDispatchFunc.exec callee m) c := by
  cases d with
  | hhvm =>
      exact x86Fullresolve_resolves rfl rfl (fun _ => rfl) rfl (by decide) (by decide) (by decide)
        (by decide) (by decide) (by decide) hk
  | regcall =>
      exact x86Fullresolve_resolves rfl rfl (fun _ => rfl) rfl (by decide) (by decide) (by decide)
        (by decide) (by decide) (by decide) hk
  | aapcsx => exact dispatchAapcsxFullresolve_resolves hk
  | lp64 => exact dispatchLp64Fullresolve_resolves hk

/-- The register of the jump that leaves the dispatcher. -/
def Dispatcher.leaveReg (d : Dispatcher) : HostReg := if d = .lp64 then Rv.ra else d.patchDataReg

theorem fullDispatchFunc_target (d : Dispatcher) :
    (d.fullDispatchFunc.exec callee m).target =
      (d.fullDispatchFunc.exec callee m).machine.regs d.leaveReg := by
  cases d with
  | hhvm => exact pushedCall_target _ _ _ _ _ _
  | regcall => exact pushedCall_target _ _ _ _ _ _
  | aapcsx => exact framedCall_target _ _ _ _ _ _ _ _
  | lp64 => exact framedCall_target _ _ _ _ _ _ _ _

section
variable (stub full hi : Word)

/-- The stub writes the register of the patch data and scratch registers only. -/
theorem stubCode_regs (d : Dispatcher) :
    ∀ r ∈ d.abi.sp :: d.linkRegs ++ d.kept,
      (execAll (stubCode stub full hi d) m).regs r = m.regs r := by
  intro r hr
  refine execAll_regs_of_dest _ _ ?_
  revert r
  cases d <;> exact of_decide_eq_true rfl

theorem stubCode_mem (d : Dispatcher) : (execAll (stubCode stub full hi d) m).mem = m.mem := by
  refine execAll_mem_of_dest _ _ ?_
  cases d <;> simp [stubCode, Instr.dest]

theorem stubCode_patchData (d : Dispatcher) :
    (execAll (stubCode stub full hi d) m).regs d.patchDataReg = stub + 16#64 := by
  cases d <;> simp [stubCode, Instr.exec, Dispatcher.patchDataReg]

theorem stubCode_returnAddr (d : Dispatcher) :
    d.returnAddr (execAll (stubCode stub full hi d) m) = d.returnAddr m := by
  cases d with
  | hhvm => rfl
  | regcall => rfl
  | aapcsx => exact stubCode_regs stub full hi .aapcsx (A64.x 30) (by decide)
  | lp64 => exact stubCode_regs stub full hi .lp64 Rv.ra (by decide)

theorem stubCode_inPlace {d : Dispatcher} (h : CpuStateInPlace d m) :
    CpuStateInPlace d (execAll (stubCode stub full hi d) m) := by
  have hsptr := stubCode_regs (m := m) stub full hi d d.sptr (by simp [Dispatcher.kept])
  have hsp := stubCode_regs (m := m) stub full hi d d.abi.sp (by simp)
  refine ⟨?_, ?_⟩
  · rw [hsptr, stubCode_mem]
    exact h.self
  · rw [hsptr, hsp]
    exact h.apart

/-- Where the dispatcher goes from the stub: to the resolved function, but on
RISC-V to the return address. -/
theorem patchStub_target {d : Dispatcher} {c : Machine HostReg}
    (hc : Resolves d callee (execAll (stubCode stub full hi d) m)
      (if d = .lp64 then Rv.t0 else d.patchDataReg)
      ((patchStub stub full hi d).exec callee m) c) :
    ((patchStub stub full hi d).exec callee m).target =
      if d = .lp64 then m.regs Rv.ra else (callee c).regs d.abi.ret := by
  have htarget : ((patchStub stub full hi d).exec callee m).target =
      ((patchStub stub full hi d).exec callee m).machine.regs d.leaveReg :=
    fullDispatchFunc_target d
  rw [htarget, Dispatcher.leaveReg]
  by_cases hd : d = .lp64
  · subst hd
    rw [if_pos rfl, if_pos rfl]
    exact hc.returnAddr.trans (stubCode_returnAddr stub full hi .lp64)
  · have hresult := hc.result
    rw [if_neg hd] at hresult
    rw [if_neg hd, if_neg hd, hresult]

/-- Entered through a stub, a dispatcher runs the callee, except that the RISC-V one
does so only if the return address happens to be the resolved function. -/
theorem patchStub_runsCallee_iff {d : Dispatcher} (hk : d.abi.Keeps d.frame callee)
    (h : CpuStateInPlace d m) :
    ∃ c, RunsCallee d callee (stub + 16#64) m ((patchStub stub full hi d).exec callee m) ↔
      (d = .lp64 → m.regs Rv.ra = (callee c).regs d.abi.ret) := by
  obtain ⟨c, hc⟩ : ∃ c, Resolves d callee (execAll (stubCode stub full hi d) m)
      (if d = .lp64 then Rv.t0 else d.patchDataReg)
      ((patchStub stub full hi d).exec callee m) c :=
    fullDispatchFunc_resolves d hk
  have htarget := patchStub_target stub full hi hc
  have hkeep := stubCode_regs (m := m) stub full hi d
  refine ⟨c, fun hrun hd => ?_, fun hleave => ?_⟩
  · obtain ⟨c', hcalls, -, -, hresult⟩ := hrun.resolves
    rw [hc.calls, List.cons.injEq] at hcalls
    rw [← hcalls.1, htarget, if_pos hd] at hresult
    exact hresult
  · refine ⟨⟨c, hc.calls, ?_, ?_, ?_⟩, ?_, ?_, ?_⟩
    · rw [hc.cpuState (stubCode_inPlace stub full hi h), hkeep d.sptr (by simp [Dispatcher.kept])]
    · rw [hc.patchData, stubCode_patchData]
    · rw [htarget]
      split
      case isTrue hd => exact hleave hd
      case isFalse => rfl
    · intro r hr
      rw [hc.kept r hr, hkeep r (List.mem_append_right _ hr)]
    · rw [hc.sp, hkeep d.abi.sp (by simp)]
    · rw [hc.returnAddr, stubCode_returnAddr]

/-- A `resolve_func` that changes nothing but its result. -/
def resolveTo (d : Dispatcher) (func : Word) (c : Machine HostReg) : Machine HostReg :=
  c.setReg d.abi.ret func

theorem resolveTo_keeps (d : Dispatcher) (func : Word) :
    d.abi.Keeps d.frame (resolveTo d func) := by
  have hsp : d.abi.sp ≠ d.abi.ret := by cases d <;> decide
  have hsaved : ∀ r ∈ d.abi.calleeSaved, r ≠ d.abi.ret := by cases d <;> decide
  exact
    { sp := fun c => Function.update_of_ne hsp _ _
      saved := fun c r hr => Function.update_of_ne (hsaved r hr) _ _
      frame := fun _ _ _ => rfl }

/-- **A patch stub runs the callee on every host but RISC-V.** From every machine,
and for every `resolve_func` that obeys the host's calling convention, entering
`full_dispatch_func` through the stub calls `resolve_func(cpu_state, _, p)` once and
jumps to its result with the convention's registers unchanged, exactly if the
dispatcher is not `lp64`: that one returns to the call's return address instead. -/
theorem full_dispatch_runs_callee_iff (d : Dispatcher) (m : Machine HostReg)
    (h : CpuStateInPlace d m) :
    (∀ callee, d.abi.Keeps d.frame callee →
      RunsCallee d callee (stub + 16#64) m ((patchStub stub full hi d).exec callee m)) ↔
    d ≠ .lp64 := by
  refine ⟨fun hall hd => ?_, fun hd callee hk => ?_⟩
  · subst hd
    -- Refuted by a function at an address other than the return address.
    have hk := resolveTo_keeps .lp64 (m.regs Rv.ra + 1#64)
    obtain ⟨c, hiff⟩ := patchStub_runsCallee_iff stub full hi hk h
    have hra := hiff.mp (hall _ hk) rfl
    rw [resolveTo, setReg_regs, Function.update_self] at hra
    bv_omega
  · obtain ⟨c, hiff⟩ := patchStub_runsCallee_iff stub full hi hk h
    exact hiff.mpr (fun heq => absurd heq hd)

end

/-- A thread whose CPU state is at `0x7000` and whose stack is at `0x9000`, about to
return to `0x1234`. -/
def threadAt (d : Dispatcher) : Machine HostReg where
  regs r :=
    if r = d.sptr then 0x7040#64 else if r = d.abi.sp then 0x9000#64
    else if r ∈ d.linkRegs then 0x1234#64 else BitVec.ofNat 64 r
  mem a := if a = 0x7000#64 then 0x7000#64 else if a = 0x9000#64 then 0x1234#64 else 0#64

theorem threadAt_inPlace (d : Dispatcher) : CpuStateInPlace d (threadAt d) := by
  refine ⟨by cases d <;> decide, ?_⟩
  cases d <;> decide

theorem full_dispatch_runs_callee_hhvm :
    CpuStateInPlace .hhvm (threadAt .hhvm) ∧
    ((∀ callee, Dispatcher.hhvm.abi.Keeps Dispatcher.hhvm.frame callee →
      RunsCallee .hhvm callee (0x4000#64 + 16#64) (threadAt .hhvm)
        ((patchStub 0x4000#64 0x5000#64 0x3000#64 .hhvm).exec callee (threadAt .hhvm))) ↔
      Dispatcher.hhvm ≠ .lp64) :=
  ⟨threadAt_inPlace .hhvm,
    full_dispatch_runs_callee_iff 0x4000#64 0x5000#64 0x3000#64 .hhvm (threadAt .hhvm)
      (threadAt_inPlace .hhvm)⟩

/-- On RISC-V a call through a stub of a function that `resolve_func` finds at
`0x8000` comes back to the return address `0x1234` and never runs it. -/
theorem full_dispatch_lp64_returns :
    CpuStateInPlace .lp64 (threadAt .lp64) ∧
    Dispatcher.lp64.abi.Keeps Dispatcher.lp64.frame (resolveTo .lp64 0x8000#64) ∧
    ((patchStub 0x4000#64 0x5000#64 0x3000#64 .lp64).exec (resolveTo .lp64 0x8000#64)
      (threadAt .lp64)).target = 0x1234#64 ∧
    ¬ RunsCallee .lp64 (resolveTo .lp64 0x8000#64) (0x4000#64 + 16#64) (threadAt .lp64)
      ((patchStub 0x4000#64 0x5000#64 0x3000#64 .lp64).exec (resolveTo .lp64 0x8000#64)
        (threadAt .lp64)) := by
  have htarget : ((patchStub 0x4000#64 0x5000#64 0x3000#64 .lp64).exec (resolveTo .lp64 0x8000#64)
      (threadAt .lp64)).target = 0x1234#64 := by decide
  refine ⟨threadAt_inPlace .lp64, resolveTo_keeps .lp64 _, htarget, fun hrun => ?_⟩
  obtain ⟨c, -, -, -, hresult⟩ := hrun.resolves
  rw [htarget, resolveTo, setReg_regs, Function.update_self] at hresult
  exact absurd hresult (by decide)

end Instrew.Client
