import Instrew.Client.LoadObject
import Instrew.Server.CallConv

/-!
# Starting guest threads

`handle_clone` of `client/emulate.c`, the part for `CLONE_VM`, with the two `clone` system
calls and `clone3` that lead to it. The register file of the new thread is compared with
the one Linux would give it (`linuxChild`).

`clone_registers_iff` says for every guest, register file and argument when the two agree:
the code sets the stack pointer even if no stack is given, sets the thread pointer of
x86-64 guests without looking at `CLONE_SETTLS`, and never sets that of RISC-V guests.
-/

namespace Instrew.Client

open Server (emX86_64 emAarch64 emRiscv)

/-! ## Arguments -/

/-- `struct clone_args`, the members that `handle_clone` reads. -/
structure CloneArgs : Type where
  flags : Word
  pidfd : Word
  childTid : Word
  parentTid : Word
  exitSignal : Word
  stack : Word
  stackSize : Word
  tls : Word

def CLONE_VM : Word := 0x100#64
def CLONE_PIDFD : Word := 0x1000#64
def CLONE_SETTLS : Word := 0x80000#64
def CLONE_PARENT_SETTID : Word := 0x100000#64

/-- `sizeof(struct clone_args)`. -/
def cloneArgsSize : Nat := 88

/-- The copy at the head of `handle_clone`: the members behind the copied bytes are 0. -/
def copyCloneArgs (uargs : Buf) : Except Errno CloneArgs :=
  if cloneArgsSize < uargs.length then .error .E2BIG
  else .ok ⟨uargs.u64 0#64, uargs.u64 8#64, uargs.u64 16#64, uargs.u64 24#64, uargs.u64 32#64,
    uargs.u64 40#64, uargs.u64 48#64, uargs.u64 56#64⟩

/-- `CLONE_PIDFD` of the `clone` system calls returns the descriptor in the parent's TID. -/
def withPidfd (arg0 : Word) (args : CloneArgs) : Except Errno CloneArgs :=
  if arg0 &&& CLONE_PIDFD ≠ 0#64 then
    if arg0 &&& CLONE_PARENT_SETTID ≠ 0#64 then .error .EINVAL
    else .ok { args with pidfd := args.parentTid, parentTid := 0#64 }
  else .ok args

/-- `clone` of x86-64 guests (system call 56). -/
def cloneArgsX86 (arg0 arg1 arg2 arg3 arg4 : Word) : Except Errno CloneArgs :=
  withPidfd arg0 ⟨arg0 &&& ~~~0xff#64, 0#64, arg3, arg2, arg0 &&& 0xff#64, arg1, 0#64, arg4⟩

/-- `clone` of the other guests (system call 220). -/
def cloneArgsGeneric (arg0 arg1 arg2 arg3 arg4 : Word) : Except Errno CloneArgs :=
  withPidfd arg0 ⟨arg0 &&& ~~~0xff#64, 0#64, arg4, arg2, arg0 &&& 0xff#64, arg1, 0#64, arg3⟩

/-- The system calls that create threads: `clone` of x86-64, `clone` of the other guests,
and `clone3` with the bytes of its argument. -/
inductive CloneCall : Type where
  | clone (arg0 arg1 arg2 arg3 arg4 : Word)
  | cloneGeneric (arg0 arg1 arg2 arg3 arg4 : Word)
  | clone3 (uargs : Buf)

def CloneCall.args : CloneCall → Except Errno CloneArgs
  | clone arg0 arg1 arg2 arg3 arg4 => cloneArgsX86 arg0 arg1 arg2 arg3 arg4
  | cloneGeneric arg0 arg1 arg2 arg3 arg4 => cloneArgsGeneric arg0 arg1 arg2 arg3 arg4
  | clone3 uargs => copyCloneArgs uargs

/-! ## The new thread -/

/-- `regdata`, by 64-bit words. -/
abbrev Regdata : Type := Fin 128 → Word

-- so that a numeral that names a register is the same term everywhere
instance neZeroRegs : NeZero 128 := ⟨by decide⟩

/-- What the setup of a thread meets, in the order of the code. -/
structure CloneEnv : Type where
  dispatchGet : Bool
  allocCpuState : Except Errno Unit
  allocState : Except Errno Unit
  translatorForkPrepare : Except Errno Unit
  translatorThreadInit : Except Errno Unit
  translatorConfigFetch : Except Errno Unit
  rtldInit : Except Errno Unit
  translatorGetObject : Except Errno Unit
  rtldAddObject : Except Errno Unit
  hostStack : Except Errno Unit
  hostClone : Except Errno Unit

/-- `child_rsp`: `clone3` gives the lowest address and the size, `clone` the top. -/
def childRsp (args : CloneArgs) : Word :=
  if 0#64 < args.stackSize then args.stack + args.stackSize else args.stack

/-- The registers that are set in the copy of the parent's file. -/
def childRegs (guestArch : Nat) (parent : Regdata) (args : CloneArgs) : Regdata :=
  if guestArch = emX86_64 then
    Function.update (Function.update (Function.update parent 1 0#64) 5 (childRsp args)) 18 args.tls
  else if guestArch = emAarch64 then
    Function.update (Function.update parent 2 0#64) 33 (childRsp args)
  else if guestArch = emRiscv then
    Function.update (Function.update parent 11 0#64) 3 (childRsp args)
  else parent

/-- The steps of `handle_clone` that set up the thread, as far as they succeed. -/
def CloneEnv.setup (env : CloneEnv) : Except Errno Unit := do
  if env.dispatchGet then .ok () else .error .EOPNOTSUPP
  if env.allocCpuState.isOk then .ok () else .error .ENOMEM
  if env.allocState.isOk then .ok () else .error .ENOMEM
  env.translatorForkPrepare
  env.translatorThreadInit
  env.translatorConfigFetch
  env.rtldInit
  env.translatorGetObject
  env.rtldAddObject
  if env.hostStack.isOk then .ok () else .error .ENOMEM
  env.hostClone

/-- `handle_clone`: the register file of the new thread, `none` for a fork. -/
def handleClone (env : CloneEnv) (guestArch : Nat) (parent : Regdata) (args : CloneArgs) :
    Except Errno (Option Regdata) :=
  if args.flags &&& CLONE_VM = 0#64 then .ok none
  else env.setup.map fun _ => some (childRegs guestArch parent args)

theorem handleClone_eq_some {env : CloneEnv} {guestArch : Nat} {parent child : Regdata}
    {args : CloneArgs} (h : handleClone env guestArch parent args = .ok (some child)) :
    child = childRegs guestArch parent args := by
  rw [handleClone] at h
  split_ifs at h
  · cases h
  · cases hsetup : env.setup with
    | error e => rw [hsetup] at h; cases h
    | ok u => rw [hsetup] at h; cases h; rfl

/-- One of the system calls. -/
def emulateClone (env : CloneEnv) (guestArch : Nat) (parent : Regdata) (call : CloneCall) :
    Except Errno (Option Regdata) :=
  call.args.bind (handleClone env guestArch parent)

/-! ## What Linux does -/

/-- The guests that the client starts; `main` refuses the others. -/
inductive Guest : Type where
  | x86_64
  | aarch64
  | riscv
deriving DecidableEq

namespace Guest

def em : Guest → Nat
  | x86_64 => emX86_64
  | aarch64 => emAarch64
  | riscv => emRiscv

/-- RAX, X0, a0. -/
def resultReg : Guest → Fin 128
  | x86_64 => 1
  | aarch64 => 2
  | riscv => 11

/-- RSP, SP, x2. -/
def stackReg : Guest → Fin 128
  | x86_64 => 5
  | aarch64 => 33
  | riscv => 3

/-- FS_BASE on x86-64 and tp (x4) on RISC-V. -/
def threadReg? : Guest → Option (Fin 128)
  | x86_64 => some 18
  | aarch64 => none
  | riscv => some 5

end Guest

/-- The stack pointer that the arguments ask for, 0 if they do not. -/
def newStack (args : CloneArgs) : Word :=
  if args.stackSize = 0#64 then args.stack else args.stack + args.stackSize

/-- The child's registers after a successful `clone` in Linux. -/
def linuxChild (g : Guest) (parent : Regdata) (args : CloneArgs) : Regdata := fun i =>
  if i = g.resultReg then 0#64
  else if i = g.stackReg then if newStack args ≠ 0#64 then newStack args else parent i
  else if g.threadReg? = some i then
    if args.flags &&& CLONE_SETTLS ≠ 0#64 then args.tls else parent i
  else parent i

theorem childRsp_eq_newStack (args : CloneArgs) : childRsp args = newStack args := by
  rw [childRsp, newStack]
  by_cases h : args.stackSize = 0#64
  · rw [h, if_neg (by decide), if_pos rfl]
  · have hpos : 0#64 < args.stackSize := by
      rw [BitVec.lt_def]
      have hne : args.stackSize.toNat ≠ 0 := fun h0 => h (BitVec.eq_of_toNat_eq h0)
      exact Nat.pos_of_ne_zero hne
    rw [if_pos hpos, if_neg h]

/-- A stack is given, or the parent's stack pointer is 0 anyway. -/
def StackOk (g : Guest) (parent : Regdata) (args : CloneArgs) : Prop :=
  newStack args ≠ 0#64 ∨ parent g.stackReg = 0#64

/-- x86-64 needs `CLONE_SETTLS`, RISC-V must not have it, unless the thread pointer does not
change. -/
def TlsOk (g : Guest) (parent : Regdata) (args : CloneArgs) : Prop :=
  match g with
  | .x86_64 => args.flags &&& CLONE_SETTLS ≠ 0#64 ∨ args.tls = parent 18
  | .aarch64 => True
  | .riscv => args.flags &&& CLONE_SETTLS = 0#64 ∨ args.tls = parent 5

instance (g : Guest) (parent : Regdata) (args : CloneArgs) : Decidable (StackOk g parent args) :=
  inferInstanceAs (Decidable (_ ∨ _))

instance (g : Guest) (parent : Regdata) (args : CloneArgs) : Decidable (TlsOk g parent args) :=
  match g with
  | .x86_64 => inferInstanceAs (Decidable (_ ∨ _))
  | .aarch64 => .isTrue trivial
  | .riscv => inferInstanceAs (Decidable (_ ∨ _))

/-- What the code leaves in the thread pointer. -/
def codeThread (g : Guest) (parent : Regdata) (args : CloneArgs) (i : Fin 128) : Word :=
  match g with
  | .x86_64 => args.tls
  | .aarch64 | .riscv => parent i

/-- The three updates of the code, register by register. -/
theorem childRegs_apply (g : Guest) (parent : Regdata) (args : CloneArgs) (i : Fin 128) :
    childRegs g.em parent args i =
      if i = g.resultReg then 0#64
      else if i = g.stackReg then childRsp args
      else if g.threadReg? = some i then codeThread g parent args i
      else parent i := by
  cases g with
  | x86_64 =>
      show Function.update (Function.update (Function.update parent 1 0#64) 5 _) 18 _ i =
        if i = 1 then _ else if i = 5 then _ else if some 18 = some i then args.tls else _
      simp only [Function.update_apply, Option.some.injEq]
      split_ifs <;> simp_all
  | aarch64 =>
      show Function.update (Function.update parent 2 0#64) 33 _ i =
        if i = 2 then _ else if i = 33 then _ else if none = some i then parent i else _
      simp only [Function.update_apply]
      split_ifs <;> simp_all
  | riscv =>
      show Function.update (Function.update parent 11 0#64) 3 _ i =
        if i = 11 then _ else if i = 3 then _ else if some 5 = some i then parent i else _
      simp only [Function.update_apply]
      split_ifs <;> simp_all

theorem stack_iff (g : Guest) (parent : Regdata) (args : CloneArgs) :
    childRsp args = (if newStack args ≠ 0#64 then newStack args else parent g.stackReg) ↔
      StackOk g parent args := by
  rw [childRsp_eq_newStack, StackOk]
  split_ifs with h
  · exact ⟨fun _ => .inl h, fun _ => rfl⟩
  · rw [not_not.mp h]
    exact ⟨fun h0 => .inr h0.symm, fun h0 => (h0.resolve_left fun hne => hne rfl).symm⟩

theorem tls_iff (g : Guest) (parent : Regdata) (args : CloneArgs) :
    (∀ i, g.threadReg? = some i → codeThread g parent args i =
      if args.flags &&& CLONE_SETTLS ≠ 0#64 then args.tls else parent i) ↔
      TlsOk g parent args := by
  cases g with
  | x86_64 =>
      show (∀ i, some 18 = some i → args.tls = _) ↔ _ ∨ _
      simp only [Option.some.injEq, forall_eq']
      split_ifs with h <;> simp [h]
  | aarch64 => exact ⟨fun _ => trivial, fun _ => nofun⟩
  | riscv =>
      show (∀ i, some 5 = some i → parent i = _) ↔ _ ∨ _
      simp only [Option.some.injEq, forall_eq']
      split_ifs with h
      · exact ⟨fun h0 => .inr h0.symm, fun h0 => (h0.resolve_left h).symm⟩
      · exact ⟨fun _ => .inl (not_not.mp h), fun _ => rfl⟩

/-- The copy of the parent's file has the right registers exactly when both pointers come
out right: every other word is what it should be. -/
theorem childRegs_eq_linuxChild_iff (g : Guest) (parent : Regdata) (args : CloneArgs) :
    childRegs g.em parent args = linuxChild g parent args ↔
      StackOk g parent args ∧ TlsOk g parent args := by
  have hsr : g.stackReg ≠ g.resultReg := by cases g <;> decide
  have htr : ∀ i, g.threadReg? = some i → i ≠ g.resultReg ∧ i ≠ g.stackReg := by
    cases g <;> decide
  rw [← stack_iff, ← tls_iff, funext_iff]
  simp only [childRegs_apply, linuxChild]
  constructor
  · intro h
    refine ⟨?_, fun i hi => ?_⟩
    · have hs := h g.stackReg
      rwa [if_neg hsr, if_pos rfl, if_neg hsr, if_pos rfl] at hs
    · obtain ⟨hir, his⟩ := htr i hi
      have ht := h i
      rwa [if_neg hir, if_neg his, if_pos hi, if_neg hir, if_neg his, if_pos hi] at ht
  · rintro ⟨hs, ht⟩ i
    by_cases hir : i = g.resultReg
    · rw [if_pos hir, if_pos hir]
    rw [if_neg hir, if_neg hir]
    by_cases his : i = g.stackReg
    · rw [if_pos his, if_pos his, hs, his]
    rw [if_neg his, if_neg his]
    by_cases hi : g.threadReg? = some i
    · rw [if_pos hi, if_pos hi, ht i hi]
    · rw [if_neg hi, if_neg hi]

/-- **When a new thread starts with the registers Linux would give it.** For every guest,
every register file of the parent and every argument for which the thread is created. -/
theorem clone_registers_iff (env : CloneEnv) (g : Guest) (parent child : Regdata)
    (args : CloneArgs) (h : handleClone env g.em parent args = .ok (some child)) :
    child = linuxChild g parent args ↔ StackOk g parent args ∧ TlsOk g parent args := by
  rw [handleClone_eq_some h]
  exact childRegs_eq_linuxChild_iff g parent args

/-- The same for a system call. -/
theorem emulateClone_registers {env : CloneEnv} {g : Guest} {parent child : Regdata}
    {call : CloneCall} (h : emulateClone env g.em parent call = .ok (some child)) :
    ∃ args, call.args = .ok args ∧
      (child = linuxChild g parent args ↔ StackOk g parent args ∧ TlsOk g parent args) := by
  cases hargs : call.args with
  | error e =>
      rw [emulateClone, hargs] at h
      cases h
  | ok args =>
      rw [emulateClone, hargs] at h
      refine ⟨args, rfl, ?_⟩
      rw [handleClone_eq_some h]
      exact childRegs_eq_linuxChild_iff g parent args

/-- A setup in which every step succeeds. -/
def CloneEnv.allOk : CloneEnv :=
  ⟨true, .ok (), .ok (), .ok (), .ok (), .ok (), .ok (), .ok (), .ok (), .ok (), .ok ()⟩

/-- A parent whose register words hold their own index. -/
def countingRegs : Regdata := fun i => BitVec.ofNat 64 i

/-- What a thread library passes on x86-64: a stack and `CLONE_SETTLS`. -/
theorem clone_registers_pthread :
    ∃ child, handleClone .allOk emX86_64 countingRegs
        ⟨0x3d0f00#64, 0#64, 0#64, 0#64, 0#64, 0x7000#64, 0x1000#64, 0x1234#64⟩ =
          .ok (some child) ∧
      child = linuxChild .x86_64 countingRegs
        ⟨0x3d0f00#64, 0#64, 0#64, 0#64, 0#64, 0x7000#64, 0x1000#64, 0x1234#64⟩ :=
  ⟨_, rfl, (clone_registers_iff .allOk .x86_64 countingRegs _ _ rfl).mpr (by decide)⟩

/-- `clone(CLONE_VM|CLONE_VFORK|SIGCHLD, 0)` of an x86-64 guest, the vfork of its C library:
the child starts with stack pointer 0. -/
theorem vfork_child_without_stack :
    ∃ args child, (CloneCall.clone 0x4111#64 0#64 0#64 0#64 0#64).args = .ok args ∧
      handleClone .allOk emX86_64 countingRegs args = .ok (some child) ∧
      child 5 = 0#64 ∧ child ≠ linuxChild .x86_64 countingRegs args := by
  refine ⟨_, _, rfl, rfl, by decide, fun h => ?_⟩
  have h5 := congrFun h 5
  revert h5
  decide

end Instrew.Client
