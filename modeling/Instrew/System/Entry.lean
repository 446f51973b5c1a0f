import Instrew.Client.DispatchLoop

/-!
# Server tables against client loops

Translated code of a fast convention takes each guest register of the server's
field table in the argument register that LLVM gives to the field's `argidx`. The
client's loop function puts words of `regdata` into these registers before it
calls the first translated function. The two agree for some hosts and guests
only (`loop_hands_over_iff`).
-/

namespace Instrew.System

open Instrew.Lib.Asm
open Instrew.Client
open Instrew.Server

/-- The fast entries of `dispatch_get` in a client for `hostArch`. -/
def dispatchGet (hostArch callconv : Nat) : Option Dispatcher :=
  if hostArch = emX86_64 ∧ callconv = 1 then some .hhvm
  else if hostArch = emX86_64 ∧ callconv = 2 then some .regcall
  else if hostArch = emAarch64 ∧ callconv = 3 then some .aapcsx
  else if hostArch = emRiscv ∧ callconv = 4 then some .lp64
  else none

/-- LLVM's registers for the arguments of the convention, in order. On RISC-V the
returned struct takes `a0`; on AArch64 the state pointer is `swiftself`. -/
def argOrder : Dispatcher → List HostReg
  | .hhvm => [X86.rbx, X86.r12, X86.rbp, X86.r15, X86.rdi, X86.rsi, X86.rdx, X86.rcx, X86.r8,
      X86.r9, X86.rax, X86.r10, X86.r11, X86.r13, X86.r14]
  | .regcall => [X86.rax, X86.rcx, X86.rdx, X86.rdi, X86.rsi, X86.r8, X86.r9, X86.r12, X86.r13,
      X86.r14, X86.r15]
  | .aapcsx => [A64.x 0, A64.x 1, A64.x 2, A64.x 3, A64.x 4, A64.x 5, A64.x 6, A64.x 7, A64.x 20]
  | .lp64 => [Rv.a 1, Rv.a 2, Rv.a 3, Rv.a 4, Rv.a 5, Rv.a 6, Rv.a 7]

/-- The first translated function finds each field of the table in its argument
register, with the value it has in the register file at entry. -/
def HandsOver (cc : CallConv) (d : Dispatcher) (m : Machine HostReg) (e : Exit HostReg) : Prop :=
  ∀ f ∈ fields cc, ∃ r, (argOrder d)[f.argidx]? = some r ∧
    e.machine.regs r = m.mem (m.regs d.loopArg + BitVec.ofNat 64 f.offset)

/-- The word that the loop function loads for an argument. -/
def loadedWord (d : Dispatcher) (guestArch argidx : Nat) : Option Nat :=
  (argOrder d)[argidx]?.bind (fun r => (d.loads guestArch).lookup r)

/-- The fields for which the loop function loads another word: what it loads, and
what the field is. -/
def misplaced (cc : CallConv) (d : Dispatcher) (guestArch : Nat) : List (Nat × Nat) :=
  (fields cc).filterMap (fun f => (loadedWord d guestArch f.argidx).bind
    (fun w => if 8 * w = f.offset then none else some (w, f.offset / 8)))

theorem mem_of_lookup {r : HostReg} {w : Nat} : ∀ {l : List (HostReg × Nat)},
    l.lookup r = some w → (r, w) ∈ l
  | [], h => by simp at h
  | p :: l, h => by
      rw [List.lookup_cons] at h
      split at h
      case h_1 heq =>
        obtain rfl := Option.some.inj h
        rw [beq_iff_eq] at heq
        simp [heq]
      case h_2 => exact List.mem_cons_of_mem _ (mem_of_lookup h)

/-- Every field is loaded, and is a whole word. -/
def Covers (cc : CallConv) (d : Dispatcher) (guestArch : Nat) : Prop :=
  ∀ f ∈ fields cc, (loadedWord d guestArch f.argidx).isSome ∧ 8 * (f.offset / 8) = f.offset

instance (cc : CallConv) (d : Dispatcher) (guestArch : Nat) : Decidable (Covers cc d guestArch) :=
  inferInstanceAs (Decidable (∀ f ∈ fields cc, _))

theorem handsOver_iff {cc : CallConv} {d : Dispatcher} {guestArch : Nat} {m : Machine HostReg}
    {e : Exit HostReg} (hcov : Covers cc d guestArch)
    (hload : ∀ p ∈ d.loads guestArch, e.machine.regs p.1 = d.regWord m p.2) :
    HandsOver cc d m e ↔ ∀ p ∈ misplaced cc d guestArch, d.regWord m p.1 = d.regWord m p.2 := by
  -- For one field: what is in its register is the loaded word.
  have hfield : ∀ f ∈ fields cc, ∃ w, loadedWord d guestArch f.argidx = some w ∧
      ((∃ r, (argOrder d)[f.argidx]? = some r ∧
        e.machine.regs r = m.mem (m.regs d.loopArg + BitVec.ofNat 64 f.offset)) ↔
      d.regWord m w = d.regWord m (f.offset / 8)) := by
    intro f hf
    obtain ⟨hsome, hword⟩ := hcov f hf
    obtain ⟨w, hw⟩ := Option.isSome_iff_exists.mp hsome
    obtain ⟨r, hr, hlookup⟩ := Option.bind_eq_some_iff.mp hw
    refine ⟨w, hw, ?_⟩
    have hval := hload (r, w) (mem_of_lookup hlookup)
    have hoff : d.regWord m (f.offset / 8) =
        m.mem (m.regs d.loopArg + BitVec.ofNat 64 f.offset) := by
      rw [Dispatcher.regWord, wordOff, hword]
    rw [← hval, hoff]
    constructor
    · rintro ⟨r', hr', h⟩
      obtain rfl := Option.some.inj (hr.symm.trans hr')
      exact h
    · exact fun h => ⟨r, hr, h⟩
  refine ⟨fun h p hp => ?_, fun h f hf => ?_⟩
  · obtain ⟨f, hf, hmis⟩ := List.mem_filterMap.mp hp
    obtain ⟨w, hw, hiff⟩ := hfield f hf
    rw [hw, Option.bind_some] at hmis
    split at hmis
    case isTrue => simp at hmis
    case isFalse =>
      obtain rfl := Option.some.inj hmis
      exact hiff.mp (h f hf)
  · obtain ⟨w, hw, hiff⟩ := hfield f hf
    refine hiff.mpr ?_
    by_cases heq : 8 * w = f.offset
    · have hword : w = f.offset / 8 := by omega
      rw [← hword]
    · refine h (w, f.offset / 8) (List.mem_filterMap.mpr ⟨f, hf, ?_⟩)
      rw [hw, Option.bind_some, if_neg heq]

/-! ## The hosts and guests -/

/-- The host and guest pairs that have a fast convention. -/
def fastPairs : List (Nat × Nat) :=
  [(emX86_64, emX86_64), (emX86_64, emRiscv), (emX86_64, emAarch64), (emAarch64, emX86_64),
    (emAarch64, emAarch64), (emRiscv, emX86_64), (emRiscv, emRiscv), (emRiscv, emAarch64)]

theorem mem_fastPairs {llvmMajor hostArch guestArch : Nat}
    (h : getFastCC llvmMajor hostArch guestArch ≠ .cdecl) : (hostArch, guestArch) ∈ fastPairs := by
  unfold getFastCC at h
  simp only [fastPairs, List.mem_cons, Prod.mk.injEq, List.not_mem_nil, or_false]
  grind

/-- The LLVM version only matters in whether it still has `hhvmcc`. -/
theorem getFastCC_version (llvmMajor hostArch guestArch : Nat) :
    ∃ v ∈ [16, 17], getFastCC llvmMajor hostArch guestArch = getFastCC v hostArch guestArch := by
  by_cases h : llvmMajor < 17
  · exact ⟨16, by simp, by simp [getFastCC, h]⟩
  · exact ⟨17, by simp, by simp [getFastCC, h]⟩

/-- The client has a dispatcher for the convention, its loop loads a word for every
field, and which of the two decides whether it is the right one. -/
def Settles (cc : CallConv) (hostArch guestArch : Nat) (d : Dispatcher) : Prop :=
  dispatchGet hostArch (getCallConvClientNumber cc) = some d ∧ Covers cc d guestArch ∧
    (misplaced cc d guestArch = [] ↔ guestArch = emX86_64 ∨ hostArch = emRiscv)

instance (cc : CallConv) (hostArch guestArch : Nat) (d : Dispatcher) :
    Decidable (Settles cc hostArch guestArch d) :=
  inferInstanceAs (Decidable (_ ∧ _ ∧ (_ ↔ _)))

theorem tables_settle : ∀ v ∈ [16, 17], ∀ p ∈ fastPairs,
    ∃ d ∈ [Dispatcher.hhvm, .regcall, .aapcsx, .lp64],
      Settles (getFastCC v p.1 p.2) p.1 p.2 d := by
  decide

/-- **The loops hand over the register file for x86-64 guests and on RISC-V hosts.**
For every host and guest with a fast convention, the first translated function
finds every field of the convention's table in its argument register exactly if the
register file has equal words wherever the loop function loads a word other than the
field's; and there is no such word exactly for x86-64 guests and on RISC-V hosts. -/
theorem loop_hands_over_iff (llvmMajor hostArch guestArch : Nat)
    (hfast : getFastCC llvmMajor hostArch guestArch ≠ .cdecl) :
    ∃ d, dispatchGet hostArch
        (getCallConvClientNumber (getFastCC llvmMajor hostArch guestArch)) = some d ∧
      (∀ ret frame slot callee m, d.abi.Keeps d.frame callee →
        (HandsOver (getFastCC llvmMajor hostArch guestArch) d m
            ((d.loopFunc ret frame slot guestArch).exec callee m) ↔
          ∀ p ∈ misplaced (getFastCC llvmMajor hostArch guestArch) d guestArch,
            d.regWord m p.1 = d.regWord m p.2)) ∧
      (misplaced (getFastCC llvmMajor hostArch guestArch) d guestArch = [] ↔
        guestArch = emX86_64 ∨ hostArch = emRiscv) := by
  obtain ⟨v, hv, hcc⟩ := getFastCC_version llvmMajor hostArch guestArch
  obtain ⟨d, -, hdisp, hcov, hmis⟩ := tables_settle v hv _ (mem_fastPairs hfast)
  rw [← hcc] at hdisp hcov hmis
  refine ⟨d, hdisp, fun ret frame slot callee m hk => ?_, hmis⟩
  exact handsOver_iff hcov (loopFunc_loads ret frame slot guestArch d hk)

theorem loop_hands_over_x86_64 :
    getFastCC 17 emX86_64 emX86_64 ≠ .cdecl ∧
    ∃ d, dispatchGet emX86_64 (getCallConvClientNumber (getFastCC 17 emX86_64 emX86_64)) = some d ∧
      (∀ ret frame slot callee m, d.abi.Keeps d.frame callee →
        (HandsOver (getFastCC 17 emX86_64 emX86_64) d m
            ((d.loopFunc ret frame slot emX86_64).exec callee m) ↔
          ∀ p ∈ misplaced (getFastCC 17 emX86_64 emX86_64) d emX86_64,
            d.regWord m p.1 = d.regWord m p.2)) ∧
      (misplaced (getFastCC 17 emX86_64 emX86_64) d emX86_64 = [] ↔
        emX86_64 = emX86_64 ∨ emX86_64 = emRiscv) :=
  ⟨by decide, loop_hands_over_iff 17 emX86_64 emX86_64 (by decide)⟩

/-- A thread of an AArch64 guest on an AArch64 host, whose register file holds its own
word numbers. -/
def numberedThread : Machine HostReg where
  regs r := if r = A64.x 0 then 0x7040#64 else 0#64
  mem a := (a - 0x7040#64) >>> 3

/-- Such a thread enters translated code with word 1 in the register of `X0`, which
is word 2. -/
theorem aarch64_thread_misplaced :
    getFastCC 17 emAarch64 emAarch64 = .aarch64Aarch64X ∧
    dispatchGet emAarch64 (getCallConvClientNumber .aarch64Aarch64X) = some .aapcsx ∧
    Dispatcher.aapcsx.abi.Keeps Dispatcher.aapcsx.frame (resolveTo .aapcsx 0x8000#64) ∧
    ((Dispatcher.aapcsx.loopFunc 0#64 0#64 0#64 emAarch64).exec (resolveTo .aapcsx 0x8000#64)
      numberedThread).machine.regs (A64.x 1) = 1#64 ∧
    ¬ HandsOver .aarch64Aarch64X .aapcsx numberedThread
      ((Dispatcher.aapcsx.loopFunc 0#64 0#64 0#64 emAarch64).exec (resolveTo .aapcsx 0x8000#64)
        numberedThread) := by
  have hx1 : ((Dispatcher.aapcsx.loopFunc 0#64 0#64 0#64 emAarch64).exec
      (resolveTo .aapcsx 0x8000#64) numberedThread).machine.regs (A64.x 1) = 1#64 := by
    decide +kernel
  refine ⟨by decide, by decide, resolveTo_keeps .aapcsx _, hx1, fun h => ?_⟩
  obtain ⟨r, hr, hval⟩ := h (sptrField (Aarch64Regs.x 0) 1 1) (by decide)
  obtain rfl : A64.x 1 = r := Option.some.inj hr
  rw [hx1] at hval
  exact absurd hval (by decide)

end Instrew.System
