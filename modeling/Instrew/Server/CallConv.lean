import Mathlib.Data.List.Basic

/-!
# The fast calling conventions of the server

Which convention `GetFastCC` picks for a host and a guest, the number by which the
client knows it, and the table of guest registers that each convention passes in
arguments (`ChangeCallConv`). Offsets are those of Rellume's CPU structs.
-/

namespace Instrew.Server

def emX86_64 : Nat := 62
def emAarch64 : Nat := 183
def emRiscv : Nat := 243

inductive CallConv : Type where
  | cdecl
  | hhvm
  | rv64X86Hhvm
  | aarch64X86Hhvm
  | x86X86Regcall
  | rv64X86Regcall
  | aarch64X86Regcall
  | x86Aarch64X
  | aarch64Aarch64X
  | x86Rv64Lp64
  | rv64Rv64Lp64
  | aarch64Rv64Lp64
  deriving DecidableEq

/-- `GetFastCC`, in a server built against the LLVM version `llvmMajor`. -/
def getFastCC (llvmMajor hostArch guestArch : Nat) : CallConv :=
  if llvmMajor < 17 ∧ hostArch = emX86_64 ∧ guestArch = emX86_64 then .hhvm
  else if llvmMajor < 17 ∧ hostArch = emX86_64 ∧ guestArch = emRiscv then .rv64X86Hhvm
  else if llvmMajor < 17 ∧ hostArch = emX86_64 ∧ guestArch = emAarch64 then .aarch64X86Hhvm
  else if hostArch = emX86_64 ∧ guestArch = emX86_64 then .x86X86Regcall
  else if hostArch = emX86_64 ∧ guestArch = emRiscv then .rv64X86Regcall
  else if hostArch = emX86_64 ∧ guestArch = emAarch64 then .aarch64X86Regcall
  else if hostArch = emAarch64 ∧ guestArch = emX86_64 then .x86Aarch64X
  else if hostArch = emAarch64 ∧ guestArch = emAarch64 then .aarch64Aarch64X
  else if hostArch = emRiscv ∧ guestArch = emX86_64 then .x86Rv64Lp64
  else if hostArch = emRiscv ∧ guestArch = emRiscv then .rv64Rv64Lp64
  else if hostArch = emRiscv ∧ guestArch = emAarch64 then .aarch64Rv64Lp64
  else .cdecl

def getCallConvClientNumber : CallConv → Nat
  | .cdecl => 0
  | .hhvm | .rv64X86Hhvm | .aarch64X86Hhvm => 1
  | .x86X86Regcall | .rv64X86Regcall | .aarch64X86Regcall => 2
  | .x86Aarch64X | .aarch64Aarch64X => 3
  | .x86Rv64Lp64 | .rv64Rv64Lp64 | .aarch64Rv64Lp64 => 4

/-! ## Field tables -/

/-- A guest register in the CPU struct: offset and size in bytes. -/
structure OffSize : Type where
  offset : Nat
  size : Nat
  deriving DecidableEq

structure SptrField : Type where
  offset : Nat
  size : Nat
  argidx : Nat
  retidx : Nat
  deriving DecidableEq

def sptrField (os : OffSize) (argidx retidx : Nat) : SptrField :=
  ⟨os.offset, os.size, argidx, retidx⟩

namespace X86Regs

def rip : OffSize := ⟨0x00, 8⟩
def rax : OffSize := ⟨0x08, 8⟩
def rcx : OffSize := ⟨0x10, 8⟩
def rdx : OffSize := ⟨0x18, 8⟩
def rbx : OffSize := ⟨0x20, 8⟩
def rsp : OffSize := ⟨0x28, 8⟩
def rbp : OffSize := ⟨0x30, 8⟩
def rsi : OffSize := ⟨0x38, 8⟩
def rdi : OffSize := ⟨0x40, 8⟩
def r8 : OffSize := ⟨0x48, 8⟩
def r9 : OffSize := ⟨0x50, 8⟩
def r10 : OffSize := ⟨0x58, 8⟩
def r11 : OffSize := ⟨0x60, 8⟩

end X86Regs

namespace Rv64Regs

def rip : OffSize := ⟨0x00, 8⟩
def x (n : Nat) : OffSize := ⟨8 * (n + 1), 8⟩

end Rv64Regs

namespace Aarch64Regs

def pc : OffSize := ⟨0x00, 8⟩
def x (n : Nat) : OffSize := ⟨8 * (n + 2), 8⟩

end Aarch64Regs

/-- The registers a convention passes, each with its argument and return index. -/
def fields : CallConv → List SptrField
  | .cdecl => []
  | .x86Aarch64X =>
      [sptrField X86Regs.rip 0 0, sptrField X86Regs.rax 1 1, sptrField X86Regs.rcx 2 2,
        sptrField X86Regs.rdx 3 3, sptrField X86Regs.rbx 4 4, sptrField X86Regs.rsp 5 5,
        sptrField X86Regs.rsi 6 6, sptrField X86Regs.rdi 7 7]
  | .aarch64Aarch64X =>
      [sptrField Aarch64Regs.pc 0 0, sptrField (Aarch64Regs.x 0) 1 1,
        sptrField (Aarch64Regs.x 1) 2 2, sptrField (Aarch64Regs.x 2) 3 3,
        sptrField (Aarch64Regs.x 3) 4 4, sptrField (Aarch64Regs.x 4) 5 5,
        sptrField (Aarch64Regs.x 30) 6 6, sptrField (Aarch64Regs.x 6) 7 7]
  | .x86X86Regcall =>
      [sptrField X86Regs.rip 1 1, sptrField X86Regs.rax 2 2, sptrField X86Regs.rcx 3 3,
        sptrField X86Regs.rdx 4 4, sptrField X86Regs.rbx 5 5, sptrField X86Regs.rsp 6 6,
        sptrField X86Regs.rsi 7 7, sptrField X86Regs.rdi 8 8, sptrField X86Regs.r8 9 9,
        sptrField X86Regs.r9 10 10]
  | .aarch64X86Regcall =>
      [sptrField Aarch64Regs.pc 1 1, sptrField (Aarch64Regs.x 0) 2 2,
        sptrField (Aarch64Regs.x 1) 3 3, sptrField (Aarch64Regs.x 2) 4 4,
        sptrField (Aarch64Regs.x 3) 5 5, sptrField (Aarch64Regs.x 4) 6 6,
        sptrField (Aarch64Regs.x 30) 7 7, sptrField (Aarch64Regs.x 6) 8 8,
        sptrField (Aarch64Regs.x 7) 9 9, sptrField (Aarch64Regs.x 8) 10 10]
  | .rv64X86Regcall =>
      [sptrField Rv64Regs.rip 1 1, sptrField (Rv64Regs.x 18) 2 2, sptrField (Rv64Regs.x 1) 3 3,
        sptrField (Rv64Regs.x 2) 4 4, sptrField (Rv64Regs.x 8) 5 5, sptrField (Rv64Regs.x 9) 6 6,
        sptrField (Rv64Regs.x 10) 7 7, sptrField (Rv64Regs.x 11) 8 8,
        sptrField (Rv64Regs.x 12) 9 9, sptrField (Rv64Regs.x 13) 10 10]
  | .hhvm =>
      [sptrField X86Regs.rip 0 0, sptrField X86Regs.rax 10 8, sptrField X86Regs.rcx 7 5,
        sptrField X86Regs.rdx 6 4, sptrField X86Regs.rbx 2 1, sptrField X86Regs.rsp 3 13,
        sptrField X86Regs.rbp 13 11, sptrField X86Regs.rsi 5 3, sptrField X86Regs.rdi 4 2,
        sptrField X86Regs.r8 8 6, sptrField X86Regs.r9 9 7, sptrField X86Regs.r10 11 9,
        sptrField X86Regs.r11 12 10]
  | .rv64X86Hhvm =>
      [sptrField Rv64Regs.rip 0 0, sptrField (Rv64Regs.x 18) 10 8, sptrField (Rv64Regs.x 1) 7 5,
        sptrField (Rv64Regs.x 2) 6 4, sptrField (Rv64Regs.x 8) 2 1, sptrField (Rv64Regs.x 9) 3 13,
        sptrField (Rv64Regs.x 10) 13 11, sptrField (Rv64Regs.x 11) 5 3,
        sptrField (Rv64Regs.x 12) 4 2, sptrField (Rv64Regs.x 13) 8 6,
        sptrField (Rv64Regs.x 14) 9 7, sptrField (Rv64Regs.x 15) 11 9,
        sptrField (Rv64Regs.x 17) 12 10]
  | .aarch64X86Hhvm =>
      [sptrField Aarch64Regs.pc 0 0, sptrField (Aarch64Regs.x 0) 10 8,
        sptrField (Aarch64Regs.x 1) 7 5, sptrField (Aarch64Regs.x 2) 6 4,
        sptrField (Aarch64Regs.x 3) 3 13, sptrField (Aarch64Regs.x 4) 13 11,
        sptrField (Aarch64Regs.x 5) 5 3, sptrField (Aarch64Regs.x 6) 4 2,
        sptrField (Aarch64Regs.x 7) 8 6, sptrField (Aarch64Regs.x 8) 9 7,
        sptrField (Aarch64Regs.x 30) 11 9, sptrField (Aarch64Regs.x 9) 12 10]
  | .x86Rv64Lp64 =>
      [sptrField X86Regs.rip 1 1, sptrField X86Regs.rax 2 2, sptrField X86Regs.rcx 3 3,
        sptrField X86Regs.rdx 4 4, sptrField X86Regs.rbx 5 5, sptrField X86Regs.rsp 6 6]
  | .rv64Rv64Lp64 =>
      [sptrField Rv64Regs.rip 1 1, sptrField (Rv64Regs.x 10) 2 2, sptrField (Rv64Regs.x 11) 3 3,
        sptrField (Rv64Regs.x 12) 4 4, sptrField (Rv64Regs.x 13) 5 5,
        sptrField (Rv64Regs.x 14) 6 6]
  | .aarch64Rv64Lp64 =>
      [sptrField Aarch64Regs.pc 1 1, sptrField (Aarch64Regs.x 0) 2 2,
        sptrField (Aarch64Regs.x 1) 3 3, sptrField (Aarch64Regs.x 2) 4 4,
        sptrField (Aarch64Regs.x 3) 5 5, sptrField (Aarch64Regs.x 4) 6 6]

end Instrew.Server
