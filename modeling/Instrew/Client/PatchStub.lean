import Instrew.Client.ProcessRela
import Instrew.Client.RelocAarch64
import Instrew.Client.RelocRiscv
import Instrew.Lib.X64

/-!
# Patch stubs and the PLT

`rtld_patch_create_stub` and `plt_create` of `client/rtld.c`: the bytes they write for
each host, and what executing them does. A patch stub leaves the address of its record in
the register of the dispatcher and goes on at slot 1 of the PLT; a slot of the PLT jumps to
the address stored for it.

The headline is `stubs_and_plt_reach`, for every place of stub and PLT in the code arena.
-/

namespace Instrew.Client

open Lib Lib.Imm Lib.ByteMem Lib.CodeMem Lib.Run
open Lib.Bytes (le)

/-! ## The hosts -/

/-- What the results below say about a host: its program counter, its general registers by
number, and a step. -/
structure HostMachine : Type 1 where
  State : Type
  pc : State → Word
  reg : State → Nat → Word
  step : Mem → State → Option State

def Host.machine : Host → HostMachine
  | x86_64 => ⟨X64.State, X64.State.rip, fun s r => s.regs (BitVec.ofNat 4 r), X64.step⟩
  | aarch64 => ⟨A64.State, A64.State.pc, fun s r => s.x (BitVec.ofNat 5 r), A64.step⟩
  | riscv => ⟨Rv64.State, Rv64.State.pc, fun s r => s.get (BitVec.ofNat 5 r), Rv64.step⟩

/-- The numbers of the general registers that hold a value. -/
def Host.IsReg : Host → Nat → Prop
  | x86_64, r => r < 16
  | aarch64, r => r < 31
  | riscv, r => 0 < r ∧ r < 32

/-- A block of the code arena, as `mem_alloc_code` returns it for an alignment of 0x40. -/
structure InCodeArena (a : Word) (size : Nat) : Prop where
  start : 0x400008000000 ≤ a.toNat
  stop : a.toNat + size ≤ 0x400048000000
  aligned : a.toNat % 64 = 0

/-! ## The patch stub -/

/-- The bytes of a record. -/
def RtldPatchData.bytes (p : RtldPatchData) : List Byte :=
  le 8 p.symAddr.toNat ++ le 4 p.relType.toNat ++ le 4 p.relSize.toNat ++ le 8 p.addend.toNat ++
    le 8 p.patchAddr.toNat

/-- An auipc with the rounded upper part of `d` or-ed in. -/
def auipcWord (code : BitVec 32) (d : Word) : BitVec 32 :=
  code ||| ((d + 0x800#64).sshiftRight 12).setWidth 32 <<< 12

/-- An I-type word with the low part of `d` or-ed in. -/
def lowWord (code : BitVec 32) (d : Word) : BitVec 32 :=
  code ||| (d &&& 0xfff#64).setWidth 32 <<< 20

/-- The 16 bytes of code at `stub` that jump `jmptgtdiff` bytes on. The AArch64 code has 8
bytes only, the others are what was on the stack. -/
def patchStubCode (unset : Nat → Byte) (pdr : Nat) (jmptgtdiff : Word) :
    Host → Except Errno (List Byte)
  | .x86_64 =>
      .ok ([0x48#8 + (if 8 ≤ pdr then 4#8 else 0#8), 0x8d#8,
          5#8 + BitVec.ofNat 8 (pdr % 8) <<< 3, 9#8, 0#8, 0#8, 0#8, 0xe9#8] ++
        le 4 (jmptgtdiff - 12#64).toNat ++ le 4 0x0b0f0b0f)
  | .aarch64 =>
      if checkSignedBits (jmptgtdiff - 4#64) 28 then
        .ok (code32 [0x10000080#32 + BitVec.ofNat 32 pdr,
            BitVec.ofNat 32 ((rtldBlend 0x03ffffff#64
              ((jmptgtdiff - 4#64).sshiftRight 2)).value 0x14000000)] ++ (List.range 8).map unset)
      else .error .EINVAL
  | .riscv =>
      .ok (code32 [0x00000017#32 ||| BitVec.ofNat 32 pdr <<< 7,
        0x01000013#32 ||| BitVec.ofNat 32 pdr <<< 7 ||| BitVec.ofNat 32 pdr <<< 15,
        auipcWord 0x00000297#32 (jmptgtdiff - 8#64), lowWord 0x00028067#32 (jmptgtdiff - 8#64)])

/-- `rtld_patch_create_stub`: the stub, and the memory with it. `mem_write_code` copies and
returns 0 always. -/
def rtldPatchCreateStub (host : Host) (memAllocCode : Word → Word → Except Errno Word)
    (unset : Nat → Byte) (plt : Word) (pdr : Nat) (patchData : RtldPatchData) (m : Mem) :
    Except Errno (Word × Mem) := do
  let stub ← memAllocCode 0x30#64 0x40#64
  let code ← patchStubCode unset pdr (plt + BitVec.ofNat 64 (pltFuncSize host) - stub) host
  return (stub, writeBytes m stub.toNat (code ++ patchData.bytes))

/-! ## The PLT -/

/-- `data_offset`. The constant of `ALIGN_UP` is an `unsigned`, which makes no difference
for sizes below 2^32. -/
def pltDataOffset (host : Host) (n : Nat) : Nat := (n * pltFuncSize host + 0x3f) / 0x40 * 0x40

/-- `offset`: the distance from slot `i` to its address. -/
def pltOffset (host : Host) (n i : Nat) : Word :=
  BitVec.ofNat 64 (pltDataOffset host n + 8 * i) - BitVec.ofNat 64 (pltFuncSize host * i)

/-- The code of a slot. -/
def pltSlot (offset : Word) : Host → List Byte
  | .x86_64 => le 8 (0x0b0f0000000025ff#64 ||| (offset - 6#64) <<< 16).toNat
  | .aarch64 => code32 [(0x58000011#64 ||| offset <<< 3).setWidth 32, 0xd61f0220#32]
  | .riscv =>
      code32 [auipcWord 0x00000297#32 offset, lowWord 0x0002b283#32 offset, 0x00028067#32,
        0x00000013#32]

/-- The addresses of the slots: the first two are the dispatchers. -/
def pltFuncs (quickDispatchFunc fullDispatchFunc : Word) (funcs : List Word) : List Word :=
  funcs.mapIdx fun i func =>
    if i = 0 then quickDispatchFunc else if i = 1 then fullDispatchFunc else func

/-- `plt`, with what was on the stack between code and data. -/
def pltBytes (host : Host) (unset : Nat → Byte) (funcs : List Word) : List Byte :=
  ((List.range funcs.length).flatMap fun i => pltSlot (pltOffset host funcs.length i) host) ++
    (List.range (pltDataOffset host funcs.length - funcs.length * pltFuncSize host)).map unset ++
    funcs.flatMap fun func => le 8 func.toNat

/-- `plt_create`. -/
def pltCreate (host : Host) (memAllocCode : Word → Word → Except Errno Word) (unset : Nat → Byte)
    (quickDispatchFunc fullDispatchFunc : Word) (pltEntries : List Word) (m : Mem) :
    Except Errno (Word × Mem) := do
  let funcs := pltFuncs quickDispatchFunc fullDispatchFunc pltEntries
  let pltcode ← memAllocCode
    (BitVec.ofNat 64 (pltDataOffset host funcs.length + 8 * funcs.length)) 0x40#64
  return (pltcode, writeBytes m pltcode.toNat (pltBytes host unset funcs))

/-! ## Upper and lower parts in RISC-V words -/

section RiscvWords

variable (code code' : BitVec 32) (d : Word)

theorem auipcWord_eq_blend (h : code &&& ~~~(BitVec.allOnes 32 <<< 12) = code) :
    auipcWord code d =
      blend 0xfffff000#32 (((d + 0x800#64).sshiftRight 12).setWidth 32 <<< 12) code := by
  have hblend := or_shiftLeft_eq_blend code (((d + 0x800#64).sshiftRight 12).setWidth 32) 12
  rw [h] at hblend
  exact hblend

theorem lowWord_eq_blend (h : code &&& ~~~(BitVec.allOnes 32 <<< 20) = code) :
    lowWord code d = blend 0xfff00000#32 ((d &&& 0xfff#64).setWidth 32 <<< 20) code := by
  have hblend := or_shiftLeft_eq_blend code ((d &&& 0xfff#64).setWidth 32) 20
  rw [h] at hblend
  exact hblend

variable {code code'}

theorem immU_auipcWord (h : code &&& ~~~(BitVec.allOnes 32 <<< 12) = code) :
    Rv64.immU (auipcWord code d) =
      ((d.setWidth 32 + 0x800#32).extractLsb' 12 20 ++ 0#12).signExtend 64 := by
  have hcut : d.setWidth 32 + 0x800#32 = (d + 0x800#64).setWidth 32 := by
    rw [BitVec.setWidth_add _ _ (by decide)]
    rfl
  have hfield : (((d + 0x800#64).sshiftRight 12).setWidth 32 <<< 12).extractLsb' 12 20 =
      (d.setWidth 32 + 0x800#32).extractLsb' 12 20 := by
    rw [hcut]
    apply BitVec.eq_of_getLsbD_eq
    intro i hi
    rw [BitVec.getLsbD_extractLsb', BitVec.getLsbD_extractLsb', BitVec.getLsbD_shiftLeft,
      BitVec.getLsbD_setWidth, BitVec.getLsbD_setWidth, BitVec.getLsbD_sshiftRight,
      Nat.add_sub_cancel_left]
    simp [hi, show 12 + i < 32 by omega, show i < 32 by omega, show ¬ 64 ≤ i by omega,
      show 12 + i < 64 by omega]
  rw [auipcWord_eq_blend code d h, Rv64.immU, Covers.extractLsb'_blend (by decide), hfield]

theorem immI_lowWord (h : code &&& ~~~(BitVec.allOnes 32 <<< 20) = code) :
    Rv64.immI (lowWord code d) = (d.extractLsb' 0 12).signExtend 64 := by
  have hfield : ((d &&& 0xfff#64).setWidth 32 <<< 20).extractLsb' 20 12 = d.extractLsb' 0 12 := by
    apply BitVec.eq_of_getLsbD_eq
    intro i hi
    interval_cases i <;> simp
  rw [lowWord_eq_blend code d h, Rv64.immI, Covers.extractLsb'_blend (by decide), hfield]

/-- The parts add up to a distance in reach. -/
theorem immU_add_immI (h : code &&& ~~~(BitVec.allOnes 32 <<< 12) = code)
    (h' : code' &&& ~~~(BitVec.allOnes 32 <<< 20) = code') (hd : Spans d) :
    Rv64.immU (auipcWord code d) + Rv64.immI (lowWord code' d) = d := by
  rw [immU_auipcWord d h, immI_lowWord d h']
  exact (pairSum_eq_iff d _).mpr ⟨rfl, hd⟩

end RiscvWords

theorem auipcWord_fields (d : Word) : Rv64.opcode (auipcWord 0x00000297#32 d) = 0x17#7 ∧
    Rv64.rd (auipcWord 0x00000297#32 d) = 5#5 := by
  rw [auipcWord_eq_blend _ d (by decide)]
  exact ⟨Spares.extractLsb'_blend (by decide) _ _, Spares.extractLsb'_blend (by decide) _ _⟩

/-- The fields of an I-type word do not see the immediate. -/
theorem lowWord_fields (code : BitVec 32) (h : code &&& ~~~(BitVec.allOnes 32 <<< 20) = code)
    (d : Word) : Rv64.opcode (lowWord code d) = Rv64.opcode code ∧
      Rv64.rd (lowWord code d) = Rv64.rd code ∧ Rv64.funct3 (lowWord code d) = Rv64.funct3 code ∧
      Rv64.rs1 (lowWord code d) = Rv64.rs1 code := by
  rw [lowWord_eq_blend code d h]
  exact ⟨Spares.extractLsb'_blend (by decide) _ _, Spares.extractLsb'_blend (by decide) _ _,
    Spares.extractLsb'_blend (by decide) _ _, Spares.extractLsb'_blend (by decide) _ _⟩

/-! ## Patch stubs -/

/-- The instructions of a patch stub up to and with its jump. -/
def Host.stubSteps : Host → Nat
  | x86_64 => 2
  | aarch64 => 2
  | riscv => 4

/-- The register the stub's own jump needs. -/
def Host.stubScratch : Host → Option Nat
  | x86_64 => none
  | aarch64 => none
  | riscv => some 5

/-- Executing the code at `stub` leaves the address behind the code in register `pdr` and
leads to `target`. -/
def StubReaches (host : Host) (m : Mem) (stub target : Word) (pdr : Nat) : Prop :=
  ∀ s : host.machine.State, host.machine.pc s = stub →
    ∃ s', steps (host.machine.step m) host.stubSteps s = some s' ∧
      host.machine.pc s' = target ∧ host.machine.reg s' pdr = stub + 16#64 ∧
      ∀ r, host.IsReg r → r ≠ pdr → some r ≠ host.stubScratch →
        host.machine.reg s' r = host.machine.reg s r

section Stubs

variable {m : Mem} {unset : Nat → Byte} {code : List Byte} {stub d : Word} {pdr : Nat}

theorem ofNat_ne_of_lt {k r r' : Nat} (hr : r < 2 ^ k) (hr' : r' < 2 ^ k) (hne : r ≠ r') :
    BitVec.ofNat k r ≠ BitVec.ofNat k r' := by
  intro h
  have hnat := congrArg BitVec.toNat h
  rw [BitVec.toNat_ofNat, BitVec.toNat_ofNat, Nat.mod_eq_of_lt hr, Nat.mod_eq_of_lt hr'] at hnat
  exact hne hnat

/-- The lea of the stub names register `pdr`. -/
theorem x86_lea_reg : ∀ pdr < 16,
    X64.isRexW (0x48#8 + (if 8 ≤ pdr then 4#8 else 0#8)) ∧
    X64.isRipRelative (5#8 + BitVec.ofNat 8 (pdr % 8) <<< 3) ∧
    X64.modrmReg (0x48#8 + (if 8 ≤ pdr then 4#8 else 0#8))
      (5#8 + BitVec.ofNat 8 (pdr % 8) <<< 3) = BitVec.ofNat 4 pdr := by
  decide

theorem x86_stub_reaches (hcode : patchStubCode unset pdr d .x86_64 = .ok code)
    (h : Holds m stub.toNat code) (hroom : stub.toNat + 16 ≤ 2 ^ 64) (hpdr : pdr < 16)
    (hd : InSigned 32 (d - 12#64)) : StubReaches .x86_64 m stub (stub + d) pdr := by
  injection hcode with hcode
  subst hcode
  rw [holds_append, holds_append] at h
  obtain ⟨⟨hbytes, hrel⟩, -⟩ := h
  intro (s : X64.State) (hs : s.rip = stub)
  subst hs
  obtain ⟨hrex, hrm, hreg⟩ := x86_lea_reg pdr hpdr
  have hbyte : ∀ {i b}, _ → s.byte m i = b := fun {i b} =>
    X64.byte_of_holds (i := i) (b := b) hbytes (by simp; omega)
  have h0 : s.byte m 0 = 0x48#8 + (if 8 ≤ pdr then 4#8 else 0#8) := hbyte rfl
  have h1 : s.byte m 1 = 0x8d#8 := hbyte rfl
  have h2 : s.byte m 2 = 5#8 + BitVec.ofNat 8 (pdr % 8) <<< 3 := hbyte rfl
  have hdisp : s.disp32 m 3 = 9#64 := by
    have hsplit : Holds m s.rip.toNat ([_, _, _] ++ (le 4 (9#32).toNat ++ [_])) := hbytes
    rw [holds_append, holds_append] at hsplit
    have hnine : Holds m (s.rip.toNat + 3) (le 4 (9#32).toNat) := hsplit.2.1
    exact X64.disp32_of_holds hnine (by omega)
  have hlea : X64.step m s =
      some ⟨s.rip + 7#64, Function.update s.regs (BitVec.ofNat 4 pdr) (s.rip + 16#64)⟩ := by
    rw [X64.step_lea (by rwa [h0]) h1 (by rwa [h2]), h0, h2, hreg, hdisp, BitVec.add_assoc]
    rfl
  -- the second instruction, with the relative distance behind it
  have hnext : (s.rip + 7#64).toNat = s.rip.toNat + 7 := by
    rw [BitVec.toNat_add, BitVec.toNat_ofNat]
    omega
  have hjmp : ∀ regs, X64.step m ⟨s.rip + 7#64, regs⟩ = some ⟨s.rip + d, regs⟩ := by
    intro regs
    have hop : X64.State.byte m ⟨s.rip + 7#64, regs⟩ 0 = 0xe9#8 := by
      rw [X64.State.byte, BitVec.add_zero, hnext]
      exact byte_of_holds (i := 7) hbytes rfl
    have hrel' : X64.State.disp32 m ⟨s.rip + 7#64, regs⟩ 1 = d - 12#64 := by
      have hcut : le 4 (d - 12#64).toNat = le 4 ((d - 12#64).setWidth 32).toNat :=
        Bytes.le_congr (by rw [BitVec.toNat_setWidth]; simp)
      rw [X64.disp32_of_holds (x := (d - 12#64).setWidth 32) (by rw [hnext, ← hcut]; exact hrel)
        (by rw [hnext]; omega)]
      exact (signExtend_setWidth_iff (by decide) (by decide) _).mpr hd
    have htarget : s.rip + 7#64 + 5#64 + (d - 12#64) = s.rip + d := by bv_omega
    rw [X64.step_jmp hop, hrel', htarget]
  let s' : X64.State := ⟨s.rip + d, Function.update s.regs (BitVec.ofNat 4 pdr) (s.rip + 16#64)⟩
  refine ⟨s', ?_, rfl, ?_, ?_⟩
  · exact (steps_succ hlea 1).trans (steps_succ (hjmp _) 0)
  · exact Function.update_self _ _ _
  · intro r hr hne _
    exact Function.update_of_ne (ofNat_ne_of_lt (k := 4) hr hpdr hne) _ _

/-- The adr of the stub names register `pdr` and the byte 16 on. -/
theorem aarch64_adr_reg : ∀ pdr < 31,
    A64.op (0x10000080#32 + BitVec.ofNat 32 pdr) = some .adr ∧
    A64.rd (0x10000080#32 + BitVec.ofNat 32 pdr) = BitVec.ofNat 5 pdr ∧
    A64.imm21 (0x10000080#32 + BitVec.ofNat 32 pdr) = 16#64 ∧ BitVec.ofNat 5 pdr ≠ 31#5 := by
  decide

theorem aarch64_stub_reaches (hcode : patchStubCode unset pdr d .aarch64 = .ok code)
    (h : Holds m stub.toNat code) (hroom : stub.toNat + 16 ≤ 2 ^ 64) (hpdr : pdr < 31)
    (hd4 : d.toNat % 4 = 0) : StubReaches .aarch64 m stub (stub + d) pdr := by
  rw [patchStubCode] at hcode
  cases hcheck : checkSignedBits (d - 4#64) 28 with
  | false =>
      rw [hcheck] at hcode
      cases hcode
  | true =>
      rw [hcheck, if_pos rfl] at hcode
      injection hcode with hcode
      subst hcode
      rw [holds_append] at h
      have hadr := holds_code32 (i := 0) h.1 rfl
      have hb := holds_code32 (i := 1) h.1 rfl
      have hword : BitVec.ofNat 32 ((rtldBlend 0x03ffffff#64
          ((d - 4#64).sshiftRight 2)).value 0x14000000) =
          blend 0x03ffffff#32 (((d - 4#64).sshiftRight 2).setWidth 32) 0x14000000#32 := by
        rw [rtldBlend_u32 (by decide) (by decide), Write.value, BitVec.ofNat_toNat,
          BitVec.setWidth_eq]
        rfl
      rw [hword] at hb
      intro (s : A64.State) (hs : s.pc = stub)
      subst hs
      obtain ⟨hop, hrd, himm, hne⟩ := aarch64_adr_reg pdr hpdr
      have hstep : A64.step m s =
          some (s.set (BitVec.ofNat 5 pdr) (s.pc + 16#64)).next := by
        rw [A64.step_of_holds hadr, A64.exec, hop]
        simp only [hrd, himm]
      have hnext : (s.set (BitVec.ofNat 5 pdr) (s.pc + 16#64)).next.pc = s.pc + 4#64 := by
        rw [A64.next_pc, A64.set_pc]
      have hbranch : word32 m (s.set (BitVec.ofNat 5 pdr) (s.pc + 16#64)).next.pc =
          blend 0x03ffffff#32 (((d - 4#64).sshiftRight 2).setWidth 32) 0x14000000#32 := by
        have haddr : (s.pc + 4#64).toNat = s.pc.toNat + 4 * 1 := by
          rw [BitVec.toNat_add, BitVec.toNat_ofNat]
          omega
        rw [hnext, word32, haddr, load_of_holds_le rfl hb]
      obtain ⟨s', hjump, hpc, -, hx, hlink⟩ := step_branch (.inl (by decide)) hbranch
        (by bv_omega) ((checkSignedBits_iff _ _).mp hcheck).1
      have hlink' : s'.x 30#5 = (s.set (BitVec.ofNat 5 pdr) (s.pc + 16#64)).next.x 30#5 := by
        rw [hlink, if_neg (by decide)]
      have hregs : ∀ r, s'.x r = (s.set (BitVec.ofNat 5 pdr) (s.pc + 16#64)).next.x r := by
        intro r
        by_cases hr : r = 30#5
        · rw [hr, hlink']
        · exact hx r hr
      refine ⟨s', (steps_succ hstep 1).trans (steps_succ hjump 0), ?_, ?_, ?_⟩
      · show s'.pc = s.pc + d
        rw [hpc, hnext]
        bv_omega
      · show s'.x (BitVec.ofNat 5 pdr) = s.pc + 16#64
        rw [hregs, A64.next_x]
        simp [A64.State.set, hne]
      · intro r hr hpd _
        show s'.x (BitVec.ofNat 5 r) = s.x (BitVec.ofNat 5 r)
        rw [hregs, A64.next_x, A64.set_x_of_ne _ _
          (ofNat_ne_of_lt (Nat.lt_trans hr (by decide)) (Nat.lt_trans hpdr (by decide)) hpd)]

/-- The first two words of the RISC-V stub name register `pdr`. -/
theorem riscv_pdr_reg : ∀ pdr < 32,
    (Rv64.opcode (0x00000017#32 ||| BitVec.ofNat 32 pdr <<< 7) = 0x17#7 ∧
      Rv64.rd (0x00000017#32 ||| BitVec.ofNat 32 pdr <<< 7) = BitVec.ofNat 5 pdr ∧
      Rv64.immU (0x00000017#32 ||| BitVec.ofNat 32 pdr <<< 7) = 0#64) ∧
    Rv64.opcode (0x01000013#32 ||| BitVec.ofNat 32 pdr <<< 7 ||| BitVec.ofNat 32 pdr <<< 15) =
      0x13#7 ∧
    Rv64.funct3 (0x01000013#32 ||| BitVec.ofNat 32 pdr <<< 7 ||| BitVec.ofNat 32 pdr <<< 15) =
      0#3 ∧
    Rv64.rd (0x01000013#32 ||| BitVec.ofNat 32 pdr <<< 7 ||| BitVec.ofNat 32 pdr <<< 15) =
      BitVec.ofNat 5 pdr ∧
    Rv64.rs1 (0x01000013#32 ||| BitVec.ofNat 32 pdr <<< 7 ||| BitVec.ofNat 32 pdr <<< 15) =
      BitVec.ofNat 5 pdr ∧
    Rv64.immI (0x01000013#32 ||| BitVec.ofNat 32 pdr <<< 7 ||| BitVec.ofNat 32 pdr <<< 15) =
      16#64 := by
  decide

theorem riscv_stub_reaches (hcode : patchStubCode unset pdr d .riscv = .ok code)
    (h : Holds m stub.toNat code) (hroom : stub.toNat + 16 ≤ 2 ^ 64) (hpdr : 0 < pdr ∧ pdr < 32)
    (hscratch : pdr ≠ 5) (hd : Spans (d - 8#64)) (heven : (stub + d).toNat % 2 = 0) :
    StubReaches .riscv m stub (stub + d) pdr := by
  injection hcode with hcode
  subst hcode
  have hlen : stub.toNat + 4 * 4 ≤ 2 ^ 64 := by omega
  intro (s : Rv64.State) (hs : s.pc = stub)
  subst hs
  obtain ⟨⟨hopU, hrdU, himmU⟩, hopI, hf, hrdI, hrs, himmI⟩ := riscv_pdr_reg pdr hpdr.2
  have h0 : BitVec.ofNat 5 pdr ≠ 0#5 :=
    ofNat_ne_of_lt (k := 5) hpdr.2 (by decide) (Nat.ne_of_gt hpdr.1)
  have h5 : BitVec.ofNat 5 pdr ≠ 5#5 := ofNat_ne_of_lt (k := 5) hpdr.2 (by decide) hscratch
  have hauipc : Rv64.step m s =
      some ⟨s.pc + 4#64, Function.update s.regs (BitVec.ofNat 5 pdr) s.pc⟩ := by
    rw [Rv64.step_code h hlen (i := 0) rfl (by simp), Rv64.execMem_auipc s hopU, hrdU, himmU,
      BitVec.add_zero]
  have haddi : Rv64.step m ⟨s.pc + 4#64, Function.update s.regs (BitVec.ofNat 5 pdr) s.pc⟩ =
      some ⟨s.pc + 8#64, Function.update s.regs (BitVec.ofNat 5 pdr) (s.pc + 16#64)⟩ := by
    rw [Rv64.step_code h hlen (i := 1) rfl rfl, Rv64.execMem_addi _ hopI hf, hrdI, hrs, himmI,
      Rv64.get_update_same h0, Function.update_idem, BitVec.add_assoc]
    rfl
  obtain ⟨hop2, hrd2⟩ := auipcWord_fields (d - 8#64)
  obtain ⟨hop3, (hrd3 : _ = 0#5), hf3, (hrs3 : _ = 5#5)⟩ :=
    lowWord_fields 0x00028067#32 (by decide) (d - 8#64)
  have hsum : Rv64.immU (auipcWord 0x00000297#32 (d - 8#64)) +
      Rv64.immI (lowWord 0x00028067#32 (d - 8#64)) = d - 8#64 :=
    immU_add_immI (d - 8#64) (by decide) (by decide) hd
  -- the upper part of the target, in t0
  let hi : Word := s.pc + 8#64 + Rv64.immU (auipcWord 0x00000297#32 (d - 8#64))
  have hauipc' : ∀ regs, Rv64.step m ⟨s.pc + 8#64, regs⟩ =
      some ⟨s.pc + 12#64, Function.update regs 5#5 hi⟩ := by
    intro regs
    rw [Rv64.step_code h hlen (i := 2) rfl rfl, Rv64.execMem_auipc _ hop2, hrd2]
    exact congrArg (fun pc => some (Rv64.State.mk pc _)) (BitVec.add_assoc s.pc 8#64 4#64)
  have htarget : (hi + Rv64.immI (lowWord 0x00028067#32 (d - 8#64))) &&& ~~~1#64 = s.pc + d := by
    have hadd : s.pc + 8#64 + (d - 8#64) = s.pc + d := by bv_omega
    rw [BitVec.add_assoc (s.pc + 8#64), hsum, hadd]
    exact (and_not_one_eq_iff rfl).mpr ⟨heven, rfl⟩
  have hjalr : ∀ regs, Rv64.step m ⟨s.pc + 12#64, Function.update regs 5#5 hi⟩ =
      some ⟨s.pc + d,
        Function.update (Function.update regs 5#5 hi) 0#5 (s.pc + 12#64 + 4#64)⟩ := by
    intro regs
    rw [Rv64.step_code h hlen (i := 3) rfl rfl, Rv64.execMem_jalr _ hop3 hf3, hrd3, hrs3,
      Rv64.get_update_same (by decide), htarget]
  let s' : Rv64.State := ⟨s.pc + d, Function.update (Function.update
    (Function.update s.regs (BitVec.ofNat 5 pdr) (s.pc + 16#64)) 5#5 hi) 0#5
    (s.pc + 12#64 + 4#64)⟩
  refine ⟨s', ?_, rfl, ?_, ?_⟩
  · exact (steps_succ hauipc 3).trans ((steps_succ haddi 2).trans
      ((steps_succ (hauipc' _) 1).trans (steps_succ (hjalr _) 0)))
  · show s'.get (BitVec.ofNat 5 pdr) = s.pc + 16#64
    rw [Rv64.get_update_zero _ _ s.pc, Rv64.get_update_of_ne h5 _ s.pc, Rv64.get_update_same h0]
  · intro r hr hne hr5
    have h5' : BitVec.ofNat 5 r ≠ 5#5 :=
      ofNat_ne_of_lt (k := 5) hr.2 (by decide) (fun h => hr5 (congrArg some h))
    show s'.get (BitVec.ofNat 5 r) = s.get (BitVec.ofNat 5 r)
    rw [Rv64.get_update_zero _ _ s.pc, Rv64.get_update_of_ne h5' _ s.pc,
      Rv64.get_update_of_ne (ofNat_ne_of_lt (k := 5) hr.2 hpdr.2 hne) _ s.pc]

end Stubs

/-! ## Slots of the PLT -/

/-- The instructions of a slot. -/
def Host.slotSteps : Host → Nat
  | x86_64 => 1
  | aarch64 => 2
  | riscv => 3

/-- The register a slot loads the address to. -/
def Host.slotScratch : Host → Option Nat
  | x86_64 => none
  | aarch64 => some 17
  | riscv => some 5

/-- The displacement of a slot can be encoded. -/
def Host.SlotFits (offset : Word) : Host → Prop
  | x86_64 => InSigned 32 (offset - 6#64)
  | aarch64 => InSigned 21 offset
  | riscv => Spans offset

/-- What a jump can lead to: the instructions of RISC-V stand at even addresses. -/
def Host.IsTarget (func : Word) : Host → Prop
  | x86_64 => True
  | aarch64 => True
  | riscv => func.toNat % 2 = 0

/-- Executing the code at `slot` leads to `func`. -/
def SlotReaches (host : Host) (m : Mem) (slot func : Word) : Prop :=
  ∀ s : host.machine.State, host.machine.pc s = slot →
    ∃ s', steps (host.machine.step m) host.slotSteps s = some s' ∧
      host.machine.pc s' = func ∧
      ∀ r, host.IsReg r → some r ≠ host.slotScratch → host.machine.reg s' r = host.machine.reg s r

section Slots

variable {m : Mem} {slot offset func : Word}

theorem word64_of_holds {a : Word} (h : Holds m a.toNat (le 8 func.toNat)) : word64 m a = func :=
  load_of_holds_le rfl h

/-- The opcode and the displacement of the jump through memory. -/
theorem x86_slot_bytes (e : Word) :
    le 8 (0x0b0f0000000025ff#64 ||| e <<< 16).toNat = [0xff#8, 0x25#8] ++
      (le 4 (e.setWidth 32).toNat ++
        le 2 ((0x0b0f0000000025ff#64 ||| e <<< 16).toNat / 256 ^ 2 / 256 ^ 4)) := by
  have hop : (0x0b0f0000000025ff#64 ||| e <<< 16).extractLsb' 0 16 = 0x25ff#16 := by
    apply BitVec.eq_of_getLsbD_eq
    intro i hi
    interval_cases i <;> simp
  have hdisp : (0x0b0f0000000025ff#64 ||| e <<< 16).extractLsb' 16 32 = e.setWidth 32 := by
    apply BitVec.eq_of_getLsbD_eq
    intro i hi
    interval_cases i <;> simp
  have hop' := congrArg BitVec.toNat hop
  have hdisp' := congrArg BitVec.toNat hdisp
  rw [BitVec.extractLsb'_toNat, Nat.shiftRight_eq_div_pow] at hop' hdisp'
  have hlow : le 2 (0x0b0f0000000025ff#64 ||| e <<< 16).toNat = le 2 0x25ff :=
    Bytes.le_congr (by simpa using hop')
  have hmid : le 4 ((0x0b0f0000000025ff#64 ||| e <<< 16).toNat / 256 ^ 2) =
      le 4 (e.setWidth 32).toNat :=
    Bytes.le_congr (by rw [← hdisp']; simp)
  rw [Bytes.le_add 2 6, Bytes.le_add 4 2, hlow, hmid]
  rfl

theorem x86_slot_reaches (h : Holds m slot.toNat (pltSlot offset .x86_64))
    (hdata : Holds m (slot + offset).toNat (le 8 func.toNat)) (hroom : slot.toNat + 8 ≤ 2 ^ 64)
    (hfits : InSigned 32 (offset - 6#64)) : SlotReaches .x86_64 m slot func := by
  rw [pltSlot, x86_slot_bytes, holds_append, holds_append] at h
  obtain ⟨hop, hdisp, -⟩ := h
  intro (s : X64.State) (hs : s.rip = slot)
  subst hs
  have hlen : s.rip.toNat + 2 ≤ 2 ^ 64 := by omega
  have h0 : s.byte m 0 = 0xff#8 := X64.byte_of_holds hop hlen rfl
  have h1 : s.byte m 1 = 0x25#8 := X64.byte_of_holds hop hlen rfl
  have hd : s.disp32 m 2 = offset - 6#64 :=
    (X64.disp32_of_holds (i := 2) hdisp (by omega)).trans
      ((signExtend_setWidth_iff (by decide) (by decide) _).mpr hfits)
  have haddr : s.rip + 6#64 + (offset - 6#64) = s.rip + offset := by bv_omega
  have hstep : X64.step m s = some { s with rip := func } := by
    rw [X64.step_jmpMem h0 h1, hd, haddr, word64_of_holds hdata]
  refine ⟨{ s with rip := func }, ?_, rfl, ?_⟩
  · exact steps_succ hstep 0
  · intro r _ _
    rfl

/-- The load of the slot, with the distance in its field. -/
theorem aarch64_ldr_word (h4 : offset.toNat % 4 = 0) (hlt : offset.toNat < 2 ^ 20) :
    A64.op ((0x58000011#64 ||| offset <<< 3).setWidth 32) = some .ldrLiteral ∧
    A64.rd ((0x58000011#64 ||| offset <<< 3).setWidth 32) = 17#5 ∧
    A64.imm19 ((0x58000011#64 ||| offset <<< 3).setWidth 32) = offset := by
  -- the distance has bits in the field only
  have hshift : offset <<< 3 &&& 0x00ffffe0#64 = offset <<< 3 := by
    have hmask : ∀ i : Fin 64, 5 ≤ i.val → i.val < 23 → (0x00ffffe0#64).getLsbD i = true := by
      decide
    apply BitVec.eq_of_getLsbD_eq
    intro i hi
    rw [BitVec.getLsbD_and, BitVec.getLsbD_shiftLeft]
    by_cases hlow : i - 3 < 2
    · rw [getLsbD_of_dvd (k := 2) h4 hlow, Bool.and_false, Bool.false_and]
    · by_cases hhigh : i < 23
      · rw [hmask ⟨i, hi⟩ (by simp; omega) hhigh, Bool.and_true]
      · have hbit : offset.getLsbD (i - 3) = false := Nat.testBit_lt_two_pow
          (Nat.lt_of_lt_of_le hlt (Nat.pow_le_pow_right (by decide) (by omega)))
        rw [hbit, Bool.and_false, Bool.false_and]
  have hword : (0x58000011#64 ||| offset <<< 3).setWidth 32 =
      blend 0x00ffffe0#32 ((offset <<< 3).setWidth 32) 0x58000011#32 := by
    have hblend := setWidth_blend (w := 64) (by decide) 0x00ffffe0#64 (offset <<< 3) 0x58000011#32
    rw [blend, hshift] at hblend
    rw [BitVec.or_comm]
    exact hblend
  have hcut : ((offset <<< 3).setWidth 32).extractLsb' 5 19 ++ 0#2 = offset.setWidth 21 := by
    apply BitVec.eq_of_getLsbD_eq
    intro i hi
    rw [BitVec.getLsbD_append, BitVec.getLsbD_setWidth]
    by_cases h2 : i < 2
    · rw [if_pos h2, getLsbD_of_dvd (k := 2) h4 h2]
      simp
    · rw [if_neg h2, BitVec.getLsbD_extractLsb', BitVec.getLsbD_setWidth,
        BitVec.getLsbD_shiftLeft, show 5 + (i - 2) - 3 = i by omega]
      simp [hi, show i - 2 < 19 by omega, show 5 + (i - 2) < 32 by omega,
        show 5 + (i - 2) < 64 by omega, show ¬ 5 + (i - 2) < 3 by omega]
  have hfits : InSigned 21 offset := by
    rw [InSigned, BitVec.toInt_eq_toNat_of_lt (by omega)]
    omega
  rw [hword]
  refine ⟨A64.op_blend (by decide) (by decide) _, ?_, ?_⟩
  · exact Spares.extractLsb'_blend (by decide) _ _
  · rw [A64.imm19, Covers.extractLsb'_blend (by decide), hcut]
    exact (signExtend_setWidth_iff (by decide) (by decide) offset).mpr hfits

theorem aarch64_slot_reaches (h : Holds m slot.toNat (pltSlot offset .aarch64))
    (hdata : Holds m (slot + offset).toNat (le 8 func.toNat)) (hroom : slot.toNat + 8 ≤ 2 ^ 64)
    (h4 : offset.toNat % 4 = 0) (hlt : offset.toNat < 2 ^ 20) :
    SlotReaches .aarch64 m slot func := by
  intro (s : A64.State) (hs : s.pc = slot)
  subst hs
  obtain ⟨hop, hrd, himm⟩ := aarch64_ldr_word h4 hlt
  have hload : A64.step m s = some (s.set 17#5 func).next := by
    rw [A64.step_of_holds (holds_code32 (i := 0) h rfl), A64.exec, hop]
    simp only [hrd, himm, word64_of_holds hdata]
  have hnext : (s.set 17#5 func).next.pc.toNat = s.pc.toNat + 4 * 1 := by
    rw [A64.next_pc, A64.set_pc, BitVec.toNat_add, BitVec.toNat_ofNat]
    omega
  have hbr : A64.step m (s.set 17#5 func).next = some ((s.set 17#5 func).next.jump func) := by
    have hword := holds_code32 (i := 1) h rfl
    rw [← hnext] at hword
    rw [A64.step_of_holds hword]
    show some ((s.set 17#5 func).next.jump ((s.set 17#5 func).get 17#5)) = _
    rw [A64.get_set_same s func (by decide)]
  refine ⟨(s.set 17#5 func).next.jump func, ?_, rfl, ?_⟩
  · exact (steps_succ hload 1).trans (steps_succ hbr 0)
  · intro r hr hne
    exact A64.set_x_of_ne _ _ (ofNat_ne_of_lt (k := 5) (Nat.lt_trans hr (by decide)) (by decide)
      (fun h => hne (congrArg some h)))

theorem riscv_slot_reaches (h : Holds m slot.toNat (pltSlot offset .riscv))
    (hdata : Holds m (slot + offset).toNat (le 8 func.toNat)) (hroom : slot.toNat + 16 ≤ 2 ^ 64)
    (hfits : Spans offset) (htarget : func.toNat % 2 = 0) : SlotReaches .riscv m slot func := by
  intro (s : Rv64.State) (hs : s.pc = slot)
  subst hs
  obtain ⟨hop0, hrd0⟩ := auipcWord_fields offset
  obtain ⟨hop1, (hrd1 : _ = 5#5), hf1, (hrs1 : _ = 5#5)⟩ :=
    lowWord_fields 0x0002b283#32 (by decide) offset
  have hw : Rv64.IsLoadJump 5#5 (auipcWord 0x00000297#32 offset) (lowWord 0x0002b283#32 offset)
      0x00028067#32 :=
    ⟨⟨hop0, hrd0⟩, ⟨hop1, hf1, hrd1, hrs1⟩, by decide⟩
  have hcode : Holds m s.pc.toNat (code32 [auipcWord 0x00000297#32 offset,
      lowWord 0x0002b283#32 offset, 0x00028067#32]) := by
    have hsplit : Holds m s.pc.toNat (code32 ([_, _, _] ++ [0x00000013#32])) := h
    exact (holds_code32_append.mp hsplit).1
  obtain ⟨s', hsteps, hpc, hregs⟩ := hw.steps (by decide) hcode (by omega)
  refine ⟨s', hsteps, ?_, ?_⟩
  · show s'.pc = func
    rw [hpc, BitVec.add_assoc, immU_add_immI offset (by decide) (by decide) hfits,
      word64_of_holds hdata]
    exact (and_not_one_eq_iff rfl).mpr ⟨htarget, rfl⟩
  · intro r hr hne
    exact hregs _ (ofNat_ne_of_lt (k := 5) hr.2 (by decide) (fun h => hne (congrArg some h)))

end Slots

/-! ## What is written -/

theorem length_patchStubCode {unset : Nat → Byte} {pdr : Nat} {d : Word} {host : Host}
    {code : List Byte} (h : patchStubCode unset pdr d host = .ok code) : code.length = 16 := by
  cases host with
  | x86_64 =>
      injection h with h
      rw [← h]
      simp
  | aarch64 =>
      rw [patchStubCode] at h
      split at h
      · injection h with h
        rw [← h]
        simp
      · cases h
  | riscv =>
      injection h with h
      rw [← h]
      simp

theorem rtldPatchCreateStub_holds {host : Host} {memAllocCode : Word → Word → Except Errno Word}
    {unset : Nat → Byte} {plt stub : Word} {pdr : Nat} {patchData : RtldPatchData} {m m' : Mem}
    (h : rtldPatchCreateStub host memAllocCode unset plt pdr patchData m = .ok (stub, m')) :
    ∃ code, patchStubCode unset pdr (plt + BitVec.ofNat 64 (pltFuncSize host) - stub) host =
        .ok code ∧
      Holds m' stub.toNat code ∧ Holds m' (stub.toNat + 16) patchData.bytes := by
  rw [rtldPatchCreateStub] at h
  cases halloc : memAllocCode 0x30#64 0x40#64 with
  | error e =>
      rw [halloc] at h
      cases h
  | ok a =>
      rw [halloc] at h
      cases hcode : patchStubCode unset pdr (plt + BitVec.ofNat 64 (pltFuncSize host) - a) host with
      | error e => simp [hcode, Bind.bind, Except.bind] at h
      | ok code =>
          simp only [hcode, Bind.bind, Except.bind] at h
          cases h
          have hbytes := holds_writeBytes m stub.toNat (code ++ patchData.bytes)
          rw [holds_append, length_patchStubCode hcode] at hbytes
          exact ⟨code, hcode, hbytes⟩

theorem length_pltSlot (offset : Word) (host : Host) :
    (pltSlot offset host).length = pltFuncSize host := by
  cases host <;> simp [pltSlot, pltFuncSize]

theorem le_pltDataOffset (host : Host) (n : Nat) :
    n * pltFuncSize host ≤ pltDataOffset host n := by
  rw [pltDataOffset]
  omega

/-- Each slot and its address are where the offset says. -/
theorem pltBytes_holds {host : Host} {unset : Nat → Byte} {funcs : List Word} {m : Mem} {a : Nat}
    (h : Holds m a (pltBytes host unset funcs)) {i : Nat} {func : Word}
    (hi : funcs[i]? = some func) :
    Holds m (a + pltFuncSize host * i) (pltSlot (pltOffset host funcs.length i) host) ∧
      Holds m (a + (pltDataOffset host funcs.length + 8 * i)) (le 8 func.toNat) := by
  have hlt : i < funcs.length := (List.getElem?_eq_some_iff.mp hi).1
  have hcode := le_pltDataOffset host funcs.length
  rw [pltBytes, holds_append, holds_append] at h
  obtain ⟨⟨hslots, -⟩, hdata⟩ := h
  constructor
  · exact holds_flatMap (fun j => length_pltSlot _ host) _ hslots (by simp [hlt])
  · have hlen : ((List.range funcs.length).flatMap fun j =>
        pltSlot (pltOffset host funcs.length j) host).length =
        funcs.length * pltFuncSize host := by
      simp [List.length_flatMap, length_pltSlot]
    rw [List.length_append, hlen, List.length_map, List.length_range,
      Nat.add_sub_of_le hcode] at hdata
    have hfunc := holds_flatMap (fun f : Word => Bytes.length_le 8 f.toNat) _ hdata hi
    rwa [Nat.add_assoc] at hfunc

theorem pltCreate_holds {host : Host} {memAllocCode : Word → Word → Except Errno Word}
    {unset : Nat → Byte} {quick full plt : Word} {entries : List Word} {m m' : Mem}
    (h : pltCreate host memAllocCode unset quick full entries m = .ok (plt, m')) :
    Holds m' plt.toNat (pltBytes host unset (pltFuncs quick full entries)) := by
  rw [pltCreate] at h
  simp only [Bind.bind, Except.bind] at h
  split at h
  · cases h
  · cases h
    exact holds_writeBytes _ _ _

/-! ## Distances in the arena -/

/-- The distance between two addresses that are not far from each other. -/
theorem toInt_sub_of_near {x y : Word} (hlow : -2 ^ 63 ≤ (x.toNat : Int) - y.toNat)
    (hhigh : (x.toNat : Int) - y.toNat < 2 ^ 63) : (x - y).toInt = (x.toNat : Int) - y.toNat := by
  rw [BitVec.toInt_sub, BitVec.toInt_eq_toNat_bmod, BitVec.toInt_eq_toNat_bmod, Int.sub_bmod_bmod,
    Int.bmod_sub_bmod]
  exact Int.bmod_eq_of_le (by push_cast; omega) (by push_cast; omega)

theorem InCodeArena.toNat_add {a : Word} {size k : Nat} (h : InCodeArena a size) (hk : k ≤ size) :
    (a + BitVec.ofNat 64 k).toNat = a.toNat + k := by
  have hstop := h.stop
  rw [BitVec.toNat_add, BitVec.toNat_ofNat]
  omega

/-- From the code of a stub to slot 1. -/
theorem stub_distance {plt stub : Word} {size k j : Nat} (hplt : InCodeArena plt size)
    (hstub : InCodeArena stub 0x30) (hj : j ≤ size) (hk : k ≤ 0x30) :
    (plt + BitVec.ofNat 64 j - stub - BitVec.ofNat 64 k).toInt =
      (plt.toNat + j : Int) - (stub.toNat + k) := by
  have hcollect : plt + BitVec.ofNat 64 j - stub - BitVec.ofNat 64 k =
      plt + BitVec.ofNat 64 j - (stub + BitVec.ofNat 64 k) := by bv_omega
  have hx := hplt.toNat_add hj
  have hy := hstub.toNat_add hk
  obtain ⟨hplt0, hplt1, -⟩ := hplt
  obtain ⟨hstub0, hstub1, -⟩ := hstub
  rw [hcollect, toInt_sub_of_near (by omega) (by omega), hx, hy]
  push_cast
  rfl

theorem stub_reaches {host : Host} {m : Mem} {unset : Nat → Byte} {code : List Byte}
    {plt stub : Word} {pdr : Nat}
    (hcode : patchStubCode unset pdr (plt + BitVec.ofNat 64 (pltFuncSize host) - stub) host =
      .ok code)
    (h : Holds m stub.toNat code) (hplt : InCodeArena plt (2 * pltFuncSize host))
    (hstub : InCodeArena stub 0x30) (hpdr : host.IsReg pdr)
    (hscratch : some pdr ≠ host.stubScratch) :
    StubReaches host m stub (plt + BitVec.ofNat 64 (pltFuncSize host)) pdr := by
  have hroom : stub.toNat + 16 ≤ 2 ^ 64 := by
    have hstop := hstub.stop
    omega
  have htarget : stub + (plt + BitVec.ofNat 64 (pltFuncSize host) - stub) =
      plt + BitVec.ofNat 64 (pltFuncSize host) := by bv_omega
  have hslot : (plt + BitVec.ofNat 64 (pltFuncSize host)).toNat = plt.toNat + pltFuncSize host :=
    hplt.toNat_add (by omega)
  have hdist := fun k => stub_distance (k := k) (j := pltFuncSize host) hplt hstub (by omega)
  obtain ⟨hplt0, hplt1, hplt2⟩ := hplt
  obtain ⟨hstub0, hstub1, hstub2⟩ := hstub
  rw [← htarget]
  cases host with
  | x86_64 =>
      apply x86_stub_reaches hcode h hroom hpdr
      rw [InSigned, hdist 12 (by decide)]
      simp only [pltFuncSize] at *
      push_cast
      omega
  | aarch64 =>
      apply aarch64_stub_reaches hcode h hroom hpdr
      rw [BitVec.toNat_sub, hslot]
      simp only [pltFuncSize] at *
      omega
  | riscv =>
      apply riscv_stub_reaches hcode h hroom hpdr (fun h => hscratch (congrArg some h))
      · rw [Spans, hdist 8 (by decide)]
        simp only [pltFuncSize] at *
        push_cast
        omega
      · rw [htarget, hslot]
        simp only [pltFuncSize] at *
        omega

/-- A slot and its address, `pltOffset` apart. -/
theorem add_pltOffset (host : Host) (n i : Nat) (plt : Word) :
    plt + BitVec.ofNat 64 (pltFuncSize host * i) + pltOffset host n i =
      plt + BitVec.ofNat 64 (pltDataOffset host n + 8 * i) := by
  rw [pltOffset]
  generalize BitVec.ofNat 64 (pltFuncSize host * i) = x
  generalize BitVec.ofNat 64 (pltDataOffset host n + 8 * i) = y
  bv_omega

/-- The slots of AArch64 are as long as the addresses. -/
theorem pltOffset_aarch64 (n i : Nat) :
    pltOffset .aarch64 n i = BitVec.ofNat 64 (pltDataOffset .aarch64 n) := by
  rw [pltOffset, pltFuncSize, BitVec.ofNat_add]
  exact BitVec.add_sub_cancel _ _

theorem slot_reaches {host : Host} {m : Mem} {unset : Nat → Byte} {funcs : List Word} {plt : Word}
    (h : Holds m plt.toNat (pltBytes host unset funcs))
    (hplt : InCodeArena plt (pltDataOffset host funcs.length + 8 * funcs.length)) {i : Nat}
    {func : Word} (hi : funcs[i]? = some func) (htarget : host.IsTarget func)
    (hfits : host.SlotFits (pltOffset host funcs.length i)) :
    SlotReaches host m (plt + BitVec.ofNat 64 (pltFuncSize host * i)) func := by
  obtain ⟨hslot, hdata⟩ := pltBytes_holds h hi
  have hlt : i < funcs.length := (List.getElem?_eq_some_iff.mp hi).1
  have hcode : pltFuncSize host * i + pltFuncSize host ≤ pltDataOffset host funcs.length :=
    calc pltFuncSize host * i + pltFuncSize host = (i + 1) * pltFuncSize host := by ring
      _ ≤ funcs.length * pltFuncSize host := Nat.mul_le_mul_right _ hlt
      _ ≤ pltDataOffset host funcs.length := le_pltDataOffset host funcs.length
  have haddr := hplt.toNat_add (k := pltFuncSize host * i) (by omega)
  have hroom : (plt + BitVec.ofNat 64 (pltFuncSize host * i)).toNat + pltFuncSize host ≤
      2 ^ 64 := by
    have hstop := hplt.stop
    omega
  rw [← haddr] at hslot
  rw [← hplt.toNat_add (k := pltDataOffset host funcs.length + 8 * i) (by omega),
    ← add_pltOffset] at hdata
  cases host with
  | x86_64 => exact x86_slot_reaches hslot hdata hroom hfits
  | aarch64 =>
      have hstop := hplt.stop
      have hstart := hplt.start
      have hnat : (pltOffset .aarch64 funcs.length i).toNat =
          pltDataOffset .aarch64 funcs.length := by
        rw [pltOffset_aarch64, BitVec.toNat_ofNat]
        omega
      apply aarch64_slot_reaches hslot hdata hroom
      · rw [hnat, pltDataOffset]
        omega
      · have hhigh := hfits.2
        rw [BitVec.toInt_eq_toNat_of_lt (by omega)] at hhigh
        omega
  | riscv => exact riscv_slot_reaches hslot hdata hroom hfits htarget

/-- **Patch stubs and slots of the PLT go where they should.** A stub anywhere in the code
arena leaves the address of a copy of its record in the register of the dispatcher and goes
on at slot 1; a slot goes on at the address stored for its entry. -/
theorem stubs_and_plt_reach (host : Host) (memAllocCode : Word → Word → Except Errno Word)
    (unset : Nat → Byte) (m m' : Mem) :
    (∀ plt pdr patchData stub,
      rtldPatchCreateStub host memAllocCode unset plt pdr patchData m = .ok (stub, m') →
      InCodeArena plt (2 * pltFuncSize host) → InCodeArena stub 0x30 → host.IsReg pdr →
      some pdr ≠ host.stubScratch →
      StubReaches host m' stub (plt + BitVec.ofNat 64 (pltFuncSize host)) pdr ∧
        Holds m' (stub + 16#64).toNat patchData.bytes) ∧
    ∀ quickDispatchFunc fullDispatchFunc pltEntries plt,
      pltCreate host memAllocCode unset quickDispatchFunc fullDispatchFunc pltEntries m =
        .ok (plt, m') →
      InCodeArena plt (pltDataOffset host pltEntries.length + 8 * pltEntries.length) →
      ∀ i func, (pltFuncs quickDispatchFunc fullDispatchFunc pltEntries)[i]? = some func →
        host.IsTarget func → host.SlotFits (pltOffset host pltEntries.length i) →
        SlotReaches host m' (plt + BitVec.ofNat 64 (pltFuncSize host * i)) func := by
  constructor
  · intro plt pdr patchData stub h hplt hstub hpdr hscratch
    obtain ⟨code, hcode, hholds, hrecord⟩ := rtldPatchCreateStub_holds h
    refine ⟨stub_reaches hcode hholds hplt hstub hpdr hscratch, ?_⟩
    rwa [hstub.toNat_add (k := 16) (by decide)]
  · intro quick full entries plt h hplt i func hi htarget hfits
    have hlen : (pltFuncs quick full entries).length = entries.length := List.length_mapIdx
    rw [← hlen] at hplt hfits
    exact slot_reaches (pltCreate_holds h) hplt hi htarget hfits

/-- The stub of the RISC-V client, for its dispatcher's register t6, and the third slot of
its PLT. -/
theorem riscv_stub_and_slot_reach :
    (∃ m', rtldPatchCreateStub .riscv (fun _ _ => .ok 0x400008001000#64) (fun _ => 0#8)
        0x400008000000#64 31 ⟨0x10000#64, 2#32, 8#32, 0#64, 0x400008002000#64⟩ (fun _ => 0#8) =
          .ok (0x400008001000#64, m') ∧
      StubReaches .riscv m' 0x400008001000#64
        (0x400008000000#64 + BitVec.ofNat 64 (pltFuncSize .riscv)) 31) ∧
    ∃ m', pltCreate .riscv (fun _ _ => .ok 0x400008000000#64) (fun _ => 0#8) 0x555555560000#64
        0x555555570000#64 [0#64, 0#64, 0x555555580000#64] (fun _ => 0#8) =
          .ok (0x400008000000#64, m') ∧
      SlotReaches .riscv m' (0x400008000000#64 + BitVec.ofNat 64 (pltFuncSize .riscv * 2))
        0x555555580000#64 := by
  constructor
  · refine ⟨_, rfl, ((stubs_and_plt_reach .riscv (fun _ _ => .ok 0x400008001000#64) (fun _ => 0#8)
      (fun _ => 0#8) _).1 0x400008000000#64 31
      ⟨0x10000#64, 2#32, 8#32, 0#64, 0x400008002000#64⟩ _ rfl ?_ ?_ ?_ ?_).1⟩
    · exact ⟨by decide, by decide, by decide⟩
    · exact ⟨by decide, by decide, by decide⟩
    · exact ⟨by decide, by decide⟩
    · decide
  · refine ⟨_, rfl, (stubs_and_plt_reach .riscv (fun _ _ => .ok 0x400008000000#64) (fun _ => 0#8)
      (fun _ => 0#8) _).2 0x555555560000#64 0x555555570000#64 [0#64, 0#64, 0x555555580000#64] _ rfl
      ?_ 2 _ rfl ?_ ?_⟩
    · exact ⟨by decide, by decide, by decide⟩
    · show (0x555555580000#64).toNat % 2 = 0
      decide
    · exact ⟨by decide, by decide⟩

end Instrew.Client
