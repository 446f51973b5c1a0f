import Instrew.Client.Dispatch
import Instrew.Lib.ByteMem
import Instrew.Lib.Imm

/-!
# Relocations

`rtld_reloc_at` of `client/rtld.c` for the three hosts, with the range checks and
`rtld_blend` it is built from. The result is the returned code and the writes made to the
target, in address order from `tgt` on; an AArch64 call that is out of reach goes through
a stub, whose creation is a parameter.

The headline is `x86_rel32_exact_iff`: the 32-bit x86-64 relocations accept exactly what
fits their field, except for the greatest value of the range, which the range macros
leave out.
-/

namespace Instrew.Client

open Lib.Imm Lib.ByteMem

/-! ## Writes to the target -/

/-- One read-modify-write of the target, by its width. -/
inductive Write : Type where
  | u8 (f : BitVec 8 → BitVec 8)
  | u16 (f : BitVec 16 → BitVec 16)
  | u32 (f : BitVec 32 → BitVec 32)
  | u64 (f : BitVec 64 → BitVec 64)

/-- The number of bytes read and written. -/
def Write.width : Write → Nat
  | u8 _ => 1
  | u16 _ => 2
  | u32 _ => 4
  | u64 _ => 8

def Write.value : Write → Nat → Nat
  | u8 f, old => (f (BitVec.ofNat 8 old)).toNat
  | u16 f, old => (f (BitVec.ofNat 16 old)).toNat
  | u32 f, old => (f (BitVec.ofNat 32 old)).toNat
  | u64 f, old => (f (BitVec.ofNat 64 old)).toNat

def Write.apply (m : Mem) (tgt : Nat) (w : Write) : Mem :=
  store m tgt w.width (w.value (load m tgt w.width))

/-- The target after some writes, one behind the other. -/
def applyWrites : List Write → Mem → Nat → Mem
  | [], m, _ => m
  | w :: ws, m, tgt => applyWrites ws (w.apply m tgt) (tgt + w.width)

/-- The number of bytes some writes cover. -/
def writesWidth (ws : List Write) : Nat := (ws.map Write.width).sum

/-- A byte outside the written ones is kept. -/
theorem applyWrites_of_not_mem : ∀ (ws : List Write) (m : Mem) (tgt o : Nat),
    ¬ (tgt ≤ o ∧ o < tgt + writesWidth ws) → applyWrites ws m tgt o = m o
  | [], _, _, _, _ => rfl
  | w :: ws, m, tgt, o, ho => by
      rw [writesWidth, List.map_cons, List.sum_cons] at ho
      rw [applyWrites, applyWrites_of_not_mem ws _ _ _ (by rw [writesWidth]; omega), Write.apply,
        store_of_not_mem (by omega)]

/-- The halfword or word of memory an instruction is read from. -/
def load16 (m : Mem) (tgt : Nat) : BitVec 16 := BitVec.ofNat 16 (load m tgt 2)

def load32 (m : Mem) (tgt : Nat) : BitVec 32 := BitVec.ofNat 32 (load m tgt 4)

theorem load32_apply (m : Mem) (tgt : Nat) (f : BitVec 32 → BitVec 32) :
    load32 ((Write.u32 f).apply m tgt) tgt = f (load32 m tgt) := by
  rw [load32, Write.apply, Write.width, load_store, Write.value]
  have hlt := (f (load32 m tgt)).isLt
  apply BitVec.eq_of_toNat_eq
  rw [BitVec.toNat_ofNat, ← load32]
  omega

theorem load16_apply (m : Mem) (tgt : Nat) (f : BitVec 16 → BitVec 16) :
    load16 ((Write.u16 f).apply m tgt) tgt = f (load16 m tgt) := by
  rw [load16, Write.apply, Write.width, load_store, Write.value]
  have hlt := (f (load16 m tgt)).isLt
  apply BitVec.eq_of_toNat_eq
  rw [BitVec.toNat_ofNat, ← load16]
  omega

/-- `rtld_blend`: the mask decides the width of the access. -/
def rtldBlend (mask data : Word) : Write :=
  if BitVec.ofNat 64 (2 ^ 32 - 1) < mask then
    .u64 fun old => data &&& mask ||| old &&& ~~~mask
  else if BitVec.ofNat 64 (2 ^ 16 - 1) < mask then
    .u32 fun old => (data &&& mask ||| old.setWidth 64 &&& ~~~mask).setWidth 32
  else if BitVec.ofNat 64 (2 ^ 8 - 1) < mask then
    .u16 fun old => (data &&& mask ||| old.setWidth 64 &&& ~~~mask).setWidth 16
  else
    .u8 fun old => (data &&& mask ||| old.setWidth 64 &&& ~~~mask).setWidth 8

theorem rtldBlend_u32 {mask : Word} (hlo : BitVec.ofNat 64 (2 ^ 16 - 1) < mask)
    (hhi : ¬ BitVec.ofNat 64 (2 ^ 32 - 1) < mask) (data : Word) :
    rtldBlend mask data = .u32 (blend (mask.setWidth 32) (data.setWidth 32)) := by
  rw [rtldBlend, if_neg hhi, if_pos hlo]
  congr 1
  funext old
  exact setWidth_blend (by decide) mask data old

theorem rtldBlend_u16 {mask : Word} (hlo : BitVec.ofNat 64 (2 ^ 8 - 1) < mask)
    (hhi : ¬ BitVec.ofNat 64 (2 ^ 16 - 1) < mask) (data : Word) :
    rtldBlend mask data = .u16 (blend (mask.setWidth 16) (data.setWidth 16)) := by
  have hhi' : ¬ BitVec.ofNat 64 (2 ^ 32 - 1) < mask := by
    intro h
    exact hhi (BitVec.lt_trans (y := BitVec.ofNat 64 (2 ^ 32 - 1)) (by decide) h)
  rw [rtldBlend, if_neg hhi', if_neg hhi, if_pos hlo]
  congr 1
  funext old
  exact setWidth_blend (by decide) mask data old

/-- A blend of data computed in `uint32_t`. -/
theorem rtldBlend_word {mask : Word} (hlo : BitVec.ofNat 64 (2 ^ 16 - 1) < mask)
    (hhi : ¬ BitVec.ofNat 64 (2 ^ 32 - 1) < mask) (data : BitVec 32) :
    rtldBlend mask (data.setWidth 64) = .u32 (blend (mask.setWidth 32) data) := by
  rw [rtldBlend_u32 hlo hhi, BitVec.setWidth_setWidth (by omega), BitVec.setWidth_eq]

/-- A blend of data computed in `uint16_t`. -/
theorem rtldBlend_half {mask : Word} (hlo : BitVec.ofNat 64 (2 ^ 8 - 1) < mask)
    (hhi : ¬ BitVec.ofNat 64 (2 ^ 16 - 1) < mask) (data : BitVec 16) :
    rtldBlend mask (data.setWidth 64) = .u16 (blend (mask.setWidth 16) data) := by
  rw [rtldBlend_u16 hlo hhi, BitVec.setWidth_setWidth (by omega), BitVec.setWidth_eq]

/-! ## Range checks -/

/-- `CHECK_SIGNED_BITS`, which is what `rtld_elf_signed_range` returns. -/
def checkSignedBits (val : Word) (bits : Nat) : Bool :=
  -2 ^ (bits - 1) ≤ val.toInt && val.toInt < 2 ^ (bits - 1) - 1

/-- `CHECK_UNSIGNED_BITS`, which is what `rtld_elf_unsigned_range` returns. -/
def checkUnsignedBits (val : Word) (bits : Nat) : Bool := val.toNat < 2 ^ bits - 1

/-- The signed check leaves out the greatest number of the range. -/
theorem checkSignedBits_iff (val : Word) (bits : Nat) :
    checkSignedBits val bits = true ↔ InSigned bits val ∧ val.toInt ≠ 2 ^ (bits - 1) - 1 := by
  rw [checkSignedBits, Bool.and_eq_true, decide_eq_true_iff, decide_eq_true_iff, InSigned]
  omega

/-- On even numbers, which cannot be the one left out, the signed check is exact. -/
theorem checkSignedBits_even {val : Word} (heven : val.toNat % 2 = 0) {bits : Nat}
    (hbits : 1 < bits) : checkSignedBits val bits = true ↔ InSigned bits val := by
  have hpow : (2 : Int) ^ (bits - 1) = 2 * 2 ^ (bits - 2) := by
    rw [← pow_succ', show bits - 2 + 1 = bits - 1 by omega]
  have hne : val.toInt ≠ 2 ^ (bits - 1) - 1 := by
    rw [hpow, BitVec.toInt_eq_toNat_cond]
    split_ifs <;> omega
  rw [checkSignedBits_iff, and_iff_left hne]

/-! ## Relocation types -/

inductive Host : Type where
  | x86_64
  | aarch64
  | riscv
deriving DecidableEq

inductive RelType : Type where
  | R_X86_64_64 | R_X86_64_PC32 | R_X86_64_PLT32 | R_X86_64_32 | R_X86_64_32S | R_X86_64_PC64
  | R_AARCH64_PREL64 | R_AARCH64_PREL32 | R_AARCH64_JUMP26 | R_AARCH64_CALL26
  | R_AARCH64_ADR_PREL_PG_HI21 | R_AARCH64_ADD_ABS_LO12_NC | R_AARCH64_LDST8_ABS_LO12_NC
  | R_AARCH64_LDST16_ABS_LO12_NC | R_AARCH64_LDST32_ABS_LO12_NC
  | R_AARCH64_LDST64_ABS_LO12_NC | R_AARCH64_LDST128_ABS_LO12_NC
  | R_AARCH64_MOVW_UABS_G0_NC | R_AARCH64_MOVW_UABS_G1_NC | R_AARCH64_MOVW_UABS_G2_NC
  | R_AARCH64_MOVW_UABS_G3
  | R_RISCV_32 | R_RISCV_64 | R_RISCV_32_PCREL | R_RISCV_BRANCH | R_RISCV_JAL | R_RISCV_CALL
  | R_RISCV_CALL_PLT | R_RISCV_PCREL_HI20 | R_RISCV_PCREL_LO12_I | R_RISCV_PCREL_LO12_S
  | R_RISCV_HI20 | R_RISCV_LO12_I | R_RISCV_LO12_S | R_RISCV_ADD8 | R_RISCV_ADD16
  | R_RISCV_ADD32 | R_RISCV_ADD64 | R_RISCV_SUB8 | R_RISCV_SUB16 | R_RISCV_SUB32
  | R_RISCV_SUB64 | R_RISCV_SUB6 | R_RISCV_SET6 | R_RISCV_SET8 | R_RISCV_SET16 | R_RISCV_SET32
  | R_RISCV_RVC_BRANCH | R_RISCV_RVC_JUMP
deriving DecidableEq

open RelType

/-- The case labels of `rtld_reloc_at` compiled in for a host; the numbers are those of
the ELF supplements. -/
def relType : Host → Nat → Option RelType
  | .x86_64, 1 => some R_X86_64_64
  | .x86_64, 2 => some R_X86_64_PC32
  | .x86_64, 4 => some R_X86_64_PLT32
  | .x86_64, 10 => some R_X86_64_32
  | .x86_64, 11 => some R_X86_64_32S
  | .x86_64, 24 => some R_X86_64_PC64
  | .aarch64, 260 => some R_AARCH64_PREL64
  | .aarch64, 261 => some R_AARCH64_PREL32
  | .aarch64, 264 => some R_AARCH64_MOVW_UABS_G0_NC
  | .aarch64, 266 => some R_AARCH64_MOVW_UABS_G1_NC
  | .aarch64, 268 => some R_AARCH64_MOVW_UABS_G2_NC
  | .aarch64, 269 => some R_AARCH64_MOVW_UABS_G3
  | .aarch64, 275 => some R_AARCH64_ADR_PREL_PG_HI21
  | .aarch64, 277 => some R_AARCH64_ADD_ABS_LO12_NC
  | .aarch64, 278 => some R_AARCH64_LDST8_ABS_LO12_NC
  | .aarch64, 282 => some R_AARCH64_JUMP26
  | .aarch64, 283 => some R_AARCH64_CALL26
  | .aarch64, 284 => some R_AARCH64_LDST16_ABS_LO12_NC
  | .aarch64, 285 => some R_AARCH64_LDST32_ABS_LO12_NC
  | .aarch64, 286 => some R_AARCH64_LDST64_ABS_LO12_NC
  | .aarch64, 299 => some R_AARCH64_LDST128_ABS_LO12_NC
  | .riscv, 1 => some R_RISCV_32
  | .riscv, 2 => some R_RISCV_64
  | .riscv, 16 => some R_RISCV_BRANCH
  | .riscv, 17 => some R_RISCV_JAL
  | .riscv, 18 => some R_RISCV_CALL
  | .riscv, 19 => some R_RISCV_CALL_PLT
  | .riscv, 23 => some R_RISCV_PCREL_HI20
  | .riscv, 24 => some R_RISCV_PCREL_LO12_I
  | .riscv, 25 => some R_RISCV_PCREL_LO12_S
  | .riscv, 26 => some R_RISCV_HI20
  | .riscv, 27 => some R_RISCV_LO12_I
  | .riscv, 28 => some R_RISCV_LO12_S
  | .riscv, 33 => some R_RISCV_ADD8
  | .riscv, 34 => some R_RISCV_ADD16
  | .riscv, 35 => some R_RISCV_ADD32
  | .riscv, 36 => some R_RISCV_ADD64
  | .riscv, 37 => some R_RISCV_SUB8
  | .riscv, 38 => some R_RISCV_SUB16
  | .riscv, 39 => some R_RISCV_SUB32
  | .riscv, 40 => some R_RISCV_SUB64
  | .riscv, 44 => some R_RISCV_RVC_BRANCH
  | .riscv, 45 => some R_RISCV_RVC_JUMP
  | .riscv, 52 => some R_RISCV_SUB6
  | .riscv, 53 => some R_RISCV_SET6
  | .riscv, 54 => some R_RISCV_SET8
  | .riscv, 55 => some R_RISCV_SET16
  | .riscv, 56 => some R_RISCV_SET32
  | .riscv, 57 => some R_RISCV_32_PCREL
  | _, _ => none

/-! ## One relocation -/

/-- A relocation without a range check. -/
def relocWrite (w : Write) : Except Errno Unit × List Write := (.ok (), [w])

/-- A relocation that is refused when its range check fails. -/
def relocChecked (inRange : Bool) (w : Write) : Except Errno Unit × List Write :=
  if inRange then (.ok (), [w]) else (.error .EINVAL, [])

/-- `hi20` of the auipc relocations, computed in `int32_t`. -/
def pcrelHi20 (off : BitVec 32) : BitVec 32 := (off + 0x800#32).sshiftRight 12

/-- The B-type immediate: `imm[12|10:5|4:1|11]`. -/
def branchEncoding (imm : BitVec 32) : BitVec 32 :=
  (imm &&& 0x1000#32) <<< 19 ||| (imm &&& 0x7e0#32) <<< 20 |||
    (imm &&& 0x1e#32) <<< 7 ||| (imm &&& 0x800#32) >>> 4

/-- The J-type immediate: `imm[20|10:1|11|19:12]`. -/
def jalEncoding (imm : BitVec 32) : BitVec 32 :=
  (imm &&& 0x100000#32) <<< 11 ||| (imm &&& 0x7fe#32) <<< 20 |||
    (imm &&& 0x800#32) <<< 9 ||| imm &&& 0xff000#32

/-- The S-type immediate. -/
def storeEncoding (lo12 : BitVec 32) : BitVec 32 :=
  (lo12 &&& 0x1f#32) <<< 7 ||| (lo12 &&& 0xfe0#32) <<< 20

/-- The immediate of a compressed branch as the code computes it. -/
def rvcBranchEncoding (imm : BitVec 16) : BitVec 16 :=
  (imm &&& 0x100#16) <<< 4 ||| (imm &&& 0x18#16) <<< 7 |||
    (imm &&& 0x40#16) >>> 2 ||| (imm &&& 0x20#16) <<< 1

/-- The immediate of a compressed jump as the code computes it. -/
def rvcJumpEncoding (imm : BitVec 16) : BitVec 16 :=
  (imm &&& 0x800#16) <<< 2 ||| (imm &&& 0x10#16) <<< 7 ||| (imm &&& 0x300#16) <<< 1 |||
    (imm &&& 0x400#16) >>> 2 ||| (imm &&& 0x40#16) <<< 1 ||| (imm &&& 0x80#16) >>> 1 |||
    (imm &&& 0xe#16) <<< 2 ||| (imm &&& 0x20#16) >>> 3

/-- `R_AARCH64_JUMP26` and `R_AARCH64_CALL26`: through a stub when out of reach. -/
def relocJump26 (rtldElfAddStub : Word → Except Errno Word) (syma pc : Word) :
    Except Errno Unit × List Write :=
  let patch := fun prelSyma : Word =>
    relocChecked (checkSignedBits prelSyma 28) (rtldBlend 0x03ffffff#64 (prelSyma.sshiftRight 2))
  if checkSignedBits (syma - pc) 28 then patch (syma - pc)
  else
    match rtldElfAddStub syma with
    | .error e => (.error e, [])
    | .ok stub => patch (stub - pc)

/-- The switch of `rtld_reloc_at`, on `syma` and `pc`. -/
def relocCase (rtldElfAddStub : Word → Except Errno Word) (syma pc : Word) :
    RelType → Except Errno Unit × List Write
  | R_X86_64_PC64 | R_AARCH64_PREL64 => relocWrite (rtldBlend (BitVec.allOnes 64) (syma - pc))
  | R_X86_64_64 | R_RISCV_64 => relocWrite (rtldBlend (BitVec.allOnes 64) syma)
  | R_X86_64_PC32 | R_X86_64_PLT32 | R_AARCH64_PREL32 | R_RISCV_32_PCREL =>
      relocChecked (checkSignedBits (syma - pc) 32) (rtldBlend 0xffffffff#64 (syma - pc))
  | R_X86_64_32S => relocChecked (checkSignedBits syma 32) (rtldBlend 0xffffffff#64 syma)
  | R_X86_64_32 | R_RISCV_32 =>
      relocChecked (checkUnsignedBits syma 32) (rtldBlend 0xffffffff#64 syma)
  | R_AARCH64_JUMP26 | R_AARCH64_CALL26 => relocJump26 rtldElfAddStub syma pc
  | R_AARCH64_ADR_PREL_PG_HI21 =>
      let prelSyma := ((syma &&& ~~~0xfff#64) - (pc &&& ~~~0xfff#64)).sshiftRight 12
      relocChecked (checkSignedBits prelSyma 21)
        (rtldBlend 0x60ffffe0#64
          ((prelSyma &&& 3#64) <<< 29 ||| ((prelSyma.sshiftRight 2) &&& 0x7ffff#64) <<< 5))
  | R_AARCH64_ADD_ABS_LO12_NC | R_AARCH64_LDST8_ABS_LO12_NC =>
      relocWrite (rtldBlend (0xfff#64 <<< 10) (syma <<< 10))
  | R_AARCH64_LDST16_ABS_LO12_NC =>
      relocWrite (rtldBlend (0xfff#64 >>> 1 <<< 10) (syma >>> 1 <<< 10))
  | R_AARCH64_LDST32_ABS_LO12_NC =>
      relocWrite (rtldBlend (0xfff#64 >>> 2 <<< 10) (syma >>> 2 <<< 10))
  | R_AARCH64_LDST64_ABS_LO12_NC =>
      relocWrite (rtldBlend (0xfff#64 >>> 3 <<< 10) (syma >>> 3 <<< 10))
  | R_AARCH64_LDST128_ABS_LO12_NC =>
      relocWrite (rtldBlend (0xfff#64 >>> 4 <<< 10) (syma >>> 4 <<< 10))
  | R_AARCH64_MOVW_UABS_G0_NC => relocWrite (rtldBlend (0xffff#64 <<< 5) (syma >>> 0 <<< 5))
  | R_AARCH64_MOVW_UABS_G1_NC => relocWrite (rtldBlend (0xffff#64 <<< 5) (syma >>> 16 <<< 5))
  | R_AARCH64_MOVW_UABS_G2_NC => relocWrite (rtldBlend (0xffff#64 <<< 5) (syma >>> 32 <<< 5))
  | R_AARCH64_MOVW_UABS_G3 => relocWrite (rtldBlend (0xffff#64 <<< 5) (syma >>> 48 <<< 5))
  | R_RISCV_BRANCH =>
      relocChecked (checkSignedBits (syma - pc) 13)
        (rtldBlend 0xfe000f80#64 ((branchEncoding ((syma - pc).setWidth 32)).setWidth 64))
  | R_RISCV_JAL =>
      relocChecked (checkSignedBits (syma - pc) 21)
        (rtldBlend 0xfffff000#64 ((jalEncoding ((syma - pc).setWidth 32)).setWidth 64))
  | R_RISCV_CALL | R_RISCV_CALL_PLT =>
      let callOff := (syma - pc).setWidth 32
      let hi20 := pcrelHi20 callOff
      let lo12 := callOff - hi20 <<< 12
      (.ok (), [.u32 fun old => old &&& 0xfff#32 ||| hi20 <<< 12,
        .u32 fun old => old &&& 0xfffff#32 ||| (lo12 &&& 0xfff#32) <<< 20])
  | R_RISCV_PCREL_HI20 =>
      relocWrite
        (rtldBlend 0xfffff000#64 ((pcrelHi20 ((syma - pc).setWidth 32) <<< 12).setWidth 64))
  | R_RISCV_PCREL_LO12_I => relocLo12I (syma - pc)
  | R_RISCV_LO12_I => relocLo12I syma
  | R_RISCV_PCREL_LO12_S => relocLo12S (syma - pc)
  | R_RISCV_LO12_S => relocLo12S syma
  | R_RISCV_HI20 =>
      relocWrite (rtldBlend 0xfffff000#64 (((syma >>> 12).setWidth 32 <<< 12).setWidth 64))
  | R_RISCV_ADD8 => relocWrite (.u8 (· + syma.setWidth 8))
  | R_RISCV_ADD16 => relocWrite (.u16 (· + syma.setWidth 16))
  | R_RISCV_ADD32 => relocWrite (.u32 (· + syma.setWidth 32))
  | R_RISCV_ADD64 => relocWrite (.u64 (· + syma))
  | R_RISCV_SUB8 => relocWrite (.u8 (· - syma.setWidth 8))
  | R_RISCV_SUB16 => relocWrite (.u16 (· - syma.setWidth 16))
  | R_RISCV_SUB32 => relocWrite (.u32 (· - syma.setWidth 32))
  | R_RISCV_SUB64 => relocWrite (.u64 (· - syma))
  | R_RISCV_SUB6 =>
      relocWrite (.u8 fun old =>
        old &&& 0xc0#8 ||| ((old &&& 0x3f#8) - syma.setWidth 8) &&& 0x3f#8)
  | R_RISCV_SET6 => relocWrite (.u8 fun old => old &&& 0xc0#8 ||| syma.setWidth 8 &&& 0x3f#8)
  | R_RISCV_SET8 => relocWrite (.u8 fun _ => syma.setWidth 8)
  | R_RISCV_SET16 => relocWrite (.u16 fun _ => syma.setWidth 16)
  | R_RISCV_SET32 => relocWrite (.u32 fun _ => syma.setWidth 32)
  | R_RISCV_RVC_BRANCH =>
      relocChecked (checkSignedBits (syma - pc) 9)
        (rtldBlend 0xe383#64 ((rvcBranchEncoding ((syma - pc).setWidth 16)).setWidth 64))
  | R_RISCV_RVC_JUMP =>
      relocChecked (checkSignedBits (syma - pc) 12)
        (rtldBlend 0xe003#64 ((rvcJumpEncoding ((syma - pc).setWidth 16)).setWidth 64))
where
  /-- The low part of an address in an I-type instruction. -/
  relocLo12I (off : Word) : Except Errno Unit × List Write :=
    relocWrite (rtldBlend 0xfff00000#64 (((off.setWidth 32 &&& 0xfff#32) <<< 20).setWidth 64))
  /-- The low part of an address in an S-type instruction. -/
  relocLo12S (off : Word) : Except Errno Unit × List Write :=
    relocWrite (rtldBlend 0xfe000f80#64 ((storeEncoding (off.setWidth 32 &&& 0xfff#32)).setWidth 64))

/-- `rtld_reloc_at`: the returned code, and the writes made to the target. -/
def rtldRelocAt (host : Host) (rtldElfAddStub : Word → Except Errno Word)
    (patchData : RtldPatchData) (sym : Word) : Except Errno Unit × List Write :=
  match relType host patchData.relType.toNat with
  | none => (.error .EINVAL, [])
  | some t => relocCase rtldElfAddStub (sym + patchData.addend) patchData.patchAddr t

/-- The target after `rtld_reloc_at`. -/
def relocTarget (r : Except Errno Unit × List Write) (m : Mem) (tgt : Nat) : Mem :=
  applyWrites r.2 m tgt

/-- A relocation that is one word, accepted or not. -/
theorem relocTarget_checked {inRange : Bool} (f : BitVec 32 → BitVec 32) (m : Mem) (tgt : Nat) :
    relocTarget (relocChecked inRange (.u32 f)) m tgt =
      if inRange then (Write.u32 f).apply m tgt else m := by
  cases inRange <;> rfl

/-! ## The 32-bit relocations of x86-64 -/

inductive Rel32 : Type where
  | R_X86_64_PC32
  | R_X86_64_PLT32
  | R_X86_64_32S
  | R_X86_64_32
deriving DecidableEq

namespace Rel32

def number : Rel32 → BitVec 32
  | R_X86_64_PC32 => 2#32
  | R_X86_64_PLT32 => 4#32
  | R_X86_64_32S => 11#32
  | R_X86_64_32 => 10#32

/-- What the relocation computes, by the x86-64 ABI. -/
def value (k : Rel32) (syma pc : Word) : Word :=
  match k with
  | R_X86_64_PC32 | R_X86_64_PLT32 => syma - pc
  | R_X86_64_32S | R_X86_64_32 => syma

/-- The values that the field can hold. -/
def Fits (k : Rel32) (v : Word) : Prop :=
  match k with
  | R_X86_64_32 => v.toNat < 2 ^ 32
  | _ => -2 ^ 31 ≤ v.toInt ∧ v.toInt < 2 ^ 31

instance (k : Rel32) (v : Word) : Decidable (k.Fits v) :=
  match k with
  | R_X86_64_32 => inferInstanceAs (Decidable (_ < _))
  | R_X86_64_PC32 | R_X86_64_PLT32 | R_X86_64_32S => inferInstanceAs (Decidable (_ ∧ _))

/-- What the processor makes of the field. -/
def extend (k : Rel32) (field : BitVec 32) : Word :=
  match k with
  | R_X86_64_32 => field.setWidth 64
  | _ => field.signExtend 64

/-- The greatest value that fits. -/
def top (k : Rel32) : Word :=
  match k with
  | R_X86_64_32 => 0xffffffff#64
  | _ => 0x7fffffff#64

/-- The range check of the relocation's case. -/
def check (k : Rel32) (v : Word) : Bool :=
  match k with
  | R_X86_64_32 => checkUnsignedBits v 32
  | _ => checkSignedBits v 32

/-- The top of the range is what the checks get wrong. -/
theorem check_iff (k : Rel32) (v : Word) : k.check v = true ↔ k.Fits v ∧ v ≠ k.top := by
  have hsigned : checkSignedBits v 32 = true ↔
      (-2 ^ 31 ≤ v.toInt ∧ v.toInt < 2 ^ 31) ∧ v ≠ 0x7fffffff#64 := by
    rw [checkSignedBits_iff, InSigned, ne_eq, ne_eq, ← BitVec.toInt_inj]
    rfl
  have hunsigned : checkUnsignedBits v 32 = true ↔ v.toNat < 2 ^ 32 ∧ v ≠ 0xffffffff#64 := by
    rw [checkUnsignedBits, decide_eq_true_iff, ne_eq, ← BitVec.toNat_inj,
      show (0xffffffff#64).toNat = 2 ^ 32 - 1 from rfl]
    omega
  cases k with
  | R_X86_64_32 => exact hunsigned
  | R_X86_64_PC32 => exact hsigned
  | R_X86_64_PLT32 => exact hsigned
  | R_X86_64_32S => exact hsigned

theorem fits_top (k : Rel32) : k.Fits k.top := by
  cases k <;> simp only [Fits, top] <;> decide

theorem extend_setWidth {k : Rel32} {v : Word} (h : k.Fits v) : k.extend (v.setWidth 32) = v := by
  have hsigned : -2 ^ 31 ≤ v.toInt ∧ v.toInt < 2 ^ 31 → (v.setWidth 32).signExtend 64 = v :=
    fun hv => (signExtend_setWidth_iff (by decide) (by decide) v).mpr hv
  cases k with
  | R_X86_64_32 =>
      apply BitVec.eq_of_toNat_eq
      rw [extend, BitVec.toNat_setWidth, BitVec.toNat_setWidth]
      rw [Fits] at h
      omega
  | R_X86_64_PC32 => exact hsigned h
  | R_X86_64_PLT32 => exact hsigned h
  | R_X86_64_32S => exact hsigned h

end Rel32

theorem rtldRelocAt_rel32 (k : Rel32) (stub : Word → Except Errno Word)
    (symAddr addend pc sym : Word) (relSize : BitVec 32) :
    rtldRelocAt .x86_64 stub ⟨symAddr, k.number, relSize, addend, pc⟩ sym =
      relocChecked (k.check (k.value (sym + addend) pc))
        (.u32 (blend (BitVec.allOnes 32) ((k.value (sym + addend) pc).setWidth 32))) := by
  rw [show BitVec.allOnes 32 = (0xffffffff#64).setWidth 32 from rfl,
    ← rtldBlend_u32 (by decide) (by decide)]
  cases k <;> rfl

/-- A relocation accepts exactly what fits its field, writes the field and nothing else,
and writes nothing when it refuses. -/
structure Rel32Exact (k : Rel32) (r : Except Errno Unit × List Write) (v : Word) (m : Mem)
    (tgt : Nat) : Prop where
  accepts : r.1 = .ok () ↔ k.Fits v
  written : r.1 = .ok () → k.extend (load32 (relocTarget r m tgt) tgt) = v
  frame : ∀ o, ¬ (tgt ≤ o ∧ o < tgt + 4) → relocTarget r m tgt o = m o
  refused : r.1 ≠ .ok () → relocTarget r m tgt = m

/-- **The 32-bit relocations are exact but for the top of the range.** For every symbol,
addend, place and target, the relocation accepts what fits and writes it, exactly unless
the value is the greatest one that fits, which is refused. -/
theorem x86_rel32_exact_iff (k : Rel32) (stub : Word → Except Errno Word)
    (symAddr addend pc sym : Word) (relSize : BitVec 32) (m : Mem) (tgt : Nat) :
    Rel32Exact k (rtldRelocAt .x86_64 stub ⟨symAddr, k.number, relSize, addend, pc⟩ sym)
        (k.value (sym + addend) pc) m tgt ↔
      k.value (sym + addend) pc ≠ k.top := by
  rw [rtldRelocAt_rel32]
  generalize k.value (sym + addend) pc = v
  constructor
  · rintro hexact rfl
    have hno : k.check k.top = false := by
      rw [← Bool.not_eq_true, k.check_iff]
      simp
    have hok := hexact.accepts.mpr k.fits_top
    rw [hno] at hok
    cases hok
  · intro htop
    have hcheck : k.check v = true ↔ k.Fits v := by
      rw [k.check_iff, and_iff_left htop]
    cases hc : k.check v with
    | false =>
        have hfits : ¬ k.Fits v := by rw [← hcheck, hc]; exact Bool.false_ne_true
        exact ⟨⟨nofun, fun h => absurd h hfits⟩, nofun, fun _ _ => rfl, fun _ => rfl⟩
    | true =>
        have hfits : k.Fits v := hcheck.mp hc
        refine ⟨⟨fun _ => hfits, fun _ => rfl⟩, fun _ => ?_, fun o ho => ?_,
          fun h => absurd rfl h⟩
        · rw [relocTarget_checked, if_pos rfl, load32_apply, blend_allOnes]
          exact Rel32.extend_setWidth hfits
        · rw [relocTarget_checked, if_pos rfl]
          exact store_of_not_mem ho

/-- A distance of exactly 2^31 - 1 bytes fits and is refused. -/
theorem x86_pc32_top_refused :
    ¬ Rel32Exact .R_X86_64_PC32
      (rtldRelocAt .x86_64 .ok ⟨0#64, 2#32, 8#32, 0#64, 0x400000000000#64⟩ 0x40007fffffff#64)
      (0x40007fffffff#64 - 0x400000000000#64) (fun _ => 0#8) 0 := by
  intro h
  have hfits : Rel32.Fits .R_X86_64_PC32 (0x40007fffffff#64 - 0x400000000000#64) := by decide
  have hok := h.accepts.mpr hfits
  revert hok
  decide

end Instrew.Client
