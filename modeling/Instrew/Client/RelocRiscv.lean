import Instrew.Client.Reloc
import Instrew.Lib.Rv64

/-!
# Relocations of a RISC-V host

What the patched instructions do, by the formats and instructions of `Lib.Rv64`.

`branch_jal_exact` is the one group of relocations that is right as it stands.
`call_reaches_iff` needs a distance that an auipc pair can span, which the code does not
check; `lui_pair_computes_iff` needs an address whose low part is not negative, since
`R_RISCV_HI20` does not round; and `rvc_encodes_iff` holds only where the relocation is
refused: the masks of the compressed formats are the complements of what they should be.
-/

namespace Instrew.Client

open Lib.Imm Lib.ByteMem Lib.Rv64

/-! ## Upper and lower parts of a number -/

/-- The upper 20 bits of a word, as a number. -/
theorem toInt_high (x : BitVec 32) :
    (x.extractLsb' 12 20 ++ 0#12).toInt = x.toInt - x.toNat % 4096 := by
  have hx := x.isLt
  rw [BitVec.toInt_append, if_neg (by decide), BitVec.toInt_eq_toNat_cond,
    BitVec.toInt_eq_toNat_cond, BitVec.extractLsb'_toNat, Nat.shiftRight_eq_div_pow]
  simp only [BitVec.toNat_ofNat]
  omega

/-- The numbers a rounded upper part and a signed lower part can form. -/
def Spans (d : Word) : Prop := -2 ^ 31 - 2 ^ 11 ≤ d.toInt ∧ d.toInt < 2 ^ 31 - 2 ^ 11

instance (d : Word) : Decidable (Spans d) := inferInstanceAs (Decidable (_ ∧ _))

/-- The rounded upper part of `d` and a signed lower part, added up. -/
def pairSum (d : Word) (lo : BitVec 12) : Word :=
  ((d.setWidth 32 + 0x800#32).extractLsb' 12 20 ++ 0#12).signExtend 64 + lo.signExtend 64

theorem toInt_pairSum (d : Word) (lo : BitVec 12) :
    (pairSum d lo).toInt = ((d.setWidth 32 + 0x800#32).toInt -
      (d.setWidth 32 + 0x800#32).toNat % 4096) + lo.toInt := by
  rw [pairSum, toInt_signExtend_add (by decide) (by decide), toInt_high]

/-- The parts add up to the number exactly when the lower part is the number's own and the
number can be formed at all. -/
theorem pairSum_eq_iff (d : Word) (lo : BitVec 12) :
    pairSum d lo = d ↔ lo = d.extractLsb' 0 12 ∧ Spans d := by
  have hd := d.isLt
  have hlo := lo.isLt
  rw [← BitVec.toInt_inj, toInt_pairSum, ← BitVec.toNat_inj, Spans, BitVec.toInt_eq_toNat_cond,
    BitVec.toInt_eq_toNat_cond, BitVec.toInt_eq_toNat_cond, BitVec.extractLsb'_toNat,
    BitVec.toNat_add, BitVec.toNat_setWidth, BitVec.toNat_ofNat]
  omega

/-- Whether or not the parts add up, the sum is even exactly when the number is. -/
theorem pairSum_mod_two (d : Word) :
    (pairSum d (d.extractLsb' 0 12)).toNat % 2 = d.toNat % 2 := by
  have hsum := toInt_pairSum d (d.extractLsb' 0 12)
  rw [BitVec.toInt_eq_toNat_cond, BitVec.toInt_eq_toNat_cond, BitVec.toInt_eq_toNat_cond,
    BitVec.extractLsb'_toNat, BitVec.toNat_add, BitVec.toNat_setWidth, BitVec.toNat_ofNat,
    Nat.shiftRight_zero] at hsum
  omega

/-- `hi20 << 12` has the upper 20 bits of the rounded offset. -/
theorem pcrelHi20_shift (off : BitVec 32) :
    (pcrelHi20 off <<< 12).extractLsb' 12 20 = (off + 0x800#32).extractLsb' 12 20 := by
  apply BitVec.eq_of_getLsbD_eq
  intro i hi
  have hin : 12 + i < 32 := by omega
  rw [BitVec.getLsbD_extractLsb', BitVec.getLsbD_extractLsb', BitVec.getLsbD_shiftLeft, pcrelHi20,
    BitVec.getLsbD_sshiftRight, Nat.add_sub_cancel_left, if_pos hin]
  simp [hin, show ¬ 32 ≤ i by omega]

/-! ## Branches and jumps -/

inductive JumpRel : Type where
  | R_RISCV_BRANCH
  | R_RISCV_JAL
deriving DecidableEq

namespace JumpRel

def number : JumpRel → BitVec 32
  | R_RISCV_BRANCH => 16#32
  | R_RISCV_JAL => 17#32

/-- The width of the signed distance. -/
def bits : JumpRel → Nat
  | R_RISCV_BRANCH => 13
  | R_RISCV_JAL => 21

def imm : JumpRel → BitVec 32 → Word
  | R_RISCV_BRANCH => immB
  | R_RISCV_JAL => immJ

/-- The bits outside the immediate are the same. -/
def SameRest (k : JumpRel) (w w' : BitVec 32) : Prop :=
  match k with
  | R_RISCV_BRANCH =>
      w'.extractLsb' 0 7 = w.extractLsb' 0 7 ∧ w'.extractLsb' 12 13 = w.extractLsb' 12 13
  | R_RISCV_JAL => w'.extractLsb' 0 12 = w.extractLsb' 0 12

def mask : JumpRel → BitVec 32
  | R_RISCV_BRANCH => 0xfe000f80#32
  | R_RISCV_JAL => 0xfffff000#32

def encoding : JumpRel → BitVec 32 → BitVec 32
  | R_RISCV_BRANCH => branchEncoding
  | R_RISCV_JAL => jalEncoding

end JumpRel

theorem branchEncoding_fields (imm : BitVec 32) :
    (branchEncoding imm).extractLsb' 31 1 = imm.extractLsb' 12 1 ∧
    (branchEncoding imm).extractLsb' 25 6 = imm.extractLsb' 5 6 ∧
    (branchEncoding imm).extractLsb' 8 4 = imm.extractLsb' 1 4 ∧
    (branchEncoding imm).extractLsb' 7 1 = imm.extractLsb' 11 1 := by
  refine ⟨?_, ?_, ?_, ?_⟩ <;> apply BitVec.eq_of_getLsbD_eq <;> intro i hi <;>
    interval_cases i <;> simp [branchEncoding]

theorem jalEncoding_fields (imm : BitVec 32) :
    (jalEncoding imm).extractLsb' 31 1 = imm.extractLsb' 20 1 ∧
    (jalEncoding imm).extractLsb' 21 10 = imm.extractLsb' 1 10 ∧
    (jalEncoding imm).extractLsb' 20 1 = imm.extractLsb' 11 1 ∧
    (jalEncoding imm).extractLsb' 12 8 = imm.extractLsb' 12 8 := by
  refine ⟨?_, ?_, ?_, ?_⟩ <;> apply BitVec.eq_of_getLsbD_eq <;> intro i hi <;>
    interval_cases i <;> simp [jalEncoding]

/-- The fields of an even B-type distance, put together in order. -/
theorem branch_parts {d : BitVec 32} (heven : d.toNat % 2 = 0) :
    (d.extractLsb' 12 1 ++ d.extractLsb' 11 1 ++ d.extractLsb' 5 6 ++ d.extractLsb' 1 4 ++
      0#1).toInt = (d.setWidth 13).toInt := by
  simp only [BitVec.toInt_append]
  simp only [BitVec.toInt_eq_toNat_cond, BitVec.extractLsb'_toNat, BitVec.toNat_setWidth,
    BitVec.toNat_ofNat, Nat.shiftRight_eq_div_pow, beq_iff_eq]
  omega

/-- The fields of an even J-type distance, put together in order. -/
theorem jal_parts {d : BitVec 32} (heven : d.toNat % 2 = 0) :
    (d.extractLsb' 20 1 ++ d.extractLsb' 12 8 ++ d.extractLsb' 11 1 ++ d.extractLsb' 1 10 ++
      0#1).toInt = (d.setWidth 21).toInt := by
  simp only [BitVec.toInt_append]
  simp only [BitVec.toInt_eq_toNat_cond, BitVec.extractLsb'_toNat, BitVec.toNat_setWidth,
    BitVec.toNat_ofNat, Nat.shiftRight_eq_div_pow, beq_iff_eq]
  omega

/-- Decoding the patched word gives the distance cut to the immediate's width. -/
theorem JumpRel.imm_blend (k : JumpRel) {d : BitVec 32} (heven : d.toNat % 2 = 0)
    (w : BitVec 32) :
    k.imm (blend k.mask (k.encoding d) w) = (d.setWidth k.bits).signExtend 64 := by
  cases k with
  | R_RISCV_BRANCH =>
      obtain ⟨h31, h25, h8, h7⟩ := branchEncoding_fields d
      have hcov : ∀ start len, Covers (0xfe000f80#32) start len →
          (blend 0xfe000f80#32 (branchEncoding d) w).extractLsb' start len =
            (branchEncoding d).extractLsb' start len := fun _ _ h => h.extractLsb'_blend _ _
      show immB (blend 0xfe000f80#32 (branchEncoding d) w) = (d.setWidth 13).signExtend 64
      rw [immB, hcov 31 1 (by decide), hcov 7 1 (by decide), hcov 25 6 (by decide),
        hcov 8 4 (by decide), h31, h25, h8, h7, ← BitVec.toInt_inj,
        BitVec.toInt_signExtend_of_le (by decide), BitVec.toInt_signExtend_of_le (by decide)]
      exact branch_parts heven
  | R_RISCV_JAL =>
      obtain ⟨h31, h21, h20, h12⟩ := jalEncoding_fields d
      have hcov : ∀ start len, Covers (0xfffff000#32) start len →
          (blend 0xfffff000#32 (jalEncoding d) w).extractLsb' start len =
            (jalEncoding d).extractLsb' start len := fun _ _ h => h.extractLsb'_blend _ _
      show immJ (blend 0xfffff000#32 (jalEncoding d) w) = (d.setWidth 21).signExtend 64
      rw [immJ, hcov 31 1 (by decide), hcov 12 8 (by decide), hcov 20 1 (by decide),
        hcov 21 10 (by decide), h31, h21, h20, h12, ← BitVec.toInt_inj,
        BitVec.toInt_signExtend_of_le (by decide), BitVec.toInt_signExtend_of_le (by decide)]
      exact jal_parts heven

theorem JumpRel.sameRest_blend (k : JumpRel) (data w : BitVec 32) :
    k.SameRest w (blend k.mask data w) := by
  cases k with
  | R_RISCV_BRANCH =>
      exact ⟨Spares.extractLsb'_blend (by decide) data w,
        Spares.extractLsb'_blend (by decide) data w⟩
  | R_RISCV_JAL => exact Spares.extractLsb'_blend (by decide) data w

theorem rtldRelocAt_jump (k : JumpRel) (stub : Word → Except Errno Word)
    (symAddr addend pc sym : Word) (relSize : BitVec 32) :
    rtldRelocAt .riscv stub ⟨symAddr, k.number, relSize, addend, pc⟩ sym =
      relocChecked (checkSignedBits (sym + addend - pc) k.bits)
        (.u32 (blend k.mask (k.encoding ((sym + addend - pc).setWidth 32)))) := by
  cases k with
  | R_RISCV_BRANCH =>
      show relocChecked _ (rtldBlend 0xfe000f80#64 ((branchEncoding _).setWidth 64)) = _
      rw [rtldBlend_word (by decide) (by decide)]
      rfl
  | R_RISCV_JAL =>
      show relocChecked _ (rtldBlend 0xfffff000#64 ((jalEncoding _).setWidth 64)) = _
      rw [rtldBlend_word (by decide) (by decide)]
      rfl

/-- A branch or jump relocation accepts exactly the distances of its format, and then the
instruction jumps by that distance and is otherwise what it was. -/
structure JumpExact (k : JumpRel) (r : Except Errno Unit × List Write) (d : Word) (m : Mem)
    (tgt : Nat) : Prop where
  accepts : r.1 = .ok () ↔ -2 ^ (k.bits - 1) ≤ d.toInt ∧ d.toInt < 2 ^ (k.bits - 1)
  decoded : r.1 = .ok () → k.imm (load32 (relocTarget r m tgt) tgt) = d
  rest : r.1 = .ok () → k.SameRest (load32 m tgt) (load32 (relocTarget r m tgt) tgt)
  frame : ∀ o, ¬ (tgt ≤ o ∧ o < tgt + 4) → relocTarget r m tgt o = m o
  refused : r.1 ≠ .ok () → relocTarget r m tgt = m

/-- **Branch and jump relocations are exact.** The range macro leaves out the greatest
number of the range, but that one is odd. -/
theorem branch_jal_exact (k : JumpRel) (stub : Word → Except Errno Word)
    (symAddr addend pc sym : Word) (relSize : BitVec 32) (m : Mem) (tgt : Nat)
    (heven : (sym + addend - pc).toNat % 2 = 0) :
    JumpExact k (rtldRelocAt .riscv stub ⟨symAddr, k.number, relSize, addend, pc⟩ sym)
      (sym + addend - pc) m tgt := by
  rw [rtldRelocAt_jump]
  generalize sym + addend - pc = d at heven
  have hbits : 1 < k.bits ∧ k.bits ≤ 32 := by cases k <;> decide
  have hcheck := checkSignedBits_even heven hbits.1
  have heven' : (d.setWidth 32).toNat % 2 = 0 := by
    rw [BitVec.toNat_setWidth]
    omega
  cases hc : checkSignedBits d k.bits with
  | false =>
      have hout : ¬ InSigned k.bits d := by rw [← hcheck, hc]; exact Bool.false_ne_true
      exact ⟨⟨nofun, fun h => absurd h hout⟩, nofun, nofun, fun _ _ => rfl, fun _ => rfl⟩
  | true =>
      have hin : InSigned k.bits d := hcheck.mp hc
      refine ⟨⟨fun _ => hin, fun _ => rfl⟩, fun _ => ?_, fun _ => ?_, fun o ho => ?_,
        fun h => absurd rfl h⟩
      · rw [relocTarget_checked, if_pos rfl, load32_apply, k.imm_blend heven',
          BitVec.setWidth_setWidth (by omega)]
        exact (signExtend_setWidth_iff (by omega) (by omega) d).mpr hin
      · rw [relocTarget_checked, if_pos rfl, load32_apply]
        exact k.sameRest_blend _ _
      · rw [relocTarget_checked, if_pos rfl]
        exact store_of_not_mem ho

/-- `beq x10, x11` patched to jump to the instruction before it. -/
theorem branch_back_exact :
    (0xfc#64 + 0#64 - 0x100#64).toNat % 2 = 0 ∧
      JumpExact .R_RISCV_BRANCH
        (rtldRelocAt .riscv .ok ⟨0#64, 16#32, 8#32, 0#64, 0x100#64⟩ 0xfc#64)
        (0xfc#64 + 0#64 - 0x100#64) (store (fun _ => 0#8) 0 4 0x00b50063) 0 :=
  ⟨by decide, branch_jal_exact .R_RISCV_BRANCH .ok 0#64 0#64 0x100#64 0xfc#64 8#32 _ 0 (by decide)⟩

/-! ## Calls -/

inductive CallRel : Type where
  | R_RISCV_CALL
  | R_RISCV_CALL_PLT
deriving DecidableEq

def CallRel.number : CallRel → BitVec 32
  | .R_RISCV_CALL => 18#32
  | .R_RISCV_CALL_PLT => 19#32

/-- An auipc and a jalr through its register. Register `x0` cannot carry an address. -/
structure IsCallPair (w0 w1 : BitVec 32) : Prop where
  auipc : opcode w0 = 0x17#7
  jalr : opcode w1 = 0x67#7
  funct3 : funct3 w1 = 0#3
  through : rs1 w1 = rd w0
  rd_ne : rd w0 ≠ 0#5

/-- The relocation was refused and the pair is as it was, or the pair, executed at `pc`,
jumps to `target` and differs in the immediates only. -/
def CallReaches (r : Except Errno Unit × List Write) (m : Mem) (tgt : Nat) (pc target : Word) :
    Prop :=
  let w0 := load32 (relocTarget r m tgt) tgt
  let w1 := load32 (relocTarget r m tgt) (tgt + 4)
  (r.1 = .ok () ∧
    (∀ s : State, s.pc = pc → ((exec w0 s).bind (exec w1)).map State.pc = some target) ∧
    w0.extractLsb' 0 12 = (load32 m tgt).extractLsb' 0 12 ∧
    w1.extractLsb' 0 20 = (load32 m (tgt + 4)).extractLsb' 0 20) ∨
  (r.1 ≠ .ok () ∧ w0 = load32 m tgt ∧ w1 = load32 m (tgt + 4))

/-- The patched auipc. -/
def callAuipc (d : Word) (w : BitVec 32) : BitVec 32 :=
  w &&& 0xfff#32 ||| pcrelHi20 (d.setWidth 32) <<< 12

/-- The patched jalr. -/
def callJalr (d : Word) (w : BitVec 32) : BitVec 32 :=
  w &&& 0xfffff#32 |||
    ((d.setWidth 32 - pcrelHi20 (d.setWidth 32) <<< 12) &&& 0xfff#32) <<< 20

theorem rtldRelocAt_call (k : CallRel) (stub : Word → Except Errno Word)
    (symAddr addend pc sym : Word) (relSize : BitVec 32) :
    rtldRelocAt .riscv stub ⟨symAddr, k.number, relSize, addend, pc⟩ sym =
      (.ok (), [.u32 (callAuipc (sym + addend - pc)), .u32 (callJalr (sym + addend - pc))]) := by
  cases k <;> rfl

/-- Two words written one behind the other. -/
theorem load32_applyWrites_pair (f g : BitVec 32 → BitVec 32) (m : Mem) (tgt : Nat) :
    load32 (applyWrites [.u32 f, .u32 g] m tgt) tgt = f (load32 m tgt) ∧
      load32 (applyWrites [.u32 f, .u32 g] m tgt) (tgt + 4) = g (load32 m (tgt + 4)) := by
  have hfst : ∀ m' : Mem, load32 ((Write.u32 g).apply m' (tgt + 4)) tgt = load32 m' tgt := by
    intro m'
    rw [load32, load32]
    congr 1
    exact load_congr fun o _ ho => store_of_not_mem (by omega)
  have hsnd : load32 ((Write.u32 f).apply m tgt) (tgt + 4) = load32 m (tgt + 4) := by
    rw [load32, load32]
    congr 1
    exact load_congr fun o ho _ => store_of_not_mem (by rw [Write.width]; omega)
  constructor
  · exact (hfst _).trans (load32_apply m tgt f)
  · exact (load32_apply _ _ g).trans (congrArg g hsnd)

theorem callAuipc_fields (d : Word) (w : BitVec 32) :
    (callAuipc d w).extractLsb' 12 20 = (d.setWidth 32 + 0x800#32).extractLsb' 12 20 ∧
      (callAuipc d w).extractLsb' 0 12 = w.extractLsb' 0 12 := by
  have hblend : callAuipc d w = blend 0xfffff000#32 (pcrelHi20 (d.setWidth 32) <<< 12) w :=
    or_shiftLeft_eq_blend w _ 12
  rw [hblend]
  exact ⟨(Covers.extractLsb'_blend (by decide) _ _).trans (pcrelHi20_shift _),
    Spares.extractLsb'_blend (by decide) _ _⟩

/-- The low 12 bits in the upper 12 of a word. -/
theorem shift20_field (x : BitVec 32) :
    ((x &&& 0xfff#32) <<< 20).extractLsb' 20 12 = x.extractLsb' 0 12 := by
  apply BitVec.eq_of_getLsbD_eq
  intro i hi
  interval_cases i <;> simp

theorem callJalr_fields (d : Word) (w : BitVec 32) :
    (callJalr d w).extractLsb' 20 12 = d.extractLsb' 0 12 ∧
      (callJalr d w).extractLsb' 0 20 = w.extractLsb' 0 20 := by
  have hblend : callJalr d w = blend 0xfff00000#32
      (((d.setWidth 32 - pcrelHi20 (d.setWidth 32) <<< 12) &&& 0xfff#32) <<< 20) w :=
    or_shiftLeft_eq_blend w _ 20
  have hlow : (d.setWidth 32 - pcrelHi20 (d.setWidth 32) <<< 12).extractLsb' 0 12 =
      d.extractLsb' 0 12 := by
    apply BitVec.eq_of_toNat_eq
    rw [BitVec.extractLsb'_toNat, BitVec.extractLsb'_toNat, BitVec.toNat_sub,
      BitVec.toNat_shiftLeft, BitVec.toNat_setWidth, Nat.shiftLeft_eq]
    omega
  rw [hblend]
  exact ⟨(Covers.extractLsb'_blend (by decide) _ _).trans ((shift20_field _).trans hlow),
    Spares.extractLsb'_blend (by decide) _ _⟩

/-- Where the patched pair jumps. -/
theorem call_pair_jump {w0 w1 : BitVec 32} (h : IsCallPair w0 w1) (d : Word) {s : State} :
    ((exec (callAuipc d w0) s).bind (exec (callJalr d w1))).map State.pc =
      some ((s.pc + pairSum d (d.extractLsb' 0 12)) &&& ~~~1#64) := by
  obtain ⟨hU, h0⟩ := callAuipc_fields d w0
  obtain ⟨hI, h1⟩ := callJalr_fields d w1
  -- the fields below the immediates are those of the original words
  have hsub : ∀ {start len n : Nat} {x y : BitVec 32}, start + len ≤ n →
      x.extractLsb' 0 n = y.extractLsb' 0 n → x.extractLsb' start len = y.extractLsb' start len := by
    intro start len n x y hle hxy
    apply BitVec.eq_of_getLsbD_eq
    intro i hi
    have hbit := congrArg (BitVec.getLsbD · (start + i)) hxy
    simpa [BitVec.getLsbD_extractLsb', hi, show start + i < n by omega] using hbit
  have hop0 : opcode (callAuipc d w0) = 0x17#7 := (hsub (by decide) h0).trans h.auipc
  have hrd : rd (callAuipc d w0) = rd w0 := hsub (by decide) h0
  have hop1 : opcode (callJalr d w1) = 0x67#7 := (hsub (by decide) h1).trans h.jalr
  have hf3 : funct3 (callJalr d w1) = 0#3 := (hsub (by decide) h1).trans h.funct3
  have hrs : rs1 (callJalr d w1) = rd w0 := (hsub (by decide) h1).trans h.through
  rw [exec_auipc hop0, Option.bind_some, exec_jalr hop1 hf3, Option.map_some, hrs, hrd,
    get_update_same h.rd_ne, immU, hU, immI, hI, BitVec.add_assoc, pairSum]

/-- Clearing the lowest bit. -/
theorem and_not_one_eq_iff {x y : Word} (h : x.toNat % 2 = y.toNat % 2) :
    x &&& ~~~1#64 = y ↔ y.toNat % 2 = 0 ∧ x = y := by
  have hclear : (x &&& ~~~1#64).toNat = x.toNat / 2 ^ 1 * 2 ^ 1 :=
    toNat_and_not_sub_one (a := 2#64) rfl x
  rw [← BitVec.toNat_inj, ← BitVec.toNat_inj, hclear]
  omega

/-- **A call reaches its target exactly when the pair can span the distance.** The code
cuts the distance to 32 bits without a check and always returns 0; jalr clears the lowest
bit of its target. -/
theorem call_reaches_iff (k : CallRel) (stub : Word → Except Errno Word)
    (symAddr addend pc sym : Word) (relSize : BitVec 32) (m : Mem) (tgt : Nat)
    (hpair : IsCallPair (load32 m tgt) (load32 m (tgt + 4))) :
    CallReaches (rtldRelocAt .riscv stub ⟨symAddr, k.number, relSize, addend, pc⟩ sym) m tgt pc
        (sym + addend) ↔
      (sym + addend).toNat % 2 = 0 ∧ Spans (sym + addend - pc) := by
  rw [rtldRelocAt_call]
  generalize hd : sym + addend - pc = d
  have hsyma : sym + addend = pc + d := by rw [← hd, BitVec.add_comm pc, BitVec.sub_add_cancel]
  rw [hsyma]
  obtain ⟨hw0, hw1⟩ := load32_applyWrites_pair (callAuipc d) (callJalr d) m tgt
  have hparity : (pc + pairSum d (d.extractLsb' 0 12)).toNat % 2 = (pc + d).toNat % 2 := by
    have hsum := pairSum_mod_two d
    rw [BitVec.toNat_add, BitVec.toNat_add]
    omega
  have hreach : (pc + pairSum d (d.extractLsb' 0 12)) &&& ~~~1#64 = pc + d ↔
      (pc + d).toNat % 2 = 0 ∧ Spans d := by
    rw [and_not_one_eq_iff hparity, BitVec.add_right_inj, pairSum_eq_iff]
    simp
  rw [← hreach]
  constructor
  · rintro (⟨-, hjump, -⟩ | ⟨hno, -⟩)
    · have h := hjump ⟨pc, fun _ => 0#64⟩ rfl
      rw [relocTarget, hw0, hw1, call_pair_jump hpair d] at h
      exact Option.some.inj h
    · exact absurd rfl hno
  · intro htarget
    refine .inl ⟨rfl, fun s hs => ?_, ?_, ?_⟩
    · rw [relocTarget, hw0, hw1, call_pair_jump hpair d, hs, htarget]
    · rw [relocTarget, hw0]
      exact (callAuipc_fields d _).2
    · rw [relocTarget, hw1]
      exact (callJalr_fields d _).2

/-- `auipc ra, 0; jalr ra, 0(ra)`, the pair a compiler emits for a call. -/
def callPair : Mem := store (store (fun _ => 0#8) 0 4 0x00000097) 4 4 0x000080e7

theorem callPair_isCallPair : IsCallPair (load32 callPair 0) (load32 callPair (0 + 4)) := by
  constructor <;> decide

/-- A call to a function 4 KiB before the pair. -/
theorem call_reaches_back :
    IsCallPair (load32 callPair 0) (load32 callPair (0 + 4)) ∧
      CallReaches (rtldRelocAt .riscv .ok ⟨0#64, 18#32, 8#32, 0#64, 0x400000002000#64⟩
        0x400000001000#64) callPair 0 0x400000002000#64 (0x400000001000#64 + 0#64) := by
  refine ⟨callPair_isCallPair, ?_⟩
  rw [show (18#32) = CallRel.number .R_RISCV_CALL from rfl, call_reaches_iff _ _ _ _ _ _ _ _ _
    callPair_isCallPair]
  decide

/-- A call from the code arena to a function 2^32 bytes above the pair returns 0 and jumps to
the pair itself. -/
theorem call_cut_to_32_bits :
    ¬ CallReaches (rtldRelocAt .riscv .ok ⟨0#64, 18#32, 8#32, 0#64, 0x400000002000#64⟩
      0x400100002000#64) callPair 0 0x400000002000#64 (0x400100002000#64 + 0#64) := by
  rintro (⟨-, hjump, -⟩ | ⟨hno, -⟩)
  · have h := hjump ⟨0x400000002000#64, fun _ => 0#64⟩ rfl
    revert h
    decide
  · exact absurd rfl hno

/-! ## The low part of an address -/

/-- The two instruction formats that hold the low 12 bits of an address. -/
inductive LoFormat : Type where
  | I
  | S
deriving DecidableEq

namespace LoFormat

def imm : LoFormat → BitVec 32 → Word
  | I => immI
  | S => immS

/-- The bits outside the immediate are the same. -/
def SameRest (k : LoFormat) (w w' : BitVec 32) : Prop :=
  match k with
  | I => w'.extractLsb' 0 20 = w.extractLsb' 0 20
  | S => w'.extractLsb' 0 7 = w.extractLsb' 0 7 ∧ w'.extractLsb' 12 13 = w.extractLsb' 12 13

/-- The word with the low 12 bits of `v` as its immediate, as the code writes it. -/
def patch (k : LoFormat) (v : Word) : BitVec 32 → BitVec 32 :=
  match k with
  | I => blend 0xfff00000#32 ((v.setWidth 32 &&& 0xfff#32) <<< 20)
  | S => blend 0xfe000f80#32 (storeEncoding (v.setWidth 32 &&& 0xfff#32))

end LoFormat

theorem extractLsb'_setWidth_low (v : Word) {start len : Nat} (h : start + len ≤ 32) :
    (v.setWidth 32).extractLsb' start len = v.extractLsb' start len := by
  apply BitVec.eq_of_getLsbD_eq
  intro i hi
  simp [show start + i < 32 by omega]

theorem storeEncoding_fields (x : BitVec 32) :
    (storeEncoding (x &&& 0xfff#32)).extractLsb' 25 7 = x.extractLsb' 5 7 ∧
      (storeEncoding (x &&& 0xfff#32)).extractLsb' 7 5 = x.extractLsb' 0 5 := by
  constructor <;> apply BitVec.eq_of_getLsbD_eq <;> intro i hi <;>
    interval_cases i <;> simp [storeEncoding]

theorem LoFormat.imm_patch (k : LoFormat) (v : Word) (w : BitVec 32) :
    k.imm (k.patch v w) = (v.extractLsb' 0 12).signExtend 64 := by
  cases k with
  | I =>
      show immI (blend 0xfff00000#32 _ w) = _
      rw [immI, Covers.extractLsb'_blend (by decide), shift20_field,
        extractLsb'_setWidth_low v (by decide)]
  | S =>
      obtain ⟨h25, h7⟩ := storeEncoding_fields (v.setWidth 32)
      show immS (blend 0xfe000f80#32 _ w) = _
      rw [immS, Covers.extractLsb'_blend (by decide), Covers.extractLsb'_blend (by decide), h25, h7,
        extractLsb'_setWidth_low v (by decide), extractLsb'_setWidth_low v (by decide)]
      congr 1
      apply BitVec.eq_of_toInt_eq
      rw [BitVec.toInt_append]
      simp only [BitVec.toInt_eq_toNat_cond, BitVec.extractLsb'_toNat, Nat.shiftRight_eq_div_pow,
        beq_iff_eq]
      omega

theorem LoFormat.sameRest_patch (k : LoFormat) (v : Word) (w : BitVec 32) :
    k.SameRest w (k.patch v w) := by
  cases k with
  | I => exact Spares.extractLsb'_blend (by decide) _ w
  | S =>
      exact ⟨Spares.extractLsb'_blend (by decide) _ w, Spares.extractLsb'_blend (by decide) _ w⟩

/-- The base register is outside both immediates. -/
theorem LoFormat.rs1_patch (k : LoFormat) (v : Word) (w : BitVec 32) :
    rs1 (k.patch v w) = rs1 w := by
  cases k with
  | I => exact Spares.extractLsb'_blend (by decide) _ w
  | S => exact Spares.extractLsb'_blend (by decide) _ w

theorem relocLo12I_eq (off : Word) :
    relocCase.relocLo12I off = (.ok (), [.u32 (LoFormat.I.patch off)]) := by
  rw [relocCase.relocLo12I, rtldBlend_word (by decide) (by decide)]
  rfl

theorem relocLo12S_eq (off : Word) :
    relocCase.relocLo12S off = (.ok (), [.u32 (LoFormat.S.patch off)]) := by
  rw [relocCase.relocLo12S, rtldBlend_word (by decide) (by decide)]
  rfl

/-! ## Absolute addresses -/

/-- `R_RISCV_LO12_I` and `R_RISCV_LO12_S`. -/
def LoFormat.absNumber : LoFormat → BitVec 32
  | I => 27#32
  | S => 28#32

theorem rtldRelocAt_lo12 (k : LoFormat) (stub : Word → Except Errno Word)
    (symAddr addend pc sym : Word) (relSize : BitVec 32) :
    rtldRelocAt .riscv stub ⟨symAddr, k.absNumber, relSize, addend, pc⟩ sym =
      (.ok (), [.u32 (k.patch (sym + addend))]) := by
  cases k with
  | I => exact relocLo12I_eq _
  | S => exact relocLo12S_eq _

/-- The word with the upper part of `v`, not rounded, as its immediate. -/
def luiPatch (v : Word) : BitVec 32 → BitVec 32 :=
  blend 0xfffff000#32 ((v >>> 12).setWidth 32 <<< 12)

theorem rtldRelocAt_hi20 (stub : Word → Except Errno Word) (symAddr addend pc sym : Word)
    (relSize : BitVec 32) :
    rtldRelocAt .riscv stub ⟨symAddr, 26#32, relSize, addend, pc⟩ sym =
      (.ok (), [.u32 (luiPatch (sym + addend))]) := by
  show relocWrite (rtldBlend 0xfffff000#64 _) = _
  rw [rtldBlend_word (by decide) (by decide)]
  rfl

theorem luiPatch_fields (v : Word) (w : BitVec 32) :
    (luiPatch v w).extractLsb' 12 20 = v.extractLsb' 12 20 ∧
      (luiPatch v w).extractLsb' 0 12 = w.extractLsb' 0 12 := by
  have hfield : ((v >>> 12).setWidth 32 <<< 12).extractLsb' 12 20 = v.extractLsb' 12 20 := by
    apply BitVec.eq_of_getLsbD_eq
    intro i hi
    have hin : 12 + i < 32 := by omega
    simp [hin, hi]
  exact ⟨(Covers.extractLsb'_blend (by decide) _ _).trans hfield,
    Spares.extractLsb'_blend (by decide) _ _⟩

/-- Without rounding, the parts add up exactly when the low part is not negative. -/
theorem unrounded_add_iff {v : Word} (hv : InSigned 32 v) :
    (v.extractLsb' 12 20 ++ 0#12).signExtend 64 + (v.extractLsb' 0 12).signExtend 64 = v ↔
      v.getLsbD 11 = false := by
  have hlow : v.getLsbD 11 = false ↔ v.toNat / 2 ^ 11 % 2 = 0 := by
    rw [BitVec.getLsbD, Nat.testBit_eq_decide_div_mod_eq, decide_eq_false_iff_not]
    omega
  have hlt := v.isLt
  rw [InSigned, BitVec.toInt_eq_toNat_cond] at hv
  rw [← extractLsb'_setWidth_low v (by decide : 12 + 20 ≤ 32), hlow, ← BitVec.toInt_inj,
    toInt_signExtend_add (by decide) (by decide), toInt_high, BitVec.toInt_eq_toNat_cond,
    BitVec.toInt_eq_toNat_cond, BitVec.toInt_eq_toNat_cond, BitVec.extractLsb'_toNat,
    BitVec.toNat_setWidth, Nat.shiftRight_zero]
  omega

/-- A lui and an instruction of format I or S whose base is the register it sets. -/
structure IsLuiPair (w0 w1 : BitVec 32) : Prop where
  lui : opcode w0 = 0x37#7
  base : rs1 w1 = rd w0
  rd_ne : rd w0 ≠ 0#5

/-- Both relocations are applied, the pair computes `v`, and both words differ in the
immediates only. -/
structure LuiPairComputes (k : LoFormat) (r0 r1 : Except Errno Unit × List Write) (m0 m1 : Mem)
    (tgt0 tgt1 : Nat) (v : Word) : Prop where
  applied : r0.1 = .ok () ∧ r1.1 = .ok ()
  computes : ∀ s : State, (exec (load32 (relocTarget r0 m0 tgt0) tgt0) s).map
    (fun s' => s'.get (rs1 (load32 (relocTarget r1 m1 tgt1) tgt1)) +
      k.imm (load32 (relocTarget r1 m1 tgt1) tgt1)) = some v
  lui_rest : (load32 (relocTarget r0 m0 tgt0) tgt0).extractLsb' 0 12 =
    (load32 m0 tgt0).extractLsb' 0 12
  rest : k.SameRest (load32 m1 tgt1) (load32 (relocTarget r1 m1 tgt1) tgt1)

/-- **An absolute pair computes its address exactly when bit 11 of the address is clear.**
`R_RISCV_HI20` takes the upper bits as they are, while the instruction that uses the low
part extends its sign. -/
theorem lui_pair_computes_iff (k : LoFormat) (stub : Word → Except Errno Word)
    (symAddr0 symAddr1 addend pc0 pc1 sym : Word) (relSize0 relSize1 : BitVec 32) (m0 m1 : Mem)
    (tgt0 tgt1 : Nat) (hpair : IsLuiPair (load32 m0 tgt0) (load32 m1 tgt1))
    (hv : -2 ^ 31 ≤ (sym + addend).toInt ∧ (sym + addend).toInt < 2 ^ 31 - 2 ^ 11) :
    LuiPairComputes k
        (rtldRelocAt .riscv stub ⟨symAddr0, 26#32, relSize0, addend, pc0⟩ sym)
        (rtldRelocAt .riscv stub ⟨symAddr1, k.absNumber, relSize1, addend, pc1⟩ sym)
        m0 m1 tgt0 tgt1 (sym + addend) ↔
      (sym + addend).getLsbD 11 = false := by
  rw [rtldRelocAt_hi20, rtldRelocAt_lo12]
  generalize sym + addend = v at hv
  have hsigned : InSigned 32 v := ⟨hv.1, by omega⟩
  have hw0 : load32 (relocTarget (.ok (), [.u32 (luiPatch v)]) m0 tgt0) tgt0 =
      luiPatch v (load32 m0 tgt0) := load32_apply _ _ _
  have hw1 : load32 (relocTarget (.ok (), [.u32 (k.patch v)]) m1 tgt1) tgt1 =
      k.patch v (load32 m1 tgt1) := load32_apply _ _ _
  obtain ⟨hU, h0⟩ := luiPatch_fields v (load32 m0 tgt0)
  have hop : opcode (luiPatch v (load32 m0 tgt0)) = 0x37#7 :=
    (Spares.extractLsb'_blend (by decide) _ _).trans hpair.lui
  have hrd : rd (luiPatch v (load32 m0 tgt0)) = rd (load32 m0 tgt0) :=
    Spares.extractLsb'_blend (by decide) _ _
  -- what the pair computes, whatever the registers hold
  have hsum : ∀ s : State, (exec (luiPatch v (load32 m0 tgt0)) s).map
      (fun s' => s'.get (rs1 (k.patch v (load32 m1 tgt1))) +
        k.imm (k.patch v (load32 m1 tgt1))) =
      some ((v.extractLsb' 12 20 ++ 0#12).signExtend 64 + (v.extractLsb' 0 12).signExtend 64) := by
    intro s
    rw [exec_lui hop, Option.map_some, k.rs1_patch, hpair.base, hrd, get_update_same hpair.rd_ne,
      immU, hU, k.imm_patch]
  rw [← unrounded_add_iff hsigned]
  constructor
  · intro h
    have hc := h.computes ⟨0#64, fun _ => 0#64⟩
    rw [hw0, hw1, hsum] at hc
    exact Option.some.inj hc
  · intro heq
    refine ⟨⟨rfl, rfl⟩, fun s => ?_, ?_, ?_⟩
    · rw [hw0, hw1, hsum, heq]
    · rw [hw0]
      exact h0
    · rw [hw1]
      exact k.sameRest_patch v _

/-- `lui a0, 0` and `addi a0, a0, 0`. -/
def luiPair : Mem := store (store (fun _ => 0#8) 0 4 0x00000537) 4 4 0x00050513

theorem luiPair_isLuiPair : IsLuiPair (load32 luiPair 0) (load32 luiPair 4) := by
  constructor <;> decide

/-- The pair relocated for address 0x12345678. -/
theorem lui_pair_computes_sample :
    IsLuiPair (load32 luiPair 0) (load32 luiPair 4) ∧
      LuiPairComputes .I
        (rtldRelocAt .riscv .ok ⟨0#64, 26#32, 8#32, 0#64, 0x1000#64⟩ 0x12345678#64)
        (rtldRelocAt .riscv .ok ⟨0#64, 27#32, 8#32, 0#64, 0x1004#64⟩ 0x12345678#64)
        luiPair luiPair 0 4 (0x12345678#64 + 0#64) :=
  ⟨luiPair_isLuiPair,
    (lui_pair_computes_iff .I .ok 0#64 0#64 0#64 0x1000#64 0x1004#64 0x12345678#64 8#32 8#32
      luiPair luiPair 0 4 luiPair_isLuiPair (by decide)).mpr (by decide)⟩

/-- Relocated for address 0x800, the pair computes -0x800. -/
theorem lui_pair_not_rounded :
    ¬ LuiPairComputes .I
      (rtldRelocAt .riscv .ok ⟨0#64, 26#32, 8#32, 0#64, 0x1000#64⟩ 0x800#64)
      (rtldRelocAt .riscv .ok ⟨0#64, 27#32, 8#32, 0#64, 0x1004#64⟩ 0x800#64)
      luiPair luiPair 0 4 (0x800#64 + 0#64) := by
  intro h
  have hc := h.computes ⟨0#64, fun _ => 0#64⟩
  revert hc
  decide

/-! ## Compressed branches and jumps -/

inductive RvcRel : Type where
  | R_RISCV_RVC_BRANCH
  | R_RISCV_RVC_JUMP
deriving DecidableEq

namespace RvcRel

def number : RvcRel → BitVec 32
  | R_RISCV_RVC_BRANCH => 44#32
  | R_RISCV_RVC_JUMP => 45#32

def bits : RvcRel → Nat
  | R_RISCV_RVC_BRANCH => 9
  | R_RISCV_RVC_JUMP => 12

def imm : RvcRel → BitVec 16 → Word
  | R_RISCV_RVC_BRANCH => immCB
  | R_RISCV_RVC_JUMP => immCJ

/-- The word is a c.beqz or c.bnez, or a c.j. -/
def Holds (k : RvcRel) (w : BitVec 16) : Prop :=
  w.extractLsb' 0 2 = 1#2 ∧
    match k with
    | R_RISCV_RVC_BRANCH => w.extractLsb' 13 3 = 6#3 ∨ w.extractLsb' 13 3 = 7#3
    | R_RISCV_RVC_JUMP => w.extractLsb' 13 3 = 5#3

/-- Opcode, funct3 and register are the same. -/
def SameRest (k : RvcRel) (w w' : BitVec 16) : Prop :=
  w'.extractLsb' 0 2 = w.extractLsb' 0 2 ∧ w'.extractLsb' 13 3 = w.extractLsb' 13 3 ∧
    match k with
    | R_RISCV_RVC_BRANCH => w'.extractLsb' 7 3 = w.extractLsb' 7 3
    | R_RISCV_RVC_JUMP => True

def mask : RvcRel → BitVec 16
  | R_RISCV_RVC_BRANCH => 0xe383#16
  | R_RISCV_RVC_JUMP => 0xe003#16

def encoding : RvcRel → BitVec 16 → BitVec 16
  | R_RISCV_RVC_BRANCH => rvcBranchEncoding
  | R_RISCV_RVC_JUMP => rvcJumpEncoding

/-- The masks cover the opcode, and neither encoding has bits there: the relocation
clears the opcode. -/
theorem opcode_blend (k : RvcRel) (imm w : BitVec 16) :
    (blend k.mask (k.encoding imm) w).extractLsb' 0 2 = 0#2 := by
  cases k with
  | R_RISCV_RVC_BRANCH =>
      rw [Covers.extractLsb'_blend (by decide)]
      apply BitVec.eq_of_getLsbD_eq
      intro i hi
      interval_cases i <;> simp [encoding, rvcBranchEncoding]
  | R_RISCV_RVC_JUMP =>
      rw [Covers.extractLsb'_blend (by decide)]
      apply BitVec.eq_of_getLsbD_eq
      intro i hi
      interval_cases i <;> simp [encoding, rvcJumpEncoding]

end RvcRel

theorem rtldRelocAt_rvc (k : RvcRel) (stub : Word → Except Errno Word)
    (symAddr addend pc sym : Word) (relSize : BitVec 32) :
    rtldRelocAt .riscv stub ⟨symAddr, k.number, relSize, addend, pc⟩ sym =
      relocChecked (checkSignedBits (sym + addend - pc) k.bits)
        (.u16 (blend k.mask (k.encoding ((sym + addend - pc).setWidth 16)))) := by
  cases k with
  | R_RISCV_RVC_BRANCH =>
      show relocChecked _ (rtldBlend 0xe383#64 ((rvcBranchEncoding _).setWidth 64)) = _
      rw [rtldBlend_half (by decide) (by decide)]
      rfl
  | R_RISCV_RVC_JUMP =>
      show relocChecked _ (rtldBlend 0xe003#64 ((rvcJumpEncoding _).setWidth 64)) = _
      rw [rtldBlend_half (by decide) (by decide)]
      rfl

/-- If the relocation is accepted, the patched halfword has the offset as its immediate and
is otherwise what it was. -/
def RvcEncodes (k : RvcRel) (r : Except Errno Unit × List Write) (d : Word) (m : Mem)
    (tgt : Nat) : Prop :=
  r.1 = .ok () → k.imm (load16 (relocTarget r m tgt) tgt) = d ∧
    k.SameRest (load16 m tgt) (load16 (relocTarget r m tgt) tgt)

/-- **A compressed relocation is never right when it is accepted.** For every compressed
branch or jump and every even offset, the relocation does what it should exactly when the
offset is out of range and it is refused. -/
theorem rvc_encodes_iff (k : RvcRel) (stub : Word → Except Errno Word)
    (symAddr addend pc sym : Word) (relSize : BitVec 32) (m : Mem) (tgt : Nat)
    (hw : k.Holds (load16 m tgt)) (heven : (sym + addend - pc).toNat % 2 = 0) :
    RvcEncodes k (rtldRelocAt .riscv stub ⟨symAddr, k.number, relSize, addend, pc⟩ sym)
        (sym + addend - pc) m tgt ↔
      ¬ (-2 ^ (k.bits - 1) ≤ (sym + addend - pc).toInt ∧
        (sym + addend - pc).toInt < 2 ^ (k.bits - 1)) := by
  rw [rtldRelocAt_rvc]
  generalize sym + addend - pc = d at heven
  have hcheck := checkSignedBits_even heven (show 1 < k.bits by cases k <;> decide)
  cases hc : checkSignedBits d k.bits with
  | false =>
      have hout : ¬ InSigned k.bits d := by rw [← hcheck, hc]; exact Bool.false_ne_true
      exact ⟨fun _ => hout, fun _ => nofun⟩
  | true =>
      have hin : InSigned k.bits d := hcheck.mp hc
      refine ⟨fun h => ?_, fun h => absurd hin h⟩
      have hop := (h rfl).2.1
      have hpatched : load16 (relocTarget (relocChecked true (.u16 (blend k.mask
          (k.encoding (d.setWidth 16))))) m tgt) tgt =
          blend k.mask (k.encoding (d.setWidth 16)) (load16 m tgt) := load16_apply _ _ _
      rw [hpatched, k.opcode_blend, hw.1] at hop
      exact absurd hop (by decide)

/-- `c.j 0`. -/
def rvcJump : Mem := store (fun _ => 0#8) 0 2 0xa001

/-- A jump of 4 KiB does not fit and is refused. -/
theorem rvc_jump_too_far :
    RvcRel.Holds .R_RISCV_RVC_JUMP (load16 rvcJump 0) ∧
      RvcEncodes .R_RISCV_RVC_JUMP
        (rtldRelocAt .riscv .ok ⟨0#64, 45#32, 8#32, 0#64, 0x2000#64⟩ 0x3000#64)
        (0x3000#64 + 0#64 - 0x2000#64) rvcJump 0 := by
  have hw : RvcRel.Holds .R_RISCV_RVC_JUMP (load16 rvcJump 0) := ⟨by decide, by decide⟩
  exact ⟨hw, (rvc_encodes_iff .R_RISCV_RVC_JUMP .ok 0#64 0#64 0x2000#64 0x3000#64 8#32 rvcJump 0
    hw (by decide)).mpr (by decide)⟩

/-- A jump of 4 bytes leaves a halfword without opcode. -/
theorem rvc_jump_opcode_lost :
    ¬ RvcEncodes .R_RISCV_RVC_JUMP
      (rtldRelocAt .riscv .ok ⟨0#64, 45#32, 8#32, 0#64, 0x2000#64⟩ 0x2004#64)
      (0x2004#64 + 0#64 - 0x2000#64) rvcJump 0 := by
  intro h
  have hop := (h rfl).2.1
  revert hop
  decide

end Instrew.Client
