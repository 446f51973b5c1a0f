import Instrew.Client.FarStub
import Instrew.Client.Reloc

/-!
# Relocations of an AArch64 host

What sequences of patched instructions do, by `Lib.A64`: branches, page addresses with the
add, load or store that completes them, and wide moves. The headline is
`aarch64_sequences`: they form the address of the relocation, whatever the address, the
place and the stub of a far branch are, and the relocations change no bit outside their
fields.
-/

namespace Instrew.Client

open Lib Lib.Imm Lib.ByteMem Lib.CodeMem Lib.Run

/-! ## The relocations -/

/-- The relocations of instructions. `ldst k` is the one for accesses of `2 ^ k` bytes,
`R_AARCH64_LDST8_ABS_LO12_NC` to `LDST128`; `movw g` is the one for part `g`,
`R_AARCH64_MOVW_UABS_G0_NC` to `G3`. -/
inductive A64Rel : Type where
  | R_AARCH64_JUMP26
  | R_AARCH64_CALL26
  | R_AARCH64_ADR_PREL_PG_HI21
  | R_AARCH64_ADD_ABS_LO12_NC
  | ldst (k : Fin 5)
  | movw (g : Fin 4)
deriving DecidableEq

namespace A64Rel

def number : A64Rel → BitVec 32
  | R_AARCH64_JUMP26 => 282#32
  | R_AARCH64_CALL26 => 283#32
  | R_AARCH64_ADR_PREL_PG_HI21 => 275#32
  | R_AARCH64_ADD_ABS_LO12_NC => 277#32
  | ldst 0 => 278#32
  | ldst 1 => 284#32
  | ldst 2 => 285#32
  | ldst 3 => 286#32
  | ldst 4 => 299#32
  | movw 0 => 264#32
  | movw 1 => 266#32
  | movw 2 => 268#32
  | movw 3 => 269#32

/-- The immediate that the relocation sets. -/
def mask : A64Rel → BitVec 32
  | R_AARCH64_JUMP26 => 0x03ffffff#32
  | R_AARCH64_CALL26 => 0x03ffffff#32
  | R_AARCH64_ADR_PREL_PG_HI21 => 0x60ffffe0#32
  | R_AARCH64_ADD_ABS_LO12_NC => 0xfff#32 <<< 10
  | ldst k => 0xfff#32 >>> k.val <<< 10
  | movw _ => 0xffff#32 <<< 5

end A64Rel

/-- A word to be relocated. -/
structure Site : Type where
  word : BitVec 32
  patchData : RtldPatchData
  sym : Word

/-- The word after a relocation. -/
def relocWord (r : Except Errno Unit × List Write) (w : BitVec 32) : BitVec 32 :=
  load32 (relocTarget r (store (fun _ => 0#8) 0 4 w.toNat) 0) 0

namespace Site

variable (t : Site) (stub : Word → Except Errno Word) (k : A64Rel)

/-- Symbol and addend. -/
def syma : Word := t.sym + t.patchData.addend

def reloc : Except Errno Unit × List Write :=
  rtldRelocAt .aarch64 stub { t.patchData with relType := k.number } t.sym

def patched : BitVec 32 := relocWord (t.reloc stub k) t.word

end Site

theorem load32_store (w : BitVec 32) (m : Mem) (a : Nat) : load32 (store m a 4 w.toNat) a = w := by
  have hlt := w.isLt
  apply BitVec.eq_of_toNat_eq
  rw [load32, load_store, BitVec.toNat_ofNat]
  omega

theorem relocWord_u32 (c : Except Errno Unit) (f : BitVec 32 → BitVec 32) (w : BitVec 32) :
    relocWord (c, [.u32 f]) w = f w := by
  show load32 ((Write.u32 f).apply _ 0) 0 = f w
  rw [load32_apply, load32_store]

theorem relocWord_nil (c : Except Errno Unit) (w : BitVec 32) : relocWord (c, []) w = w :=
  load32_store w _ 0

/-! ## What each relocation does to its word -/

/-- The distance of a page, counted in pages. -/
def pageDistance (syma pc : Word) : Word :=
  ((syma &&& ~~~0xfff#64) - (pc &&& ~~~0xfff#64)).sshiftRight 12

/-- The immediate of an adrp. -/
def adrpEncoding (prelSyma : Word) : Word :=
  (prelSyma &&& 3#64) <<< 29 ||| ((prelSyma.sshiftRight 2) &&& 0x7ffff#64) <<< 5

namespace Site

variable (t : Site) (stub : Word → Except Errno Word)

theorem reloc_adrp : t.reloc stub .R_AARCH64_ADR_PREL_PG_HI21 =
    relocChecked (checkSignedBits (pageDistance t.syma t.patchData.patchAddr) 21)
      (.u32 (blend 0x60ffffe0#32
        ((adrpEncoding (pageDistance t.syma t.patchData.patchAddr)).setWidth 32))) := by
  show relocChecked _ (rtldBlend 0x60ffffe0#64 (adrpEncoding _)) = _
  rw [rtldBlend_u32 (by decide) (by decide)]
  rfl

theorem reloc_add : t.reloc stub .R_AARCH64_ADD_ABS_LO12_NC =
    relocWrite (.u32 (blend (0xfff#32 <<< 10) ((t.syma <<< 10).setWidth 32))) := by
  show relocWrite (rtldBlend (0xfff#64 <<< 10) _) = _
  rw [rtldBlend_u32 (by decide) (by decide)]
  rfl

theorem reloc_ldst (k : Fin 5) : t.reloc stub (.ldst k) =
    relocWrite (.u32 (blend (A64Rel.mask (.ldst k)) ((t.syma >>> k.val <<< 10).setWidth 32))) := by
  have hmasks : ∀ k : Fin 5, BitVec.ofNat 64 (2 ^ 16 - 1) < 0xfff#64 >>> k.val <<< 10 ∧
      ¬ BitVec.ofNat 64 (2 ^ 32 - 1) < 0xfff#64 >>> k.val <<< 10 ∧
      A64Rel.mask (.ldst k) = (0xfff#64 >>> k.val <<< 10).setWidth 32 := by
    decide
  obtain ⟨hlo, hhi, hmask⟩ := hmasks k
  have hform : t.reloc stub (.ldst k) =
      relocWrite (rtldBlend (0xfff#64 >>> k.val <<< 10) (t.syma >>> k.val <<< 10)) := by
    fin_cases k <;> rfl
  rw [hform, rtldBlend_u32 hlo hhi, hmask]

theorem reloc_movw (g : Fin 4) : t.reloc stub (.movw g) =
    relocWrite (.u32 (blend (0xffff#32 <<< 5) ((t.syma >>> (16 * g.val) <<< 5).setWidth 32))) := by
  have hform : t.reloc stub (.movw g) =
      relocWrite (rtldBlend (0xffff#64 <<< 5) (t.syma >>> (16 * g.val) <<< 5)) := by
    fin_cases g <;> rfl
  rw [hform, rtldBlend_u32 (by decide) (by decide)]
  rfl

/-- A branch relocation that succeeds writes a distance in reach: the one to the address,
or the one to a stub for it. -/
theorem reloc_branch {k : A64Rel} (hk : k = .R_AARCH64_JUMP26 ∨ k = .R_AARCH64_CALL26) :
    (∃ e, t.reloc stub k = (.error e, [])) ∨
    ∃ d, t.reloc stub k = relocWrite (.u32 (blend 0x03ffffff#32 ((d.sshiftRight 2).setWidth 32))) ∧
      InSigned 28 d ∧ (d = t.syma - t.patchData.patchAddr ∨
        ∃ a, stub t.syma = .ok a ∧ d = a - t.patchData.patchAddr) := by
  have hform : t.reloc stub k = relocJump26 stub t.syma t.patchData.patchAddr := by
    rcases hk with rfl | rfl <;> rfl
  have hpatch : ∀ d : Word, checkSignedBits d 28 = true →
      relocChecked (checkSignedBits d 28) (rtldBlend 0x03ffffff#64 (d.sshiftRight 2)) =
        relocWrite (.u32 (blend 0x03ffffff#32 ((d.sshiftRight 2).setWidth 32))) := by
    intro d hd
    rw [hd, rtldBlend_u32 (by decide) (by decide)]
    rfl
  rw [hform, relocJump26]
  by_cases hnear : checkSignedBits (t.syma - t.patchData.patchAddr) 28 = true
  · right
    rw [if_pos hnear]
    exact ⟨_, hpatch _ hnear, ((checkSignedBits_iff _ _).mp hnear).1, .inl rfl⟩
  · rw [if_neg hnear]
    cases hstub : stub t.syma with
    | error e => exact .inl ⟨e, rfl⟩
    | ok a =>
        by_cases hreach : checkSignedBits (a - t.patchData.patchAddr) 28 = true
        · right
          exact ⟨_, hpatch _ hreach, ((checkSignedBits_iff _ _).mp hreach).1, .inr ⟨a, rfl, rfl⟩⟩
        · left
          refine ⟨.EINVAL, ?_⟩
          rw [Bool.not_eq_true] at hreach
          simp only [hreach]
          rfl

/-- Every relocation replaces bits of its field, or fails and leaves the word alone. -/
theorem reloc_cases (k : A64Rel) :
    (∃ e, t.reloc stub k = (.error e, [])) ∨
    ∃ data, t.reloc stub k = relocWrite (.u32 (blend k.mask data)) := by
  cases k with
  | R_AARCH64_JUMP26 =>
      rcases t.reloc_branch stub (.inl rfl) with h | ⟨d, h, -⟩
      · exact .inl h
      · exact .inr ⟨_, h⟩
  | R_AARCH64_CALL26 =>
      rcases t.reloc_branch stub (.inr rfl) with h | ⟨d, h, -⟩
      · exact .inl h
      · exact .inr ⟨_, h⟩
  | R_AARCH64_ADR_PREL_PG_HI21 =>
      rw [t.reloc_adrp stub]
      cases checkSignedBits (pageDistance t.syma t.patchData.patchAddr) 21 with
      | false => exact .inl ⟨_, rfl⟩
      | true => exact .inr ⟨_, rfl⟩
  | R_AARCH64_ADD_ABS_LO12_NC => exact .inr ⟨_, t.reloc_add stub⟩
  | ldst k => exact .inr ⟨_, t.reloc_ldst stub k⟩
  | movw g => exact .inr ⟨_, t.reloc_movw stub g⟩

end Site

/-! ## The immediates -/

/-- The bits below a power of two that divides a number. -/
theorem getLsbD_of_dvd {d : Word} {k : Nat} (h : d.toNat % 2 ^ k = 0) {i : Nat} (hi : i < k) :
    d.getLsbD i = false := by
  have hdvd : 2 ^ (i + 1) ∣ d.toNat :=
    dvd_trans (Nat.pow_dvd_pow 2 hi) (Nat.dvd_of_mod_eq_zero h)
  obtain ⟨q, hq⟩ := hdvd
  rw [BitVec.getLsbD, Nat.testBit_eq_decide_div_mod_eq, hq, pow_succ, mul_assoc,
    Nat.mul_div_cancel_left _ (by positivity), Nat.mul_mod_right]
  rfl

theorem imm26_blend {d : Word} (h4 : d.toNat % 4 = 0) (hd : InSigned 28 d) (w : BitVec 32) :
    A64.imm26 (blend 0x03ffffff#32 ((d.sshiftRight 2).setWidth 32) w) = d := by
  have hcut : ((d.sshiftRight 2).setWidth 32).extractLsb' 0 26 ++ 0#2 = d.setWidth 28 := by
    apply BitVec.eq_of_getLsbD_eq
    intro i hi
    rw [BitVec.getLsbD_append, BitVec.getLsbD_setWidth]
    by_cases h2 : i < 2
    · rw [if_pos h2, getLsbD_of_dvd (k := 2) h4 h2]
      simp
    · rw [if_neg h2, BitVec.getLsbD_extractLsb', BitVec.getLsbD_setWidth,
        BitVec.getLsbD_sshiftRight]
      simp [hi, show i - 2 < 26 by omega, show i - 2 < 32 by omega, show 2 + (i - 2) = i by omega,
        show ¬ 64 ≤ i - 2 by omega, show i < 64 by omega]
  rw [A64.imm26, Covers.extractLsb'_blend (by decide), hcut]
  exact (signExtend_setWidth_iff (by decide) (by decide) d).mpr hd

theorem adrpEncoding_fields (p : Word) :
    ((adrpEncoding p).setWidth 32).extractLsb' 5 19 = p.extractLsb' 2 19 ∧
      ((adrpEncoding p).setWidth 32).extractLsb' 29 2 = p.extractLsb' 0 2 := by
  constructor <;> apply BitVec.eq_of_getLsbD_eq <;> intro i hi <;>
    interval_cases i <;> simp [adrpEncoding, BitVec.getElem_sshiftRight]

/-- Clearing the low 12 bits rounds down to a page. -/
theorem toNat_page (v : Word) : (v &&& ~~~0xfff#64).toNat = v.toNat / 4096 * 4096 :=
  toNat_and_not_sub_one (a := 0x1000#64) (k := 12) rfl v

theorem page_add_low (v : Word) :
    (v &&& ~~~0xfff#64) + (v.extractLsb' 0 12).setWidth 64 = v := by
  have hlt := v.isLt
  apply BitVec.eq_of_toNat_eq
  rw [BitVec.toNat_add, toNat_page, BitVec.toNat_setWidth, BitVec.extractLsb'_toNat,
    Nat.shiftRight_zero]
  omega

/-- Decoding the patched adrp gives the distance of the pages. -/
theorem imm21Page_blend {v pc : Word} (h : InSigned 21 (pageDistance v pc)) (w : BitVec 32) :
    A64.imm21Page (blend 0x60ffffe0#32 ((adrpEncoding (pageDistance v pc)).setWidth 32) w) =
      (v &&& ~~~0xfff#64) - (pc &&& ~~~0xfff#64) := by
  obtain ⟨hhi, hlo⟩ := adrpEncoding_fields (pageDistance v pc)
  rw [A64.imm21Page, Covers.extractLsb'_blend (by decide), Covers.extractLsb'_blend (by decide),
    hhi, hlo]
  unfold pageDistance at h ⊢
  have hdvd : ((v &&& ~~~0xfff#64) - (pc &&& ~~~0xfff#64)).toNat % 2 ^ 12 = 0 := by
    rw [BitVec.toNat_sub, toNat_page, toNat_page]
    omega
  generalize (v &&& ~~~0xfff#64) - (pc &&& ~~~0xfff#64) = d at h hdvd ⊢
  have hcut : (d.sshiftRight 12).extractLsb' 2 19 ++ (d.sshiftRight 12).extractLsb' 0 2 ++ 0#12 =
      d.setWidth 33 := by
    apply BitVec.eq_of_getLsbD_eq
    intro i hi
    rw [BitVec.getLsbD_append, BitVec.getLsbD_append, BitVec.getLsbD_setWidth]
    by_cases h12 : i < 12
    · rw [if_pos h12, getLsbD_of_dvd hdvd h12]
      simp
    · rw [if_neg h12]
      by_cases h14 : i - 12 < 2
      · rw [if_pos h14, BitVec.getLsbD_extractLsb', BitVec.getLsbD_sshiftRight]
        simp [hi, h14, show 12 + (i - 12) = i by omega, show i < 64 by omega,
          show ¬ 64 ≤ i - 12 by omega]
      · rw [if_neg h14, BitVec.getLsbD_extractLsb', BitVec.getLsbD_sshiftRight]
        simp [hi, show 12 + (2 + (i - 12 - 2)) = i by omega, show i < 64 by omega,
          show ¬ 64 ≤ 2 + (i - 12 - 2) by omega, show i - 12 - 2 < 19 by omega]
  have hd : InSigned 33 d := by
    rw [InSigned, BitVec.toInt_sshiftRight, Int.shiftRight_eq_div_pow] at h
    rw [InSigned]
    push_cast at h
    omega
  rw [hcut]
  exact (signExtend_setWidth_iff (by decide) (by decide) d).mpr hd

/-- The patched offset of a load or store, scaled, is the low part of the address. -/
theorem ldst_offset (k : Fin 5) {v : Word} {w : BitVec 32} (hv : v.toNat % 2 ^ k.val = 0)
    (hw : ∀ j, 22 - k.val ≤ j → j < 22 → w.getLsbD j = false) :
    (A64.imm12 (blend (A64Rel.mask (.ldst k)) ((v >>> k.val <<< 10).setWidth 32) w)).setWidth 64
      <<< k.val = (v.extractLsb' 0 12).setWidth 64 := by
  have hmask : ∀ k : Fin 5, ∀ j < 32, (A64Rel.mask (.ldst k)).getLsbD j =
      decide (10 ≤ j ∧ j < 22 - k.val) := by
    decide
  have hk := k.isLt
  apply BitVec.eq_of_getLsbD_eq
  intro i hi
  rw [BitVec.getLsbD_shiftLeft, BitVec.getLsbD_setWidth, BitVec.getLsbD_setWidth, A64.imm12,
    BitVec.getLsbD_extractLsb', BitVec.getLsbD_extractLsb', getLsbD_blend]
  by_cases hlow : i < k.val
  · simp [hlow, getLsbD_of_dvd hv hlow]
  · by_cases h12 : i < 12
    · have hin : 10 ≤ 10 + (i - k.val) ∧ 10 + (i - k.val) < 22 - k.val := by omega
      rw [hmask k _ (by omega), decide_eq_true hin]
      simp [hi, hlow, h12, show i - k.val < 64 by omega, show i - k.val < 12 by omega,
        show 10 + (i - k.val) < 32 by omega, show k.val + (i - k.val) = i by omega]
    · by_cases hwide : i - k.val < 12
      · have hout : ¬ (10 ≤ 10 + (i - k.val) ∧ 10 + (i - k.val) < 22 - k.val) := by omega
        rw [hmask k _ (by omega), decide_eq_false hout,
          hw (10 + (i - k.val)) (by omega) (by omega)]
        simp [h12]
      · simp [h12, hwide]

/-! ## Branches -/

/-- B or BL. -/
def IsBranch (w : BitVec 32) : Prop := A64.op w = some .b ∨ A64.op w = some .bl

/-- One step of a branch by `d`: it is taken, and only BL writes a register. -/
theorem step_branch {m : Mem} {s : A64.State} {w : BitVec 32} {d : Word} (hw : IsBranch w)
    (hword : word32 m s.pc = blend 0x03ffffff#32 ((d.sshiftRight 2).setWidth 32) w)
    (h4 : d.toNat % 4 = 0) (hd : InSigned 28 d) :
    ∃ s', A64.step m s = some s' ∧ s'.pc = s.pc + d ∧ s'.sp = s.sp ∧
      (∀ r, r ≠ 30#5 → s'.x r = s.x r) ∧
      s'.x 30#5 = if A64.op w = some .bl then s.pc + 4#64 else s.x 30#5 := by
  rw [A64.step, hword]
  rcases hw with hb | hbl
  · refine ⟨s.jump (s.pc + d), ?_, rfl, rfl, fun _ _ => rfl, ?_⟩
    · rw [A64.exec, A64.op_blend hb (by decide)]
      simp only [imm26_blend h4 hd]
    · rw [if_neg (by rw [hb]; decide)]
      rfl
  · refine ⟨(s.set 30#5 (s.pc + 4#64)).jump (s.pc + d), ?_, rfl, by simp, ?_, ?_⟩
    · rw [A64.exec, A64.op_blend hbl (by decide)]
      simp only [imm26_blend h4 hd]
    · intro r hr
      rw [A64.jump_x, A64.set_x_of_ne _ _ hr]
    · rw [if_pos hbl, A64.jump_x]
      simp [A64.State.set]

/-! ## Page addresses -/

section Pages

variable {stub : Word → Except Errno Word} {v : Word} {t : Site} {m : Mem} {s : A64.State}

/-- The patched adrp puts the page of the address into its register. -/
theorem exec_adrp (hv : t.syma = v) (hok : (t.reloc stub .R_AARCH64_ADR_PREL_PG_HI21).1 = .ok ())
    (hop : A64.op t.word = some .adrp) (hpc : s.pc = t.patchData.patchAddr) :
    A64.exec m (t.patched stub .R_AARCH64_ADR_PREL_PG_HI21) s =
      some (s.set (A64.rd t.word) (v &&& ~~~0xfff#64)).next := by
  rw [t.reloc_adrp stub, hv] at hok
  cases hc : checkSignedBits (pageDistance v t.patchData.patchAddr) 21 with
  | false =>
      rw [hc] at hok
      cases hok
  | true =>
      have hin := ((checkSignedBits_iff _ _).mp hc).1
      have hpage : (s.pc &&& ~~~0xfff#64) +
          ((v &&& ~~~0xfff#64) - (t.patchData.patchAddr &&& ~~~0xfff#64)) = v &&& ~~~0xfff#64 := by
        rw [hpc, BitVec.add_comm, BitVec.sub_add_cancel]
      rw [Site.patched, t.reloc_adrp stub, hv, hc]
      show A64.exec m (relocWord (.ok (), [.u32 _]) _) s = _
      rw [relocWord_u32, A64.exec, A64.op_blend hop (by decide)]
      simp only [imm21Page_blend hin, hpage]
      rw [A64.rd, Spares.extractLsb'_blend (by decide), ← A64.rd]

theorem exec_add {t' : Site} (hv : t'.syma = v) (hop : A64.op t'.word = some .addImm)
    (hbase : s.getSp (A64.rn t'.word) = v &&& ~~~0xfff#64) :
    A64.exec m (t'.patched stub .R_AARCH64_ADD_ABS_LO12_NC) s =
      some (s.setSp (A64.rd t'.word) v).next := by
  have himm : A64.imm12 (blend (0xfff#32 <<< 10) ((v <<< 10).setWidth 32) t'.word) =
      v.extractLsb' 0 12 := by
    rw [A64.imm12, Covers.extractLsb'_blend (by decide)]
    apply BitVec.eq_of_getLsbD_eq
    intro i hi
    simp [hi, show 10 + i < 32 by omega]
  rw [Site.patched, t'.reloc_add stub, hv]
  show A64.exec m (relocWord (.ok (), [.u32 _]) _) s = _
  rw [relocWord_u32, A64.exec, A64.op_blend hop (by decide)]
  simp only [himm]
  rw [A64.rn, Spares.extractLsb'_blend (by decide), ← A64.rn, A64.rd,
    Spares.extractLsb'_blend (by decide), ← A64.rd, hbase, page_add_low]

theorem access_patched (k : Fin 5) {t' : Site} (hv : t'.syma = v)
    (hw : A64.IsAccess t'.word) (hscale : A64.accessScale t'.word = k)
    (hbase : s.getSp (A64.rn t'.word) = v &&& ~~~0xfff#64) (halign : v.toNat % 2 ^ k.val = 0)
    (hzero : ∀ j, 22 - k.val ≤ j → j < 22 → t'.word.getLsbD j = false) :
    A64.IsAccess (t'.patched stub (.ldst k)) ∧ A64.accessScale (t'.patched stub (.ldst k)) = k ∧
      A64.accessAddr (t'.patched stub (.ldst k)) s = v := by
  have hspares : ∀ k : Fin 5, (A64Rel.mask (.ldst k) &&& 0x3b000000#32 = 0#32) ∧
      Spares (A64Rel.mask (.ldst k)) 26 1 ∧ Spares (A64Rel.mask (.ldst k)) 23 1 ∧
      Spares (A64Rel.mask (.ldst k)) 30 2 ∧ Spares (A64Rel.mask (.ldst k)) 5 5 := by
    decide
  obtain ⟨haccess, h26, h23, h30, h5⟩ := hspares k
  have hword : t'.patched stub (.ldst k) =
      blend (A64Rel.mask (.ldst k)) ((v >>> k.val <<< 10).setWidth 32) t'.word := by
    rw [Site.patched, t'.reloc_ldst stub, hv]
    exact relocWord_u32 _ _ _
  have hscale' : A64.accessScale (t'.patched stub (.ldst k)) = k := by
    rw [hword, ← hscale, A64.accessScale, A64.accessScale, h26.extractLsb'_blend,
      h23.extractLsb'_blend, h30.extractLsb'_blend]
  refine ⟨?_, hscale', ?_⟩
  · rw [hword, A64.IsAccess, blend_and haccess]
    exact hw
  · rw [A64.accessAddr, hscale', hword, ldst_offset k halign hzero, A64.rn, h5.extractLsb'_blend,
      ← A64.rn, hbase, page_add_low]

end Pages

/-! ## The sequences -/

/-- **What AArch64 relocations are for.** When every relocation involved succeeds, the
patched sequences form the address `v`; the bits outside an immediate never change, and a
relocation that fails changes nothing. -/
structure FormsAddress (stub : Word → Except Errno Word) (v : Word) : Prop where
  /-- A branch leads to the address, directly or through a far-jump stub for it. -/
  branch : ∀ (k : A64Rel) (t : Site), k = .R_AARCH64_JUMP26 ∨ k = .R_AARCH64_CALL26 →
    t.syma = v → (t.reloc stub k).1 = .ok () → IsBranch t.word →
    v.toNat % 4 = 0 → t.patchData.patchAddr.toNat % 4 = 0 →
    ∀ (m : Mem) (s : A64.State), s.pc = t.patchData.patchAddr →
      word32 m s.pc = t.patched stub k →
      (∀ a, stub v = .ok a → a.toNat % 64 = 0 ∧ Holds m a.toNat (StubHost.aarch64.stcode v)) →
      ∃ n s', (n = 1 ∨ n = 6) ∧ steps (A64.step m) n s = some s' ∧ s'.pc = v ∧ s'.sp = s.sp ∧
        (∀ r, r ≠ 16#5 → r ≠ 30#5 → s'.x r = s.x r) ∧
        s'.x 30#5 = if A64.op t.word = some .bl then s.pc + 4#64 else s.x 30#5
  /-- An adrp and an add through its register. -/
  adrpAdd : ∀ t t' : Site, t.syma = v → t'.syma = v →
    (t.reloc stub .R_AARCH64_ADR_PREL_PG_HI21).1 = .ok () →
    (t'.reloc stub .R_AARCH64_ADD_ABS_LO12_NC).1 = .ok () →
    A64.op t.word = some .adrp → A64.op t'.word = some .addImm →
    A64.rn t'.word = A64.rd t.word → A64.rd t.word ≠ 31#5 →
    ∀ (m : Mem) (s : A64.State), s.pc = t.patchData.patchAddr →
      ∃ s', A64.execs m [t.patched stub .R_AARCH64_ADR_PREL_PG_HI21,
        t'.patched stub .R_AARCH64_ADD_ABS_LO12_NC] s = some s' ∧
        s'.getSp (A64.rd t'.word) = v
  /-- An adrp and a load or store of an aligned address through its register. -/
  adrpAccess : ∀ (k : Fin 5) (t t' : Site), t.syma = v → t'.syma = v →
    (t.reloc stub .R_AARCH64_ADR_PREL_PG_HI21).1 = .ok () →
    (t'.reloc stub (.ldst k)).1 = .ok () →
    A64.op t.word = some .adrp → A64.IsAccess t'.word → A64.accessScale t'.word = k →
    A64.rn t'.word = A64.rd t.word → A64.rd t.word ≠ 31#5 →
    v.toNat % 2 ^ k.val = 0 → (∀ j, 22 - k.val ≤ j → j < 22 → t'.word.getLsbD j = false) →
    ∀ (m : Mem) (s : A64.State), s.pc = t.patchData.patchAddr →
      ∃ s', A64.exec m (t.patched stub .R_AARCH64_ADR_PREL_PG_HI21) s = some s' ∧
        A64.IsAccess (t'.patched stub (.ldst k)) ∧
        A64.accessScale (t'.patched stub (.ldst k)) = k ∧
        A64.accessAddr (t'.patched stub (.ldst k)) s' = v
  /-- A movz and movks, each relocated for the part it moves, in any order that has every
  part. -/
  moves : ∀ (t : Site) (ts : List Site), (∀ u ∈ t :: ts, u.syma = v) →
    (∀ u ∈ t :: ts, (u.reloc stub (.movw (A64.hw u.word).toFin)).1 = .ok ()) →
    A64.op t.word = some .movz → (∀ u ∈ ts, A64.op u.word = some .movk) →
    (∀ u ∈ ts, A64.rd u.word = A64.rd t.word) → A64.rd t.word ≠ 31#5 →
    (∀ g, ∃ u ∈ t :: ts, A64.hw u.word = g) →
    ∀ (m : Mem) (s : A64.State),
      ∃ s', A64.execs m ((t :: ts).map fun u => u.patched stub (.movw (A64.hw u.word).toFin)) s =
        some s' ∧ s'.get (A64.rd t.word) = v
  rest : ∀ (k : A64Rel) (t : Site), t.patched stub k &&& ~~~k.mask = t.word &&& ~~~k.mask
  refused : ∀ (k : A64Rel) (t : Site), (t.reloc stub k).1 ≠ .ok () → t.patched stub k = t.word

/-- A branch that is relocated has the distance to the symbol, or to a stub for it. -/
theorem Site.patched_branch (t : Site) {stub : Word → Except Errno Word} {k : A64Rel}
    (hk : k = .R_AARCH64_JUMP26 ∨ k = .R_AARCH64_CALL26) (hok : (t.reloc stub k).1 = .ok ()) :
    ∃ d, t.patched stub k = blend 0x03ffffff#32 ((d.sshiftRight 2).setWidth 32) t.word ∧
      InSigned 28 d ∧ (d = t.syma - t.patchData.patchAddr ∨
        ∃ a, stub t.syma = .ok a ∧ d = a - t.patchData.patchAddr) := by
  rcases t.reloc_branch stub hk with ⟨e, he⟩ | ⟨d, hreloc, hd, hdist⟩
  · rw [he] at hok
    cases hok
  · refine ⟨d, ?_, hd, hdist⟩
    rw [Site.patched, hreloc]
    exact relocWord_u32 _ _ _

theorem toNat_sub_mod_four {a b : Word} (ha : a.toNat % 4 = 0) (hb : b.toNat % 4 = 0) :
    (a - b).toNat % 4 = 0 := by
  rw [BitVec.toNat_sub]
  omega

/-- A wide move that is relocated moves its part of the symbol. -/
theorem Site.patched_movw (u : Site) (stub : Word → Except Errno Word) {o : A64.Op}
    (hop : A64.op u.word = some o) (hmask : 0x1fffe0#32 &&& o.mask = 0#32) :
    A64.MovesPart o (A64.rd u.word) u.syma (u.patched stub (.movw (A64.hw u.word).toFin)) ∧
      A64.hw (u.patched stub (.movw (A64.hw u.word).toFin)) = A64.hw u.word := by
  apply A64.movesPart_blend hop hmask
  rw [Site.patched, u.reloc_movw stub]
  exact relocWord_u32 _ _ _

/-- **The relocations of AArch64 are right.** -/
theorem aarch64_sequences (stub : Word → Except Errno Word) (v : Word) : FormsAddress stub v where
  branch := by
    intro k t hk hv hok hw hv4 hpc4 m s hpc hword hstub
    obtain ⟨d, hpatched, hd, hdist⟩ := t.patched_branch hk hok
    have hdecode : word32 m s.pc = blend 0x03ffffff#32 ((d.sshiftRight 2).setWidth 32) t.word :=
      hword.trans hpatched
    rw [hv] at hdist
    rcases hdist with rfl | ⟨a, ha, rfl⟩
    · have h4 := toNat_sub_mod_four hv4 hpc4
      obtain ⟨s', hstep, hpc', hsp, hx, hlink⟩ := step_branch hw hdecode h4 hd
      refine ⟨1, s', .inl rfl, ?_, ?_, hsp, fun r _ hr => hx r hr, hlink⟩
      · rw [steps_succ hstep, steps]
      · rw [hpc', hpc, BitVec.add_comm, BitVec.sub_add_cancel]
    · obtain ⟨halign, hcode⟩ := hstub a ha
      have hlt := a.isLt
      have h4 : (a - t.patchData.patchAddr).toNat % 4 = 0 := toNat_sub_mod_four (by omega) hpc4
      obtain ⟨s₁, hstep, hpc₁, hsp₁, hx₁, hlink⟩ := step_branch hw hdecode h4 hd
      have ha₁ : s₁.pc = a := by rw [hpc₁, hpc, BitVec.add_comm, BitVec.sub_add_cancel]
      rw [← ha₁] at hcode halign hlt
      obtain ⟨s', hsteps, hpc', hsp, hx⟩ := addStub_aarch64 (by omega) hcode
      refine ⟨6, s', .inr rfl, ?_, hpc', hsp.trans hsp₁, ?_, ?_⟩
      · rw [steps_succ hstep, hsteps]
      · intro r h16 h30
        rw [hx r h16, hx₁ r h30]
      · rw [hx _ (by decide), hlink]
  adrpAdd := by
    intro t t' hv hv' hok _ hop hop' hrn hrd m s hpc
    have hbase : (s.set (A64.rd t.word) (v &&& ~~~0xfff#64)).next.getSp (A64.rn t'.word) =
        v &&& ~~~0xfff#64 := by
      rw [hrn, A64.next_getSp, A64.getSp_set_same _ _ hrd]
    refine ⟨((s.set (A64.rd t.word) (v &&& ~~~0xfff#64)).next.setSp (A64.rd t'.word) v).next,
      ?_, ?_⟩
    · rw [A64.execs, exec_adrp hv hok hop hpc, Option.bind_some, A64.execs,
        exec_add hv' hop' hbase, Option.bind_some, A64.execs]
    · rw [A64.next_getSp, A64.getSp_setSp_same]
  adrpAccess := by
    intro k t t' hv hv' hok _ hop hw hscale hrn hrd halign hzero m s hpc
    refine ⟨_, exec_adrp hv hok hop hpc, access_patched k hv' hw hscale ?_ halign hzero⟩
    rw [hrn, A64.next_getSp, A64.getSp_set_same _ _ hrd]
  moves := by
    intro t ts hv _ hz hk hrd hr hall m s
    have hz' := t.patched_movw stub hz (by decide)
    have hk' := fun (u : Site) hu => u.patched_movw stub (hk u hu) (by decide)
    rw [hv t List.mem_cons_self] at hz'
    have hmovk : ∀ w ∈ ts.map fun u => u.patched stub (.movw (A64.hw u.word).toFin),
        A64.MovesPart .movk (A64.rd t.word) v w := by
      intro w hw
      obtain ⟨u, hu, rfl⟩ := List.mem_map.mp hw
      rw [← hrd u hu, ← hv u (List.mem_cons_of_mem _ hu)]
      exact (hk' u hu).1
    have hparts : ∀ g, ∃ w ∈ (t :: ts).map fun u =>
        u.patched stub (.movw (A64.hw u.word).toFin), A64.hw w = g := by
      intro g
      obtain ⟨u, hu, rfl⟩ := hall g
      rcases List.mem_cons.mp hu with rfl | hu
      · exact ⟨_, List.mem_cons_self, hz'.2⟩
      · exact ⟨_, List.mem_cons_of_mem _ (List.mem_map_of_mem hu), (hk' u hu).2⟩
    obtain ⟨s', hrun, hget, -⟩ := A64.execs_wide (m := m) hr hz'.1 hmovk hparts s
    exact ⟨s', hrun, hget⟩
  rest := by
    intro k t
    rcases t.reloc_cases stub k with ⟨e, he⟩ | ⟨data, hdata⟩
    · rw [Site.patched, he, relocWord_nil]
    · rw [Site.patched, hdata]
      show relocWord (.ok (), [.u32 _]) _ &&& _ = _
      rw [relocWord_u32, blend_and_not]
  refused := by
    intro k t hno
    rcases t.reloc_cases stub k with ⟨e, he⟩ | ⟨data, hdata⟩
    · rw [Site.patched, he, relocWord_nil]
    · rw [hdata] at hno
      exact absurd rfl hno

/-! The symbol 0x7f0000012340, called from far away through a stub, and formed by each of the
sequences. -/

/-- A word at `pc`. -/
def siteAt (pc : Word) (w : BitVec 32) : Site := ⟨w, ⟨0#64, 0#32, 4#32, 0#64, pc⟩, 0x7f0000012340#64⟩

def stubAt (_ : Word) : Except Errno Word := .ok 0x400000020000#64

/-- A bl, and the stub. -/
def farCallMem : Mem :=
  writeBytes (store (fun _ => 0#8) 0x400000010000 4
    ((siteAt 0x400000010000#64 0x94000000#32).patched stubAt .R_AARCH64_CALL26).toNat)
    0x400000020000 (StubHost.aarch64.stcode 0x7f0000012340#64)

def a64At (pc : Word) : A64.State := ⟨pc, fun _ => 0#64, 0#64⟩

theorem aarch64_sequences_formed :
    (∃ n s', steps (A64.step farCallMem) n (a64At 0x400000010000#64) = some s' ∧
      s'.pc = 0x7f0000012340#64) ∧
    (∃ s', A64.execs farCallMem
        [(siteAt 0x7f0000000000#64 0x90000000#32).patched stubAt .R_AARCH64_ADR_PREL_PG_HI21,
          (siteAt 0x7f0000000004#64 0x91000000#32).patched stubAt .R_AARCH64_ADD_ABS_LO12_NC]
        (a64At 0x7f0000000000#64) = some s' ∧ s'.getSp 0#5 = 0x7f0000012340#64) ∧
    (∃ s', A64.exec farCallMem
        ((siteAt 0x7f0000000000#64 0x90000000#32).patched stubAt .R_AARCH64_ADR_PREL_PG_HI21)
        (a64At 0x7f0000000000#64) = some s' ∧
      A64.accessAddr ((siteAt 0x7f0000000004#64 0xf9400001#32).patched stubAt (.ldst 3)) s' =
        0x7f0000012340#64) ∧
    ∃ s', A64.execs farCallMem
        ((siteAt 0#64 0xd2800000#32 :: [siteAt 4#64 0xf2a00000#32, siteAt 8#64 0xf2c00000#32,
          siteAt 12#64 0xf2e00000#32]).map fun u => u.patched stubAt (.movw (A64.hw u.word).toFin))
        (a64At 0#64) = some s' ∧ s'.get 0#5 = 0x7f0000012340#64 := by
  have h := aarch64_sequences stubAt 0x7f0000012340#64
  refine ⟨?_, ?_, ?_, ?_⟩
  · obtain ⟨n, s', -, hsteps, hpc, -⟩ := h.branch .R_AARCH64_CALL26
      (siteAt 0x400000010000#64 0x94000000#32) (.inr rfl) (by decide) (by decide)
      (.inr (by decide)) (by decide) (by decide) farCallMem (a64At 0x400000010000#64) rfl (by decide)
      (fun a ha => by
        obtain rfl := Except.ok.inj ha
        exact ⟨by decide, holds_writeBytes _ _ _⟩)
    exact ⟨n, s', hsteps, hpc⟩
  · exact h.adrpAdd _ _ (by decide) (by decide) (by decide) (by decide) (by decide) (by decide)
      (by decide) (by decide) farCallMem _ rfl
  · obtain ⟨s', hexec, -, -, haddr⟩ := h.adrpAccess 3 (siteAt 0x7f0000000000#64 0x90000000#32)
      (siteAt 0x7f0000000004#64 0xf9400001#32) (by decide) (by decide) (by decide) (by decide)
      (by decide) (by decide) (by decide) (by decide) (by decide) (by decide) (by decide)
      farCallMem (a64At 0x7f0000000000#64) rfl
    exact ⟨s', hexec, haddr⟩
  · exact h.moves (siteAt 0#64 0xd2800000#32) _ (by decide) (by decide) (by decide) (by decide)
      (by decide) (by decide) (by decide) farCallMem _

end Instrew.Client
