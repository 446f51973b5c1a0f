import Instrew.Client.RelocAarch64

/-!
# Late patching

`rtld_patch` of `client/rtld.c`: a relocation made again, when its target has been
translated. It copies an 8-byte window, relocates the copy and writes it back.

Every relocation except the accumulators of RISC-V overwrites the bits under a mask that
only depends on its type (`relocCase_overwrites`), so what an earlier relocation left there
does not matter. The headline is `late_patch_links`: patching a place that was linked to a
stub leaves what linking it to the new target at once would have left.
-/

namespace Instrew.Client

open Lib Lib.Imm Lib.ByteMem Lib.CodeMem Lib.Run
open RelType

/-! ## `rtld_patch` -/

/-- `rtld_patch`; `unset` is what was on the stack at `reloc_buf`. -/
def rtldPatch (host : Host) (rtldElfAddStub : Word → Except Errno Word) (unset : Mem)
    (patchData : Option RtldPatchData) (sym : Word) (m : Mem) : Mem :=
  match patchData with
  | none => m
  | some pd =>
      if 8 < pd.relSize.toNat then m
      else
        let relocBuf : Mem := fun o =>
          if o < pd.relSize.toNat then m (pd.patchAddr.toNat + o) else unset o
        -- the returned code is ignored
        let relocBuf := relocTarget (rtldRelocAt host rtldElfAddStub pd sym) relocBuf 0
        writeBytes m pd.patchAddr.toNat ((List.range pd.relSize.toNat).map relocBuf)

/-! ## Windows of eight bytes -/

/-- The 8 bytes from `p` on. -/
def window (m : Mem) (p : Nat) : Word := BitVec.ofNat 64 (load m p 8)

theorem getLsbD_window (m : Mem) (p : Nat) {i : Nat} (hi : i < 64) :
    (window m p).getLsbD i = (m (p + i / 8)).getLsbD (i % 8) := by
  rw [window, BitVec.getLsbD_ofNat, decide_eq_true hi, Bool.true_and, testBit_load (by omega)]

theorem extractLsb'_window (m : Mem) (p : Nat) {j : Nat} (hj : j < 8) :
    (window m p).extractLsb' (8 * j) 8 = m (p + j) := by
  apply BitVec.eq_of_getLsbD_eq
  intro i hi
  rw [BitVec.getLsbD_extractLsb', decide_eq_true hi, Bool.true_and,
    getLsbD_window m p (by omega), show (8 * j + i) / 8 = j by omega,
    show (8 * j + i) % 8 = i by omega]

theorem window_congr {m m' : Mem} {p p' : Nat} (h : ∀ j < 8, m (p + j) = m' (p' + j)) :
    window m p = window m' p' := by
  apply BitVec.eq_of_getLsbD_eq
  intro i hi
  rw [getLsbD_window m p hi, getLsbD_window m' p' hi, h (i / 8) (by omega)]

/-- Replacing bits of `n` bytes of the window replaces them in the window. -/
theorem window_store_blend (m : Mem) (p : Nat) {n k : Nat} (hk : k + n ≤ 8)
    (mask data : BitVec (8 * n)) :
    window (store m (p + k) n (blend mask data (BitVec.ofNat (8 * n) (load m (p + k) n))).toNat) p =
      blend (mask.setWidth 64 <<< (8 * k)) (data.setWidth 64 <<< (8 * k)) (window m p) := by
  apply BitVec.eq_of_getLsbD_eq
  intro i hi
  rw [getLsbD_window _ p hi, getLsbD_blend, BitVec.getLsbD_shiftLeft, BitVec.getLsbD_shiftLeft,
    BitVec.getLsbD_setWidth, BitVec.getLsbD_setWidth, decide_eq_true hi]
  by_cases hlow : i < 8 * k
  · rw [store_of_not_mem (by omega), getLsbD_window m p hi]
    simp [hlow]
  · rw [getLsbD_window m p hi]
    by_cases hhigh : i < 8 * k + 8 * n
    · -- bit `i` of the window is bit `i - 8 * k` of the number
      have hbyte : p + i / 8 = p + k + (i - 8 * k) / 8 := by omega
      have hbit : i % 8 = (i - 8 * k) % 8 := by omega
      rw [hbyte, hbit, getLsbD_store (by omega), ← BitVec.getLsbD, getLsbD_blend,
        BitVec.getLsbD_ofNat, testBit_load (by omega)]
      simp [hlow, show i - 8 * k < 64 by omega, show i - 8 * k < 8 * n by omega]
    · rw [store_of_not_mem (by omega)]
      simp [hlow, BitVec.getLsbD_of_ge mask (i - 8 * k) (by omega)]

/-! ## Relocations that overwrite -/

/-- The bits of the window that a relocation sets. The accumulators of RISC-V add to what
is there. -/
def RelType.field : RelType → Option Word
  | R_X86_64_PC64 | R_AARCH64_PREL64 | R_X86_64_64 | R_RISCV_64 => some (BitVec.allOnes 64)
  | R_X86_64_PC32 | R_X86_64_PLT32 | R_X86_64_32S | R_X86_64_32 | R_AARCH64_PREL32
  | R_RISCV_32_PCREL | R_RISCV_32 | R_RISCV_SET32 => some 0xffffffff#64
  | R_AARCH64_JUMP26 | R_AARCH64_CALL26 => some 0x03ffffff#64
  | R_AARCH64_ADR_PREL_PG_HI21 => some 0x60ffffe0#64
  | R_AARCH64_ADD_ABS_LO12_NC | R_AARCH64_LDST8_ABS_LO12_NC => some (0xfff#64 <<< 10)
  | R_AARCH64_LDST16_ABS_LO12_NC => some (0xfff#64 >>> 1 <<< 10)
  | R_AARCH64_LDST32_ABS_LO12_NC => some (0xfff#64 >>> 2 <<< 10)
  | R_AARCH64_LDST64_ABS_LO12_NC => some (0xfff#64 >>> 3 <<< 10)
  | R_AARCH64_LDST128_ABS_LO12_NC => some (0xfff#64 >>> 4 <<< 10)
  | R_AARCH64_MOVW_UABS_G0_NC | R_AARCH64_MOVW_UABS_G1_NC | R_AARCH64_MOVW_UABS_G2_NC
  | R_AARCH64_MOVW_UABS_G3 => some (0xffff#64 <<< 5)
  | R_RISCV_JAL | R_RISCV_PCREL_HI20 | R_RISCV_HI20 => some 0xfffff000#64
  | R_RISCV_PCREL_LO12_I | R_RISCV_LO12_I => some 0xfff00000#64
  | R_RISCV_BRANCH | R_RISCV_PCREL_LO12_S | R_RISCV_LO12_S => some 0xfe000f80#64
  | R_RISCV_CALL | R_RISCV_CALL_PLT => some 0xfff00000fffff000#64
  | R_RISCV_SET6 => some 0x3f#64
  | R_RISCV_SET8 => some 0xff#64
  | R_RISCV_SET16 => some 0xffff#64
  | R_RISCV_RVC_BRANCH => some 0xe383#64
  | R_RISCV_RVC_JUMP => some 0xe003#64
  | R_RISCV_ADD8 | R_RISCV_ADD16 | R_RISCV_ADD32 | R_RISCV_ADD64 | R_RISCV_SUB8 | R_RISCV_SUB16
  | R_RISCV_SUB32 | R_RISCV_SUB64 | R_RISCV_SUB6 => none

/-- The writes replace the bits under the mask, and nothing else of the window. -/
def Overwrites (ws : List Write) (mask data : Word) : Prop :=
  ∀ m p, window (applyWrites ws m p) p = blend mask data (window m p)

/-- A write that replaces bits of the `n` bytes it covers. -/
def Write.Blends (w : Write) {n : Nat} (mask data : BitVec (8 * n)) : Prop :=
  w.width = n ∧ ∀ old, w.value old = (blend mask data (BitVec.ofNat (8 * n) old)).toNat

section Overwrites

variable {w : Write} {n : Nat} {mask data : BitVec (8 * n)}

theorem Write.Blends.window_apply (h : w.Blends mask data) (m : Mem) (p : Nat) {k : Nat}
    (hk : k + n ≤ 8) :
    window (w.apply m (p + k)) p =
      blend (mask.setWidth 64 <<< (8 * k)) (data.setWidth 64 <<< (8 * k)) (window m p) := by
  obtain ⟨hwidth, hvalue⟩ := h
  rw [Write.apply, hvalue, hwidth, window_store_blend m p hk]

theorem Write.Blends.overwrites (h : w.Blends mask data) (hn : n ≤ 8) :
    Overwrites [w] (mask.setWidth 64) (data.setWidth 64) := by
  intro m p
  have happly := h.window_apply m p (k := 0) (by omega)
  rwa [Nat.mul_zero, BitVec.shiftLeft_zero, BitVec.shiftLeft_zero] at happly

/-- A blend of 64 bits whose mask fits the `n` bytes written. -/
theorem overwrites_of_lt {mask data : Word} (hn : n ≤ 8) (hmask : mask.toNat < 2 ^ (8 * n))
    (h : w.Blends (mask.setWidth (8 * n)) (data.setWidth (8 * n))) : Overwrites [w] mask data := by
  have hwide : (mask.setWidth (8 * n)).setWidth 64 = mask := by
    apply BitVec.eq_of_toNat_eq
    rw [BitVec.toNat_setWidth, BitVec.toNat_setWidth, Nat.mod_eq_of_lt hmask,
      Nat.mod_eq_of_lt mask.isLt]
  have hdata : (data.setWidth (8 * n)).setWidth 64 &&& mask = data &&& mask := by
    rw [← hwide]
    apply BitVec.eq_of_getLsbD_eq
    intro i hi
    simp only [BitVec.getLsbD_and, BitVec.getLsbD_setWidth, hi, decide_true, Bool.true_and]
    by_cases hin : i < 8 * n
    · rw [decide_eq_true hin, Bool.true_and]
    · simp [hin]
  intro m p
  rw [h.overwrites hn m p, hwide, blend, hdata, ← blend]

theorem rtldBlend_overwrites (mask data : Word) : Overwrites [rtldBlend mask data] mask data := by
  have hcut : ∀ {k : Nat}, ¬ BitVec.ofNat 64 (2 ^ k - 1) < mask → k ≤ 32 → mask.toNat < 2 ^ k := by
    intro k hk hle
    have hpow : 2 ^ k ≤ 2 ^ 32 := Nat.pow_le_pow_right (by decide) hle
    have hpos : 0 < 2 ^ k := Nat.two_pow_pos k
    rw [BitVec.lt_def, BitVec.toNat_ofNat, Nat.mod_eq_of_lt (by omega)] at hk
    omega
  rw [rtldBlend]
  split_ifs with h64 h32 h16
  · have hblends : (Write.u64 (blend mask data)).Blends (n := 8) mask data := ⟨rfl, fun _ => rfl⟩
    have h := hblends.overwrites le_rfl
    rwa [BitVec.setWidth_eq, BitVec.setWidth_eq] at h
  · exact overwrites_of_lt (n := 4) (by decide) (hcut h64 le_rfl)
      ⟨rfl, fun _ => congrArg BitVec.toNat (setWidth_blend (by decide) mask data _)⟩
  · exact overwrites_of_lt (n := 2) (by decide) (hcut h32 (by decide))
      ⟨rfl, fun _ => congrArg BitVec.toNat (setWidth_blend (by decide) mask data _)⟩
  · exact overwrites_of_lt (n := 1) (by decide) (hcut h16 (by decide))
      ⟨rfl, fun _ => congrArg BitVec.toNat (setWidth_blend (by decide) mask data _)⟩

end Overwrites

/-- A relocation that is refused without a write, or overwrites its field. -/
def RefusesOrOverwrites (r : Except Errno Unit × List Write) (mask : Word) : Prop :=
  (∃ e, r = (.error e, [])) ∨ ∃ data, r.1 = .ok () ∧ Overwrites r.2 mask data

theorem relocWrite_overwrites (mask data : Word) :
    RefusesOrOverwrites (relocWrite (rtldBlend mask data)) mask :=
  .inr ⟨data, rfl, rtldBlend_overwrites mask data⟩

theorem relocChecked_overwrites (inRange : Bool) (mask data : Word) :
    RefusesOrOverwrites (relocChecked inRange (rtldBlend mask data)) mask := by
  cases inRange with
  | false => exact .inl ⟨.EINVAL, rfl⟩
  | true => exact relocWrite_overwrites mask data

theorem relocJump26_overwrites (addStub : Word → Except Errno Word) (syma pc : Word) :
    RefusesOrOverwrites (relocJump26 addStub syma pc) 0x03ffffff#64 := by
  rw [relocJump26]
  split_ifs
  · exact relocChecked_overwrites _ _ _
  · cases addStub syma with
    | error e => exact .inl ⟨e, rfl⟩
    | ok stub => exact relocChecked_overwrites _ _ _

/-- The two words of a call. -/
theorem call_overwrites (hi lo : BitVec 32) : ∃ data,
    Overwrites [.u32 fun old => old &&& 0xfff#32 ||| hi <<< 12,
      .u32 fun old => old &&& 0xfffff#32 ||| lo <<< 20] 0xfff00000fffff000#64 data := by
  have hauipc : (Write.u32 fun old => old &&& 0xfff#32 ||| hi <<< 12).Blends (n := 4)
      0xfffff000#32 (hi <<< 12) :=
    ⟨rfl, fun old => congrArg BitVec.toNat (or_shiftLeft_eq_blend (BitVec.ofNat 32 old) hi 12)⟩
  have hjalr : (Write.u32 fun old => old &&& 0xfffff#32 ||| lo <<< 20).Blends (n := 4)
      0xfff00000#32 (lo <<< 20) :=
    ⟨rfl, fun old => congrArg BitVec.toNat (or_shiftLeft_eq_blend (BitVec.ofNat 32 old) lo 20)⟩
  refine ⟨blend (0xfff00000#64 <<< 32) ((lo <<< 20).setWidth 64 <<< 32) ((hi <<< 12).setWidth 64),
    fun m p => ?_⟩
  have h := hauipc.overwrites (by decide) m p
  have h' := hjalr.window_apply (applyWrites [.u32 fun old => old &&& 0xfff#32 ||| hi <<< 12] m p)
    p (k := 4) (by decide)
  rw [h, blend_blend_or] at h'
  exact h'

/-- A write that does not look at what it replaces. -/
theorem relocSet_overwrites {w : Write} {n : Nat} {data : BitVec (8 * n)} (hn : n ≤ 8)
    (h : w.width = n ∧ ∀ old, w.value old = data.toNat) :
    RefusesOrOverwrites (relocWrite w) ((BitVec.allOnes (8 * n)).setWidth 64) := by
  have hblends : w.Blends (BitVec.allOnes (8 * n)) data :=
    ⟨h.1, fun old => by rw [h.2, blend_allOnes]⟩
  exact .inr ⟨_, rfl, hblends.overwrites hn⟩

/-- **Every relocation but the accumulators overwrites its field.** -/
theorem relocCase_overwrites {t : RelType} {mask : Word} (ht : t.field = some mask)
    (addStub : Word → Except Errno Word) (syma pc : Word) :
    RefusesOrOverwrites (relocCase addStub syma pc t) mask := by
  cases t <;> cases ht
  case R_RISCV_CALL | R_RISCV_CALL_PLT =>
    obtain ⟨data, h⟩ := call_overwrites (pcrelHi20 ((syma - pc).setWidth 32))
      (((syma - pc).setWidth 32 - pcrelHi20 ((syma - pc).setWidth 32) <<< 12) &&& 0xfff#32)
    exact .inr ⟨data, rfl, h⟩
  case R_RISCV_SET6 =>
    have h : (Write.u8 fun old => old &&& 0xc0#8 ||| syma.setWidth 8 &&& 0x3f#8).Blends (n := 1)
        0x3f#8 (syma.setWidth 8) :=
      ⟨rfl, fun old => congrArg BitVec.toNat (BitVec.or_comm _ _)⟩
    exact .inr ⟨_, rfl, h.overwrites (by decide)⟩
  case R_RISCV_SET8 => exact relocSet_overwrites (n := 1) (by decide) ⟨rfl, fun _ => rfl⟩
  case R_RISCV_SET16 => exact relocSet_overwrites (n := 2) (by decide) ⟨rfl, fun _ => rfl⟩
  case R_RISCV_SET32 => exact relocSet_overwrites (n := 4) (by decide) ⟨rfl, fun _ => rfl⟩
  -- the others are one `rtld_blend`
  all_goals first
    | exact relocWrite_overwrites _ _
    | exact relocChecked_overwrites _ _ _
    | exact relocJump26_overwrites _ _ _

/-! ## The window of `rtld_patch` -/

theorem load32_eq_window (m : Mem) (p : Nat) : load32 m p = (window m p).setWidth 32 := by
  apply BitVec.eq_of_getLsbD_eq
  intro i hi
  rw [BitVec.getLsbD_setWidth, getLsbD_window m p (by omega), load32, BitVec.getLsbD_ofNat,
    testBit_load (by omega)]

theorem eq_of_window {m m' : Mem} {p : Nat} (h : window m p = window m' p)
    (hout : ∀ o, ¬ (p ≤ o ∧ o < p + 8) → m o = m' o) : m = m' := by
  funext o
  by_cases ho : p ≤ o ∧ o < p + 8
  · have hbyte := extractLsb'_window m p (j := o - p) (by omega)
    rw [h, extractLsb'_window m' p (by omega), Nat.add_sub_of_le ho.1] at hbyte
    exact hbyte.symm
  · exact hout o ho

section Patch

variable (host : Host) (addStub : Word → Except Errno Word) (unset : Mem) {pd : RtldPatchData}
  (sym : Word) (m : Mem)

theorem rtldPatch_of_not_mem (hsize : pd.relSize = 8#32) {o : Nat}
    (ho : ¬ (pd.patchAddr.toNat ≤ o ∧ o < pd.patchAddr.toNat + 8)) :
    rtldPatch host addStub unset (some pd) sym m o = m o := by
  rw [rtldPatch, hsize, if_neg (by decide), writeBytes, List.length_map, List.length_range]
  exact if_neg ho

/-- The window is relocated as its copy is. -/
theorem window_rtldPatch (hsize : pd.relSize = 8#32) : ∃ relocBuf,
    window relocBuf 0 = window m pd.patchAddr.toNat ∧
    window (rtldPatch host addStub unset (some pd) sym m) pd.patchAddr.toNat =
      window (relocTarget (rtldRelocAt host addStub pd sym) relocBuf 0) 0 := by
  refine ⟨fun o => if o < 8 then m (pd.patchAddr.toNat + o) else unset o, ?_, ?_⟩
  · apply window_congr
    intro j hj
    rw [Nat.zero_add, if_pos hj]
  · apply window_congr
    intro j hj
    rw [rtldPatch, hsize, if_neg (by decide), writeBytes, List.length_map, List.length_range]
    rw [if_pos ⟨Nat.le_add_right _ j, by simp; omega⟩, Nat.add_sub_cancel_left,
      List.getD_eq_getElem?_getD, List.getElem?_map, List.getElem?_range (by simp; omega)]
    simp

variable {host addStub sym}

theorem rtldPatch_refused (hsize : pd.relSize = 8#32) {e : Errno}
    (h : rtldRelocAt host addStub pd sym = (.error e, [])) :
    rtldPatch host addStub unset (some pd) sym m = m := by
  obtain ⟨buf, hbuf, hpatch⟩ := window_rtldPatch host addStub unset sym m hsize
  apply eq_of_window
  · rw [hpatch, h, ← hbuf]
    rfl
  · intro o ho
    exact rtldPatch_of_not_mem host addStub unset sym m hsize ho

theorem rtldPatch_overwrites (hsize : pd.relSize = 8#32) {mask data : Word}
    (h : Overwrites (rtldRelocAt host addStub pd sym).2 mask data) :
    window (rtldPatch host addStub unset (some pd) sym m) pd.patchAddr.toNat =
      blend mask data (window m pd.patchAddr.toNat) := by
  obtain ⟨buf, hbuf, hpatch⟩ := window_rtldPatch host addStub unset sym m hsize
  rw [hpatch, relocTarget, h, hbuf]

end Patch

/-! ## Early and late links -/

/-- The bytes at the place of `pd` are those that relocating the object at `tgt` to `sym`
left there, as `rtld_elf_process_rela` does before the section is copied. -/
def Linked (host : Host) (addStub : Word → Except Errno Word) (pd : RtldPatchData) (sym : Word)
    (obj : Mem) (tgt : Nat) (m : Mem) : Prop :=
  window m pd.patchAddr.toNat =
    window (relocTarget (rtldRelocAt host addStub pd sym) obj tgt) tgt

/-- A branch of AArch64 out of reach, for which `rtld_reloc_at` creates a stub. -/
def NeedsFarStub (host : Host) (pd : RtldPatchData) (sym : Word) : Prop :=
  (relType host pd.relType.toNat = some R_AARCH64_JUMP26 ∨
    relType host pd.relType.toNat = some R_AARCH64_CALL26) ∧
  checkSignedBits (sym + pd.addend - pd.patchAddr) 28 = false

/-- The place of `pd` has the branch of the object, to a stub that was created for the
address. -/
def BranchesToStub (addStub : Word → Except Errno Word) (pd : RtldPatchData) (sym : Word)
    (obj : Mem) (tgt : Nat) (m : Mem) : Prop :=
  ∃ stub, addStub (sym + pd.addend) = .ok stub ∧
    window m pd.patchAddr.toNat =
      blend 0x03ffffff#64 ((stub - pd.patchAddr).sshiftRight 2) (window obj tgt) ∧
    (IsBranch (load32 obj tgt) → stub.toNat % 4 = 0 → pd.patchAddr.toNat % 4 = 0 →
      ∀ s : A64.State, s.pc = pd.patchAddr → ∃ s', A64.step m s = some s' ∧ s'.pc = stub)

/-- The same bytes, or branches to stubs for the same address. -/
def SameLink (host : Host) (addStub addStub' : Word → Except Errno Word) (pd : RtldPatchData)
    (sym : Word) (obj : Mem) (tgt : Nat) (m m' : Mem) : Prop :=
  window m pd.patchAddr.toNat = window m' pd.patchAddr.toNat ∨
  NeedsFarStub host pd sym ∧ BranchesToStub addStub pd sym obj tgt m ∧
    BranchesToStub addStub' pd sym obj tgt m'

/-- A byte of the window at `p` with bits under the mask. -/
def InField (mask : Word) (p o : Nat) : Prop :=
  p ≤ o ∧ o < p + 8 ∧ mask.extractLsb' (8 * (o - p)) 8 ≠ 0#8

/-- What patching the place of `pd` for `f` does: `linked` before, `patched` after,
`again` after doing it twice, and `direct` where it was linked to `f` at once. Each
relocation creates its own stubs. -/
structure LatePatch (host : Host) (addStub addStub₁ addStub₂ : Word → Except Errno Word)
    (pd : RtldPatchData) (mask f : Word) (obj : Mem) (tgt : Nat)
    (linked patched again direct : Mem) : Prop where
  same : (rtldRelocAt host addStub pd f).1 = .ok () → (rtldRelocAt host addStub₂ pd f).1 = .ok () →
    SameLink host addStub addStub₂ pd f obj tgt patched direct
  frame : ∀ o, ¬ InField mask pd.patchAddr.toNat o → patched o = linked o
  idempotent : (rtldRelocAt host addStub pd f).1 = .ok () →
    SameLink host addStub₁ addStub pd f obj tgt again patched
  refused : (rtldRelocAt host addStub pd f).1 ≠ .ok () → patched = linked

section Links

variable {host : Host} {addStub addStub' : Word → Except Errno Word} {pd : RtldPatchData}
  {t : RelType} {mask f : Word} {obj m m' : Mem} {tgt : Nat}

theorem rtldRelocAt_overwrites (ht : relType host pd.relType.toNat = some t)
    (hmask : t.field = some mask) (addStub : Word → Except Errno Word) (sym : Word) :
    RefusesOrOverwrites (rtldRelocAt host addStub pd sym) mask := by
  rw [rtldRelocAt, ht]
  exact relocCase_overwrites hmask addStub _ _

/-- Without a stub the relocation does not depend on how stubs are created. -/
theorem rtldRelocAt_of_not_needsStub (h : ¬ NeedsFarStub host pd f) :
    rtldRelocAt host addStub pd f = rtldRelocAt host addStub' pd f := by
  rw [rtldRelocAt, rtldRelocAt]
  cases ht : relType host pd.relType.toNat with
  | none => rfl
  | some t =>
      have hnear : t = R_AARCH64_JUMP26 ∨ t = R_AARCH64_CALL26 →
          checkSignedBits (f + pd.addend - pd.patchAddr) 28 = true := by
        intro hbranch
        by_contra hfar
        refine h ⟨?_, Bool.not_eq_true _ ▸ hfar⟩
        rcases hbranch with rfl | rfl
        · exact .inl ht
        · exact .inr ht
      cases t
      case R_AARCH64_JUMP26 =>
        show relocJump26 _ _ _ = relocJump26 _ _ _
        rw [relocJump26, relocJump26, if_pos (hnear (.inl rfl)), if_pos (hnear (.inl rfl))]
      case R_AARCH64_CALL26 =>
        show relocJump26 _ _ _ = relocJump26 _ _ _
        rw [relocJump26, relocJump26, if_pos (hnear (.inr rfl)), if_pos (hnear (.inr rfl))]
      all_goals rfl

/-- With a stub, an accepted relocation is a branch to it. -/
theorem rtldRelocAt_of_needsStub (h : NeedsFarStub host pd f)
    (hok : (rtldRelocAt host addStub pd f).1 = .ok ()) :
    ∃ stub, addStub (f + pd.addend) = .ok stub ∧ InSigned 28 (stub - pd.patchAddr) ∧
      (rtldRelocAt host addStub pd f).2 =
        [rtldBlend 0x03ffffff#64 ((stub - pd.patchAddr).sshiftRight 2)] := by
  obtain ⟨ht, hfar⟩ := h
  have hjump : rtldRelocAt host addStub pd f =
      relocJump26 addStub (f + pd.addend) pd.patchAddr := by
    rw [rtldRelocAt]
    rcases ht with ht | ht <;> rw [ht] <;> rfl
  rw [hjump, relocJump26, if_neg (by rw [hfar]; exact Bool.false_ne_true)] at hok ⊢
  cases hstub : addStub (f + pd.addend) with
  | error e =>
      rw [hstub] at hok
      cases hok
  | ok stub =>
      simp only [hstub] at hok
      cases hreach : checkSignedBits (stub - pd.patchAddr) 28 with
      | false =>
          rw [hreach] at hok
          cases hok
      | true =>
          refine ⟨stub, rfl, ((checkSignedBits_iff _ _).mp hreach).1, ?_⟩
          simp only [hreach]
          rfl

/-- The place has the bits that relocating the object to `f` gives. -/
def HasLink (host : Host) (addStub : Word → Except Errno Word) (pd : RtldPatchData)
    (mask f : Word) (obj : Mem) (tgt : Nat) (m : Mem) : Prop :=
  ∀ data, Overwrites (rtldRelocAt host addStub pd f).2 mask data →
    window m pd.patchAddr.toNat = blend mask data (window obj tgt)

theorem HasLink.branchesToStub (h : HasLink host addStub pd 0x03ffffff#64 f obj tgt m)
    (hneeds : NeedsFarStub host pd f) (hok : (rtldRelocAt host addStub pd f).1 = .ok ()) :
    BranchesToStub addStub pd f obj tgt m := by
  obtain ⟨stub, hstub, hreach, hwrites⟩ := rtldRelocAt_of_needsStub hneeds hok
  have hwindow := h ((stub - pd.patchAddr).sshiftRight 2) (by
    rw [hwrites]
    exact rtldBlend_overwrites _ _)
  refine ⟨stub, hstub, hwindow, ?_⟩
  intro hbranch hstub4 hpc4 s hpc
  have hword : word32 m s.pc = blend 0x03ffffff#32
      (((stub - pd.patchAddr).sshiftRight 2).setWidth 32) (load32 obj tgt) := by
    show load32 m s.pc.toNat = _
    rw [load32_eq_window, hpc, hwindow, blend_setWidth (by decide), load32_eq_window]
    rfl
  have h4 : (stub - pd.patchAddr).toNat % 4 = 0 := by
    rw [BitVec.toNat_sub]
    omega
  obtain ⟨s', hstep, hpc', -⟩ := step_branch hbranch hword h4 hreach
  refine ⟨s', hstep, ?_⟩
  rw [hpc', hpc, BitVec.add_comm, BitVec.sub_add_cancel]

theorem HasLink.sameLink (ht : relType host pd.relType.toNat = some t)
    (hmask : t.field = some mask) (h : HasLink host addStub pd mask f obj tgt m)
    (h' : HasLink host addStub' pd mask f obj tgt m')
    (hok : (rtldRelocAt host addStub pd f).1 = .ok ())
    (hok' : (rtldRelocAt host addStub' pd f).1 = .ok ()) :
    SameLink host addStub addStub' pd f obj tgt m m' := by
  by_cases hneeds : NeedsFarStub host pd f
  · have hfield : mask = 0x03ffffff#64 := by
      rcases hneeds.1 with hb | hb <;> rw [ht] at hb <;> cases hb <;> cases hmask <;> rfl
    subst hfield
    exact .inr ⟨hneeds, h.branchesToStub hneeds hok, h'.branchesToStub hneeds hok'⟩
  · left
    rcases rtldRelocAt_overwrites ht hmask addStub f with ⟨e, he⟩ | ⟨data, -, hdata⟩
    · rw [he] at hok
      cases hok
    · rw [h data hdata]
      rw [rtldRelocAt_of_not_needsStub hneeds] at hdata
      rw [h' data hdata]

/-- Linking the object to `f` at once. -/
theorem Linked.hasLink (h : Linked host addStub pd f obj tgt m) :
    HasLink host addStub pd mask f obj tgt m := by
  intro data hdata
  rw [h, relocTarget, hdata]

/-- A place that was linked before, to whatever target, still has the object's bits outside
the field. -/
theorem Linked.blend_window {stub : Word} (ht : relType host pd.relType.toNat = some t)
    (hmask : t.field = some mask) (h : Linked host addStub pd stub obj tgt m) (data : Word) :
    blend mask data (window m pd.patchAddr.toNat) = blend mask data (window obj tgt) := by
  rw [h, relocTarget]
  rcases rtldRelocAt_overwrites ht hmask addStub stub with ⟨e, he⟩ | ⟨data', -, hdata'⟩
  · rw [he]
    rfl
  · rw [hdata', blend_blend]

end Links

/-- **Late patching equals early linking.** For every relocation but the accumulators, a
place that was linked to any target and is patched for `f` later has what linking it to `f`
at once gives. No byte outside the field changes, patching again changes nothing, and
neither does a patch that is refused. -/
theorem late_patch_links {host : Host} {pd : RtldPatchData} {t : RelType} {mask : Word}
    (hsize : pd.relSize = 8#32) (ht : relType host pd.relType.toNat = some t)
    (hmask : t.field = some mask) (addStub₀ addStub addStub₁ addStub₂ : Word → Except Errno Word)
    (unset unset₁ : Mem) (stub f : Word) {obj : Mem} {tgt : Nat} {linked direct : Mem}
    (hlinked : Linked host addStub₀ pd stub obj tgt linked)
    (hdirect : Linked host addStub₂ pd f obj tgt direct) :
    LatePatch host addStub addStub₁ addStub₂ pd mask f obj tgt linked
      (rtldPatch host addStub unset (some pd) f linked)
      (rtldPatch host addStub₁ unset₁ (some pd) f (rtldPatch host addStub unset (some pd) f linked))
      direct := by
  have hpatched : HasLink host addStub pd mask f obj tgt
      (rtldPatch host addStub unset (some pd) f linked) := by
    intro data hdata
    rw [rtldPatch_overwrites unset linked hsize hdata, hlinked.blend_window ht hmask]
  constructor
  case same =>
    intro hok hok₂
    exact hpatched.sameLink ht hmask hdirect.hasLink hok hok₂
  case frame =>
    intro o ho
    by_cases hin : pd.patchAddr.toNat ≤ o ∧ o < pd.patchAddr.toNat + 8
    · rcases rtldRelocAt_overwrites ht hmask addStub f with ⟨e, he⟩ | ⟨data, -, hdata⟩
      · rw [rtldPatch_refused unset linked hsize he]
      · have hspares : Spares mask (8 * (o - pd.patchAddr.toNat)) 8 :=
          spares_of_extractLsb' (not_not.mp fun hne => ho ⟨hin.1, hin.2, hne⟩)
        have hbyte := hspares.extractLsb'_blend data (window linked pd.patchAddr.toNat)
        rw [← rtldPatch_overwrites unset linked hsize hdata, extractLsb'_window _ _ (by omega),
          extractLsb'_window _ _ (by omega), Nat.add_sub_of_le hin.1] at hbyte
        exact hbyte
    · exact rtldPatch_of_not_mem host addStub unset f linked hsize hin
  case idempotent =>
    intro hok
    rcases rtldRelocAt_overwrites ht hmask addStub₁ f with ⟨e, he⟩ | ⟨data₁, hok₁, -⟩
    · left
      rw [rtldPatch_refused unset₁ _ hsize he]
    · refine HasLink.sameLink ht hmask ?_ hpatched hok₁ hok
      intro data hdata
      rcases rtldRelocAt_overwrites ht hmask addStub f with ⟨e, he⟩ | ⟨data', -, hdata'⟩
      · rw [he] at hok
        cases hok
      · rw [rtldPatch_overwrites unset₁ _ hsize hdata, hpatched data' hdata', blend_blend]
  case refused =>
    intro hno
    rcases rtldRelocAt_overwrites ht hmask addStub f with ⟨e, he⟩ | ⟨data, hok, -⟩
    · exact rtldPatch_refused unset linked hsize he
    · exact absurd hok hno

/-- A call of an x86-64 object, linked to a stub and patched for the function later. -/
theorem x86_call_patched :
    let pd : RtldPatchData := ⟨0x10000#64, 4#32, 8#32, -4#64, 0x1001#64⟩
    let link := fun sym => relocTarget (rtldRelocAt .x86_64 .ok pd sym) (fun _ => 0xcc#8) 0x1001
    (rtldRelocAt .x86_64 .ok pd 0x3000#64).1 = .ok () ∧
      SameLink .x86_64 .ok .ok pd 0x3000#64 (fun _ => 0xcc#8) 0x1001
        (rtldPatch .x86_64 .ok (fun _ => 0#8) (some pd) 0x3000#64 (link 0x2000#64))
        (link 0x3000#64) :=
  ⟨rfl, (late_patch_links rfl rfl rfl .ok .ok .ok .ok (fun _ => 0#8)
    (fun _ => 0#8) 0x2000#64 0x3000#64 rfl rfl).same rfl rfl⟩

end Instrew.Client
