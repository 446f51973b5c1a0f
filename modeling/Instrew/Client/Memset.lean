import Instrew.Lib.A64Data
import Instrew.Lib.Imm

/-!
# The two versions of memset

The client's `memset` is a loop over bytes in `minilibc.c`; on AArch64 hosts the hand-written
one of `memset-aarch64.S` takes its place. That one writes small sizes with overlapping
stores from both ends and large ones in blocks of 64 bytes, with `dc zva` when the value is
zero and the block size of `dc zva` is 64.

Both fill exactly the given bytes, for every pointer, value and size, also where the
destination ends at or wraps around the end of the address space
(`memset_aarch64_refines`).
-/

namespace Instrew.Client.Memset

open Lib.A64Data Lib.Labelled

/-! ## The C function -/

/-- The loop of `memset` with `n` bytes to go. -/
def memset (mem : Mem) (sptr : Word) (c : BitVec 32) : Nat → Mem
  | 0 => mem
  | n + 1 => memset (Function.update mem sptr (c.setWidth 8)) (sptr + 1#64) c n

theorem memset_apply (c : BitVec 32) (a : Word) : ∀ (n : Nat) (mem : Mem) (s : Word), n ≤ 2 ^ 64 →
    memset mem s c n a = if (a - s).toNat < n then c.setWidth 8 else mem a := by
  intro n
  induction n with
  | zero =>
      intro mem s _
      rw [memset, if_neg (Nat.not_lt_zero _)]
  | succ n ih =>
      intro mem s hn
      rw [memset, ih _ _ (by omega)]
      by_cases ha : a = s
      · subst ha
        rw [Function.update_self, BitVec.sub_self]
        simp
      · have hpos : (a - s).toNat = (a - (s + 1#64)).toNat + 1 := by bv_omega
        rw [Function.update_of_ne ha, hpos]
        simp only [Nat.add_lt_add_iff_right]

theorem memset_filled (mem : Mem) (s : Word) (c : BitVec 32) {n : Nat} (hn : n ≤ 2 ^ 64) :
    Filled mem s (c.setWidth 8) (Set.Ico 0 n) (memset mem s c n) := by
  intro a
  rw [memset_apply c a n mem s hn, Set.mem_Ico]
  constructor
  · rintro ⟨-, hlt⟩
    rw [if_pos hlt]
  · intro hout
    rw [if_neg (fun hlt => hout ⟨Nat.zero_le _, hlt⟩)]

/-! ## The text of `memset-aarch64.S` -/

inductive Reg : Type where
  | dstin
  | val
  | count
  | dst
  | dstend
  | zvaVal
  deriving DecidableEq

/-- The labels of the text; `below8`, `below4` and `end15` are its `1`, `2` and `3` after the
entry, `end63` the `1` of `set_medium`. -/
inductive Label : Type where
  | memset
  | below8
  | below4
  | end15
  | setMedium
  | end63
  | set96
  | setLong
  | zvaLoop
  | noZva
  | noZvaLoop
  deriving DecidableEq

open Reg Label in
def text : Text Label (Instr Reg Label) :=
  [(.memset,
    [.dup16B 0 val, .add dstend dstin count,
      .cmpImm count 96#64, .bCond .hi setLong,
      .cmpImm count 16#64, .bCond .hs setMedium,
      .movD0 val 0,
      -- set 0..15 bytes
      .tbz count 3 below8,
      .str 8 val dstin 0#64, .str 8 val dstend (-8#64), .ret]),
    (below8, [.tbz count 2 below4, .str 4 val dstin 0#64, .str 4 val dstend (-4#64), .ret]),
    (below4, [.cbz count end15, .str 1 val dstin 0#64, .tbz count 1 end15,
      .str 2 val dstend (-2#64)]),
    (end15, [.ret]),
    -- set 17..96 bytes
    (setMedium, [.strQ 0 dstin 0#64, .tbnz count 6 set96, .strQ 0 dstend (-16#64),
      .tbz count 5 end63, .strQ 0 dstin 16#64, .strQ 0 dstend (-32#64)]),
    (end63, [.ret]),
    -- set 64..96 bytes: 64 bytes from the start and 32 bytes from the end
    (set96, [.strQ 0 dstin 16#64, .stpQ 0 0 dstin 32#64, .stpQ 0 0 dstend (-32#64), .ret]),
    (setLong,
      [.andImmW val val 255#32, .bicImm dst dstin 15#64, .strQ 0 dstin 0#64,
        .cmpImm count 160#64, .ccmpImmW val 0#32 ⟨false, false, false, false⟩ .hs,
        .bCond .ne noZva,
        .mrsDczid zvaVal, .andImm zvaVal zvaVal 31#64,
        -- the block size of `dc zva` is 64 bytes
        .cmpImm zvaVal 4#64, .bCond .ne noZva,
        .strQ 0 dst 16#64, .stpQ 0 0 dst 32#64, .bicImm dst dst 63#64,
        .sub count dstend dst, .subImm count count 128#64]),
    (zvaLoop,
      [.addImm dst dst 64#64, .dcZva dst, .subsImm count count 64#64, .bCond .hi zvaLoop,
        .stpQ 0 0 dstend (-64#64), .stpQ 0 0 dstend (-32#64), .ret]),
    (noZva, [.sub count dstend dst, .subImm dst dst 16#64, .subImm count count (64#64 + 16#64)]),
    (noZvaLoop,
      [.stpQ 0 0 dst 32#64, .stpQPre 0 0 dst 64#64, .subsImm count count 64#64,
        .bCond .hi noZvaLoop,
        .stpQ 0 0 dstend (-64#64), .stpQ 0 0 dstend (-32#64), .ret])]

/-! ## What holds after the entry -/

section

variable {m₀ m : Machine Reg} {P : Set Nat} {k : Nat}

/-- The number of bytes to set. -/
def size (m₀ : Machine Reg) : Nat := (m₀.x .count).toNat

/-- The byte to set. -/
def value (m₀ : Machine Reg) : Byte := (m₀.x .val).setWidth 8

/-- From the machine `m₀` at the entry, the bytes at the offsets `P` have been set. -/
structure Sets (m₀ : Machine Reg) (P : Set Nat) (m : Machine Reg) : Prop where
  dstin : m.x .dstin = m₀.x .dstin
  dstend : m.x .dstend = m₀.x .dstin + m₀.x .count
  splat : Lib.A64Data.Splat (m.q 0).toNat 16 (value m₀)
  dczid : m.dczid = m₀.dczid
  filled : Filled m₀.mem (m₀.x .dstin) (value m₀) P m.mem

/-- The instruction leaves alone what `Sets` speaks about. -/
theorem Sets.of_eq {m' : Machine Reg} (h : Sets m₀ P m) (hdstin : m'.x .dstin = m.x .dstin)
    (hdstend : m'.x .dstend = m.x .dstend) (hq : m'.q = m.q) (hdczid : m'.dczid = m.dczid)
    (hmem : m'.mem = m.mem) : Sets m₀ P m' where
  dstin := hdstin.trans h.dstin
  dstend := hdstend.trans h.dstend
  splat := hq ▸ h.splat
  dczid := hdczid.trans h.dczid
  filled := hmem ▸ h.filled

theorem Sets.setX (h : Sets m₀ P m) {d : Reg} (hin : d ≠ .dstin) (hend : d ≠ .dstend) (v : Word) :
    Sets m₀ P (m.setX d v) :=
  h.of_eq (Function.update_of_ne (Ne.symm hin) _ _) (Function.update_of_ne (Ne.symm hend) _ _) rfl
    rfl rfl

theorem Sets.setFlags (h : Sets m₀ P m) (f : Flags) : Sets m₀ P (m.setFlags f) :=
  h.of_eq rfl rfl rfl rfl rfl

/-- A store of equal bytes at an offset. -/
theorem Sets.store (h : Sets m₀ P m) {a : Word} {k n v : Nat} (hv : Splat v n (value m₀))
    (ha : a = m₀.x .dstin + BitVec.ofNat 64 k) (hk : k + n ≤ size m₀) (hn : 0 < n) :
    Sets m₀ (P ∪ Set.Ico k (k + n)) (m.setMem (storeAt m.mem a n v)) where
  dstin := h.dstin
  dstend := h.dstend
  splat := h.splat
  dczid := h.dczid
  filled := by
    have hsize : size m₀ < 2 ^ 64 := (m₀.x .count).isLt
    rw [ha]
    exact h.filled.store hv (by omega) hn

theorem Sets.storeQ (h : Sets m₀ P m) {a : Word} {k : Nat}
    (ha : a = m₀.x .dstin + BitVec.ofNat 64 k) (hk : k + 16 ≤ size m₀) :
    Sets m₀ (P ∪ Set.Ico k (k + 16)) (m.setMem (storeAt m.mem a 16 (m.q 0).toNat)) :=
  h.store h.splat ha hk (by decide)

theorem Sets.congr {P' : Set Nat} (h : Sets m₀ P m) (hP : P = P') : Sets m₀ P' m := hP ▸ h

theorem Sets.storePair (h : Sets m₀ P m) {a : Word} {k : Nat}
    (ha : a = m₀.x .dstin + BitVec.ofNat 64 k) (hk : k + 32 ≤ size m₀) :
    Sets m₀ (P ∪ Set.Ico k (k + 32)) (m.setMem (storePair m 0 0 a)) := by
  have hsecond : a + 16#64 = m₀.x .dstin + BitVec.ofNat 64 (k + 16) := by
    rw [ha, BitVec.ofNat_add, BitVec.add_assoc]
  have h2 := (h.storeQ ha (by omega)).storeQ hsecond (by omega)
  refine h2.congr ?_
  rw [Set.union_assoc, Set.Ico_union_Ico_eq_Ico (by omega) (by omega)]

/-- An address below the end of the destination. -/
theorem Sets.fromEnd (h : Sets m₀ P m) {j : Nat} (hj : j ≤ size m₀) :
    m.x .dstend + -BitVec.ofNat 64 j = m₀.x .dstin + BitVec.ofNat 64 (size m₀ - j) := by
  have hsize : size m₀ < 2 ^ 64 := (m₀.x .count).isLt
  have hcount : m₀.x .count = BitVec.ofNat 64 (size m₀ - j) + BitVec.ofNat 64 j := by
    rw [← BitVec.ofNat_add, Nat.sub_add_cancel hj, size, BitVec.ofNat_toNat, BitVec.setWidth_eq]
  rw [h.dstend, hcount]
  bv_omega

/-- The text ends with all bytes set. -/
def Done (m₀ m' : Machine Reg) : Prop := Sets m₀ (Set.Ico 0 (size m₀)) m'

abbrev Sound (m₀ : Machine Reg) (l : Label) (m : Machine Reg) : Prop :=
  Ends Instr.exec text l m (Done m₀)

/-- The bits of the size that the branches test. -/
theorem count_bit (hcount : m.x .count = m₀.x .count) (i : Nat) :
    (m.x .count).getLsbD i = decide (size m₀ / 2 ^ i % 2 = 1) := by
  rw [hcount, BitVec.getLsbD, size, Nat.testBit_eq_decide_div_mod_eq]

theorem count_bit_set (hcount : m.x .count = m₀.x .count) {i : Nat}
    (h : size m₀ / 2 ^ i % 2 = 1) : (m.x .count).getLsbD i = true := by
  rw [count_bit hcount, decide_eq_true h]

theorem count_bit_clear (hcount : m.x .count = m₀.x .count) {i : Nat}
    (h : size m₀ / 2 ^ i % 2 ≠ 1) : (m.x .count).getLsbD i = false := by
  rw [count_bit hcount, decide_eq_false h]

/-! ## Up to 15 bytes -/

theorem sound_end15 (h : Sets m₀ (Set.Ico 0 (size m₀)) m) : Sound m₀ .end15 m := by
  refine .enter (.ret rfl ?_)
  exact h

theorem sound_below4 (h : Sets m₀ ∅ m) (hcount : m.x .count = m₀.x .count)
    (hval : Splat (m.x .val).toNat 8 (value m₀)) (hsize : size m₀ < 4) : Sound m₀ .below4 m := by
  refine .enter ?_
  by_cases hzero : size m₀ = 0
  · refine .jump (branch_taken ?_) (sound_end15 (h.congr ?_))
    · rw [hcount, beq_iff_eq]
      exact BitVec.eq_of_toNat_eq hzero
    · rw [hzero, Set.Ico_self]
  refine .next (branch_not_taken ?_) (.next rfl ?_)
  · rw [hcount, beq_eq_false_iff_ne]
    exact fun heq => hzero (congrArg BitVec.toNat heq)
  have hfirst := h.store (a := m.x .dstin + 0#64) (k := 0) (n := 1) (hval.mono (by decide))
    (by rw [h.dstin]) (by omega) (by decide)
  rw [Set.empty_union] at hfirst
  by_cases htwo : 2 ≤ size m₀
  · have hbit : (m.x .count).getLsbD 1 = true := count_bit_set hcount (by omega)
    refine .next (branch_not_taken (congrArg not hbit)) (.next rfl (.fall rfl (sound_end15 ?_)))
    have hlast := hfirst.store (a := m.x .dstend + -2#64) (k := size m₀ - 2) (n := 2)
      (hval.mono (by decide)) (h.fromEnd htwo) (by omega) (by decide)
    refine hlast.congr ?_
    ext o
    simp only [Set.mem_union, Set.mem_Ico]
    omega
  · have hbit : (m.x .count).getLsbD 1 = false := count_bit_clear hcount (by omega)
    refine .jump (branch_taken (congrArg not hbit)) (sound_end15 (hfirst.congr ?_))
    congr 1
    omega

/-- Two stores of `n` bytes, from the start and from the end, set up to `2 * n` bytes. -/
theorem Sets.bothEnds (h : Sets m₀ ∅ m) {n : Nat} {a a' : Word} {v : Nat}
    (hv : Splat v n (value m₀)) (hn : 0 < n) (hle : n ≤ size m₀) (hge : size m₀ ≤ 2 * n)
    (ha : a = m₀.x .dstin) (ha' : a' = m₀.x .dstin + BitVec.ofNat 64 (size m₀ - n)) :
    Done m₀ ((m.setMem (storeAt m.mem a n v)).setMem
      (storeAt (m.setMem (storeAt m.mem a n v)).mem a' n v)) := by
  have hfirst := h.store (a := a) (k := 0) hv (by rw [ha]; simp) (by omega) hn
  refine (hfirst.store hv ha' (by omega) hn).congr ?_
  ext o
  simp only [Set.empty_union, Set.mem_union, Set.mem_Ico]
  omega

theorem sound_below8 (h : Sets m₀ ∅ m) (hcount : m.x .count = m₀.x .count)
    (hval : Splat (m.x .val).toNat 8 (value m₀)) (hsize : size m₀ < 8) : Sound m₀ .below8 m := by
  refine .enter ?_
  by_cases hfour : 4 ≤ size m₀
  · have hbit : (m.x .count).getLsbD 2 = true := count_bit_set hcount (by omega)
    refine .next (branch_not_taken (congrArg not hbit)) (.next rfl (.next rfl (.ret rfl ?_)))
    exact h.bothEnds (hval.mono (by decide)) (by decide) hfour (by omega)
      (by rw [← h.dstin]; exact BitVec.add_zero _) (h.fromEnd hfour)
  · have hbit : (m.x .count).getLsbD 2 = false := count_bit_clear hcount (by omega)
    exact .jump (branch_taken (congrArg not hbit)) (sound_below4 h hcount hval (by omega))

/-! ## 16 to 96 bytes -/

theorem sound_end63 (h : Done m₀ m) : Sound m₀ .end63 m := .enter (.ret rfl h)

theorem sound_set96 (h : Sets m₀ (Set.Ico 0 16) m) (hlo : 64 ≤ size m₀) (hhi : size m₀ ≤ 96) :
    Sound m₀ .set96 m := by
  refine .enter (.next rfl (.next rfl (.next rfl (.ret rfl ?_))))
  have h1 := h.storeQ (a := m.x .dstin + 16#64) (k := 16) (by rw [h.dstin]) (by omega)
  have h2 := h1.storePair (a := m.x .dstin + 32#64) (k := 32) (by rw [h.dstin]) (by omega)
  have h3 := h2.storePair (a := m.x .dstend + -32#64) (k := size m₀ - 32)
    (h.fromEnd (by omega)) (by omega)
  refine h3.congr ?_
  ext o
  simp only [Set.mem_union, Set.mem_Ico]
  omega

theorem sound_setMedium (h : Sets m₀ ∅ m) (hcount : m.x .count = m₀.x .count)
    (hlo : 16 ≤ size m₀) (hhi : size m₀ ≤ 96) : Sound m₀ .setMedium m := by
  have h1 := h.storeQ (a := m.x .dstin + 0#64) (k := 0) (by rw [h.dstin]) (by omega)
  rw [Set.empty_union, Nat.zero_add] at h1
  refine .enter (.next rfl ?_)
  by_cases h64 : 64 ≤ size m₀
  · have hbit : (m.x .count).getLsbD 6 = true := count_bit_set hcount (by omega)
    exact .jump (branch_taken hbit) (sound_set96 h1 h64 hhi)
  have hbit : (m.x .count).getLsbD 6 = false := count_bit_clear hcount (by omega)
  refine .next (branch_not_taken hbit) (.next rfl ?_)
  have h2 := h1.storeQ (a := m.x .dstend + -16#64) (k := size m₀ - 16) (h.fromEnd hlo) (by omega)
  by_cases h32 : 32 ≤ size m₀
  · have hbit : (m.x .count).getLsbD 5 = true := count_bit_set hcount (by omega)
    refine .next (branch_not_taken (congrArg not hbit)) (.next rfl (.next rfl
      (.fall rfl (sound_end63 ?_))))
    have h3 := h2.storeQ (a := m.x .dstin + 16#64) (k := 16) (by rw [h.dstin]) (by omega)
    have h4 := h3.storeQ (a := m.x .dstend + -32#64) (k := size m₀ - 32) (h.fromEnd h32) (by omega)
    refine h4.congr ?_
    ext o
    simp only [Set.mem_union, Set.mem_Ico]
    omega
  · have hbit : (m.x .count).getLsbD 5 = false := count_bit_clear hcount (by omega)
    refine .jump (branch_taken (congrArg not hbit)) (sound_end63 (h2.congr ?_))
    ext o
    simp only [Set.mem_union, Set.mem_Ico]
    omega

/-! ## Blocks of 64 bytes

Both loops have the next block at the offset `k`, with everything before it set, and a
counter of what is left after that block. -/

/-- The last 64 bytes, after either loop. -/
theorem sound_tail (h : Sets m₀ (Set.Ico 0 k) m) (hsize : 64 ≤ size m₀) (hk : size m₀ ≤ k + 64)
    (hle : k ≤ size m₀) {l : Label} :
    Rest Instr.exec text l (Done m₀)
      [.stpQ 0 0 .dstend (-64#64), .stpQ 0 0 .dstend (-32#64), .ret] m := by
  refine .next rfl (.next rfl (.ret rfl ?_))
  have h1 := h.storePair (a := m.x .dstend + -64#64) (k := size m₀ - 64) (h.fromEnd hsize) (by omega)
  have h2 := h1.storePair (a := m.x .dstend + -32#64) (k := size m₀ - 32) (h.fromEnd (by omega))
    (by omega)
  refine h2.congr ?_
  ext o
  simp only [Set.mem_union, Set.mem_Ico]
  omega

/-- Clearing low bits, as an offset. -/
theorem and_not_eq_sub {ones : Word} {j : Nat} (h : ones.toNat = 2 ^ j - 1) (x : Word) :
    x &&& ~~~ones = x - BitVec.ofNat 64 (x.toNat % 2 ^ j) := by
  have hle : x.toNat % 2 ^ j ≤ x.toNat := Nat.mod_le _ _
  have hdiv := Nat.div_add_mod' x.toNat (2 ^ j)
  have hx := x.isLt
  apply BitVec.eq_of_toNat_eq
  rw [Lib.Imm.toNat_and_not_ones h, BitVec.toNat_sub, BitVec.toNat_ofNat,
    Nat.mod_eq_of_lt (show x.toNat % 2 ^ j < 2 ^ 64 by omega)]
  omega

theorem ofNat_sub {a b : Nat} (h : b ≤ a) :
    BitVec.ofNat 64 (a - b) = BitVec.ofNat 64 a - BitVec.ofNat 64 b := by
  have hadd : BitVec.ofNat 64 (a - b) + BitVec.ofNat 64 b = BitVec.ofNat 64 a := by
    rw [← BitVec.ofNat_add, Nat.sub_add_cancel h]
  rw [← hadd, BitVec.add_sub_cancel]

/-- The head of the loop without `dc zva`: `dst` is 32 below the next block. -/
def AtNoZva (m₀ m : Machine Reg) : Prop :=
  ∃ k e, k + 64 + (m.x .count).toNat = size m₀ ∧ k ≤ e ∧ e ≤ k + 64 ∧
    m.x .dst = m₀.x .dstin + BitVec.ofNat 64 k - 32#64 ∧ Sets m₀ (Set.Ico 0 e) m

theorem sound_noZvaLoop : ∀ m, AtNoZva m₀ m → Sound m₀ .noZvaLoop m := by
  refine ends_of_loop (fun m => (m.x .count).toNat) ?_
  rintro m ⟨k, e, hleft, hke, hek, hdst, h⟩ again
  have h1 := h.storePair (a := m.x .dst + 32#64) (k := k) (by rw [hdst]; bv_omega) (by omega)
  have h2 := h1.storePair (a := m.x .dst + 64#64) (k := k + 32)
    (by rw [hdst, BitVec.ofNat_add]; bv_omega) (by omega)
  have hset : Set.Ico 0 e ∪ Set.Ico k (k + 32) ∪ Set.Ico (k + 32) (k + 32 + 32) =
      Set.Ico 0 (k + 64) := by
    ext o
    simp only [Set.mem_union, Set.mem_Ico]
    omega
  rw [hset] at h2
  have h3 := ((h2.setX (d := .dst) (by decide) (by decide) (m.x .dst + 64#64)).setFlags
    (subFlags (m.x .count) 64#64)).setX (d := .count) (by decide) (by decide) (m.x .count - 64#64)
  refine .enter (.next rfl (.next rfl (.next rfl ?_)))
  by_cases hmore : 64 < (m.x .count).toNat
  · refine .jump (branch_taken ?_) (again _ ?_ ?_)
    · exact (holds_hi (m.x .count) 64#64).trans (decide_eq_true hmore)
    · refine ⟨k + 64, k + 64, ?_, le_rfl, by omega, ?_, h3⟩
      · show k + 64 + 64 + (m.x .count - 64#64).toNat = size m₀
        have hsub : (m.x .count - 64#64).toNat = (m.x .count).toNat - 64 := by bv_omega
        omega
      · show m.x .dst + 64#64 = _
        rw [hdst, BitVec.ofNat_add]
        bv_omega
    · show (m.x .count - 64#64).toNat < (m.x .count).toNat
      bv_omega
  · refine .next (branch_not_taken ?_) (sound_tail h3 (by omega) (by omega) (by omega))
    exact (holds_hi (m.x .count) 64#64).trans (decide_eq_false hmore)

theorem sound_noZva (h : Sets m₀ (Set.Ico 0 16) m) (hsize : 96 < size m₀)
    (hdst : m.x .dst = m₀.x .dstin &&& ~~~15#64) : Sound m₀ .noZva m := by
  refine .enter (.next rfl (.next rfl (.next rfl (.fall rfl (sound_noZvaLoop _ ?_)))))
  rw [and_not_eq_sub (j := 4) rfl] at hdst
  set d := (m₀.x .dstin).toNat % 2 ^ 4 with hd
  have hlt : d < 16 := Nat.mod_lt _ (by decide)
  have h3 := ((h.setX (d := .count) (by decide) (by decide) (m.x .dstend - m.x .dst)).setX
    (d := .dst) (by decide) (by decide) (m.x .dst - 16#64)).setX (d := .count) (by decide)
    (by decide) (m.x .dstend - m.x .dst - (64#64 + 16#64))
  have hcount := (m₀.x .count).isLt
  refine ⟨16 - d, 16, ?_, by omega, by omega, ?_, h3⟩
  · show 16 - d + 64 + (m.x .dstend - m.x .dst - (64#64 + 16#64)).toNat = size m₀
    rw [h.dstend, hdst]
    unfold size at hsize ⊢
    have hdval : (BitVec.ofNat 64 d).toNat = d := by
      rw [BitVec.toNat_ofNat, Nat.mod_eq_of_lt (by omega)]
    bv_omega
  · show m.x .dst - 16#64 = _
    rw [hdst]
    rw [ofNat_sub hlt.le]
    bv_omega

/-- The head of the loop with `dc zva`: `dst` is 64 below the next block, and aligned. -/
def AtZva (m₀ m : Machine Reg) : Prop :=
  ∃ k e, k + 64 + (m.x .count).toNat = size m₀ ∧ k ≤ e ∧ e ≤ k + 64 ∧
    m.x .dst = m₀.x .dstin + BitVec.ofNat 64 k - 64#64 ∧ (m.x .dst).toNat % 64 = 0 ∧
    Sets m₀ (Set.Ico 0 e) m

/-- `dc zva` clears the 64 bytes at an aligned address. -/
theorem exec_dcZva (hzva : m.dczid &&& 31#64 = 4#64) {r : Reg} (halign : (m.x r).toNat % 64 = 0) :
    (Instr.exec m (.dcZva r : Instr Reg Label)).1 = m.setMem (storeAt m.mem (m.x r) 64 0) := by
  have hbits : m.dczid &&& 15#64 = 4#64 := by
    have hand := congrArg (· &&& 15#64) hzva
    simp only [BitVec.and_assoc] at hand
    exact hand
  have haddr : BitVec.ofNat 64 ((m.x r).toNat / 64 * 64) = m.x r := by
    rw [Nat.div_mul_cancel (Nat.dvd_of_mod_eq_zero halign), BitVec.ofNat_toNat, BitVec.setWidth_eq]
  unfold Instr.exec
  simp only [hbits]
  show m.setMem (storeAt m.mem (BitVec.ofNat 64 ((m.x r).toNat / 64 * 64)) 64 0) = _
  rw [haddr]

theorem sound_zvaLoop (hzva : m₀.dczid &&& 31#64 = 4#64) (hvalue : value m₀ = 0#8) :
    ∀ m, AtZva m₀ m → Sound m₀ .zvaLoop m := by
  refine ends_of_loop (fun m => (m.x .count).toNat) ?_
  rintro m ⟨k, e, hleft, hke, hek, hdst, halign, h⟩ again
  set m1 := m.setX .dst (m.x .dst + 64#64) with hm1
  have hblock : m1.x .dst = m₀.x .dstin + BitVec.ofNat 64 k := by
    show m.x .dst + 64#64 = _
    rw [hdst]
    bv_omega
  have halign1 : (m1.x .dst).toNat % 64 = 0 := by
    show (m.x .dst + 64#64).toNat % 64 = 0
    bv_omega
  have h1 : Sets m₀ (Set.Ico 0 e) m1 := h.setX (by decide) (by decide) _
  have h2 := h1.store (v := 0) (hvalue ▸ splat_zero 64) hblock (by omega) (by decide)
  have hset : Set.Ico 0 e ∪ Set.Ico k (k + 64) = Set.Ico 0 (k + 64) := by
    ext o
    simp only [Set.mem_union, Set.mem_Ico]
    omega
  rw [hset] at h2
  have h3 := (h2.setFlags (subFlags (m.x .count) 64#64)).setX (d := .count) (by decide) (by decide)
    (m.x .count - 64#64)
  have hexec := exec_dcZva (m := m1) (h1.dczid ▸ hzva) halign1
  refine .enter (.next rfl (.next rfl ?_))
  show Rest _ _ _ _ _ (Instr.exec m1 (.dcZva .dst)).1
  rw [hexec]
  refine .next rfl ?_
  by_cases hmore : 64 < (m.x .count).toNat
  · refine .jump (branch_taken ?_) (again _ ?_ ?_)
    · exact (holds_hi (m.x .count) 64#64).trans (decide_eq_true hmore)
    · refine ⟨k + 64, k + 64, ?_, le_rfl, by omega, ?_, halign1, h3⟩
      · show k + 64 + 64 + (m.x .count - 64#64).toNat = size m₀
        have hsub : (m.x .count - 64#64).toNat = (m.x .count).toNat - 64 := by bv_omega
        omega
      · show m1.x .dst = _
        rw [hblock, BitVec.ofNat_add]
        bv_omega
    · show (m.x .count - 64#64).toNat < (m.x .count).toNat
      bv_omega
  · refine .next (branch_not_taken ?_) (sound_tail h3 (by omega) (by omega) (by omega))
    exact (holds_hi (m.x .count) 64#64).trans (decide_eq_false hmore)

/-- The value as `set_long` masks it. -/
def maskedValue (m₀ : Machine Reg) : BitVec 32 := (m₀.x .val).setWidth 32 &&& 255#32

theorem value_eq_zero (h : maskedValue m₀ = 0#32) : value m₀ = 0#8 := by
  have hnat := congrArg BitVec.toNat h
  apply BitVec.eq_of_toNat_eq
  rw [maskedValue, BitVec.toNat_and, BitVec.toNat_setWidth] at hnat
  rw [value, BitVec.toNat_setWidth]
  change (m₀.x .val).toNat % 2 ^ 32 &&& 2 ^ 8 - 1 = 0 at hnat
  rw [Nat.and_two_pow_sub_one_eq_mod] at hnat
  show (m₀.x .val).toNat % 2 ^ 8 = 0
  omega

/-- From the check of the block size on, with the first 16 bytes set. -/
theorem rest_zva (h : Sets m₀ (Set.Ico 0 16) m) (hdst : m.x .dst = m₀.x .dstin &&& ~~~15#64)
    (hvalue : value m₀ = 0#8) (hsize : 160 ≤ size m₀) :
    Rest Instr.exec text .setLong (Done m₀)
      [.mrsDczid .zvaVal, .andImm .zvaVal .zvaVal 31#64, .cmpImm .zvaVal 4#64, .bCond .ne .noZva,
        .strQ 0 .dst 16#64, .stpQ 0 0 .dst 32#64, .bicImm .dst .dst 63#64,
        .sub .count .dstend .dst, .subImm .count .count 128#64] m := by
  refine .next rfl (.next rfl (.next rfl ?_))
  have hchecked := ((h.setX (d := .zvaVal) (by decide) (by decide) m.dczid).setX (d := .zvaVal)
    (by decide) (by decide) (m.dczid &&& 31#64)).setFlags (subFlags (m.dczid &&& 31#64) 4#64)
  by_cases hzva : m.dczid &&& 31#64 = 4#64
  swap
  · refine .jump (branch_taken ?_) (sound_noZva hchecked (by omega) hdst)
    refine (holds_ne (m.dczid &&& 31#64) 4#64).trans ?_
    rw [Bool.not_eq_true', beq_eq_false_iff_ne]
    exact hzva
  refine .next (branch_not_taken ?_) (.next rfl (.next rfl (.next rfl (.next rfl (.next rfl
    (.fall rfl (sound_zvaLoop (h.dczid ▸ hzva) hvalue _ ?_)))))))
  · refine (holds_ne (m.dczid &&& 31#64) 4#64).trans ?_
    rw [Bool.not_eq_false', beq_iff_eq]
    exact hzva
  have hdst64 : m.x .dst &&& ~~~63#64 = m₀.x .dstin &&& ~~~63#64 := by
    rw [hdst, BitVec.and_assoc]
    rfl
  rw [and_not_eq_sub (j := 4) rfl] at hdst
  set d := (m₀.x .dstin).toNat % 2 ^ 4 with hd
  set z := (m₀.x .dstin).toNat % 2 ^ 6 with hz
  have hzd : z < 64 ∧ d < 16 ∧ d ≤ z := by omega
  have h1 := hchecked.storeQ (a := m.x .dst + 16#64) (k := 16 - d)
    (by rw [hdst, ofNat_sub (by omega)]; bv_omega) (by omega)
  have h2 := h1.storePair (a := m.x .dst + 32#64) (k := 32 - d)
    (by rw [hdst, ofNat_sub (by omega)]; bv_omega) (by omega)
  have hset : Set.Ico 0 16 ∪ Set.Ico (16 - d) (16 - d + 16) ∪ Set.Ico (32 - d) (32 - d + 32) =
      Set.Ico 0 (64 - d) := by
    ext o
    simp only [Set.mem_union, Set.mem_Ico]
    omega
  rw [hset] at h2
  have h3 := ((h2.setX (d := .dst) (by decide) (by decide) (m.x .dst &&& ~~~63#64)).setX
    (d := .count) (by decide) (by decide) (m.x .dstend - (m.x .dst &&& ~~~63#64))).setX
    (d := .count) (by decide) (by decide) (m.x .dstend - (m.x .dst &&& ~~~63#64) - 128#64)
  have hcleared := Lib.Imm.toNat_and_not_ones (show (63#64).toNat = 2 ^ 6 - 1 from rfl) (m₀.x .dstin)
  have hoffset := and_not_eq_sub (show (63#64).toNat = 2 ^ 6 - 1 from rfl) (m₀.x .dstin)
  refine ⟨64 - z, 64 - d, ?_, by omega, by omega, ?_, ?_, h3⟩
  · show 64 - z + 64 + (m.x .dstend - (m.x .dst &&& ~~~63#64) - 128#64).toNat = size m₀
    rw [hdst64, hoffset, ← hz, h.dstend]
    have hcount := (m₀.x .count).isLt
    have hzval : (BitVec.ofNat 64 z).toNat = z := by
      rw [BitVec.toNat_ofNat, Nat.mod_eq_of_lt (by omega)]
    unfold size at hsize ⊢
    bv_omega
  · show m.x .dst &&& ~~~63#64 = _
    rw [hdst64, hoffset, ← hz, ofNat_sub (by omega)]
    bv_omega
  · show (m.x .dst &&& ~~~63#64).toNat % 64 = 0
    rw [hdst64, hcleared]
    omega

theorem sound_setLong (h : Sets m₀ ∅ m) (hcount : m.x .count = m₀.x .count)
    (hval : m.x .val = m₀.x .val) (hsize : 96 < size m₀) : Sound m₀ .setLong m := by
  have h1 := (h.setX (d := .val) (by decide) (by decide)
    (((m.x .val).setWidth 32 &&& 255#32).setWidth 64)).setX (d := .dst) (by decide) (by decide)
    (m.x .dstin &&& ~~~15#64)
  have h2 := h1.storeQ (a := m.x .dstin + 0#64) (k := 0) (by rw [h.dstin]) (by omega)
  rw [Set.empty_union, Nat.zero_add] at h2
  have h3 := (h2.setFlags (subFlags (m.x .count) 160#64)).setFlags
    (if Cond.hs.holds (subFlags (m.x .count) 160#64) then
      subFlags ((((m.x .val).setWidth 32 &&& 255#32).setWidth 64).setWidth 32) 0#32
      else ⟨false, false, false, false⟩)
  have hmasked : (((m.x .val).setWidth 32 &&& 255#32).setWidth 64).setWidth 32 = maskedValue m₀ := by
    rw [BitVec.setWidth_setWidth_of_le _ (by decide), BitVec.setWidth_eq, hval, maskedValue]
  have hdst : m.x .dstin &&& ~~~15#64 = m₀.x .dstin &&& ~~~15#64 := by rw [h.dstin]
  have hge : Cond.hs.holds (subFlags (m.x .count) 160#64) = decide (160 ≤ size m₀) := by
    rw [holds_hs, hcount]
    rfl
  refine .enter (.next rfl (.next rfl (.next rfl (.next rfl (.next rfl ?_)))))
  by_cases hlong : 160 ≤ size m₀
  swap
  · refine .jump (branch_taken ?_) (sound_noZva h3 hsize hdst)
    show Cond.ne.holds (if Cond.hs.holds (subFlags (m.x .count) 160#64) then _ else _) = true
    rw [hge, decide_eq_false hlong]
    rfl
  by_cases hzero : maskedValue m₀ = 0#32
  swap
  · refine .jump (branch_taken ?_) (sound_noZva h3 hsize hdst)
    show Cond.ne.holds (if Cond.hs.holds (subFlags (m.x .count) 160#64) then
      subFlags ((((m.x .val).setWidth 32 &&& 255#32).setWidth 64).setWidth 32) 0#32 else _) = true
    rw [hge, decide_eq_true hlong, if_pos rfl, holds_ne, hmasked, Bool.not_eq_true',
      beq_eq_false_iff_ne]
    exact hzero
  · refine .next (branch_not_taken ?_) (rest_zva h3 hdst (value_eq_zero hzero) hlong)
    show Cond.ne.holds (if Cond.hs.holds (subFlags (m.x .count) 160#64) then
      subFlags ((((m.x .val).setWidth 32 &&& 255#32).setWidth 64).setWidth 32) 0#32 else _) = false
    rw [hge, decide_eq_true hlong, if_pos rfl, holds_ne, hmasked, Bool.not_eq_false', beq_iff_eq]
    exact hzero

/-! ## The entry -/

theorem sound_memset (m₀ : Machine Reg) : Sound m₀ .memset m₀ := by
  set m1 : Machine Reg := { m₀ with
    q := Function.update m₀.q 0 (BitVec.replicate 16 ((m₀.x .val).setWidth 8)) } with hm1
  set m2 := m1.setX .dstend (m₀.x .dstin + m₀.x .count) with hm2
  have hq : m1.q 0 = BitVec.replicate 16 (value m₀) :=
    Function.update_self (β := fun _ => BitVec 128) 0 _ m₀.q
  have h2 : Sets m₀ ∅ m2 :=
    ⟨rfl, rfl, hq ▸ splat_replicate (value m₀), rfl, filled_empty _ _ _⟩
  refine .enter (.next rfl (.next rfl (.next rfl ?_)))
  by_cases hlong : 96 < size m₀
  · refine .jump (branch_taken ?_) (sound_setLong (h2.setFlags (subFlags (m₀.x .count) 96#64))
      rfl rfl hlong)
    exact (holds_hi (m₀.x .count) 96#64).trans (decide_eq_true hlong)
  refine .next (branch_not_taken ?_) (.next rfl ?_)
  · exact (holds_hi (m₀.x .count) 96#64).trans (decide_eq_false hlong)
  have h3 := (h2.setFlags (subFlags (m₀.x .count) 96#64)).setFlags (subFlags (m₀.x .count) 16#64)
  by_cases hmedium : 16 ≤ size m₀
  · refine .jump (branch_taken ?_) (sound_setMedium h3 rfl hmedium (by omega))
    exact (holds_hs (m₀.x .count) 16#64).trans (decide_eq_true hmedium)
  refine .next (branch_not_taken ?_) (.next rfl ?_)
  · exact (holds_hs (m₀.x .count) 16#64).trans (decide_eq_false hmedium)
  have h4 := h3.setX (d := .val) (by decide) (by decide) ((m1.q 0).setWidth 64)
  have hval : Splat ((m1.q 0).setWidth 64).toNat 8 (value m₀) := by
    rw [BitVec.toNat_setWidth, show 2 ^ 64 = 256 ^ 8 by norm_num, hq]
    exact (splat_replicate (value m₀)).mod (by decide)
  by_cases height : 8 ≤ size m₀
  · have hbit : (m₀.x .count).getLsbD 3 = true := @count_bit_set m₀ m₀ rfl 3 (by omega)
    refine .next (branch_not_taken (congrArg not hbit)) (.next rfl (.next rfl (.ret rfl ?_)))
    exact h4.bothEnds hval (by decide) height (by omega) (BitVec.add_zero _) (h4.fromEnd height)
  · have hbit : (m₀.x .count).getLsbD 3 = false := @count_bit_clear m₀ m₀ rfl 3 (by omega)
    exact .jump (branch_taken (congrArg not hbit)) (sound_below8 h4 rfl hval (by omega))

end

/-- **The hand-written `memset` is the C one.** From every machine, whatever the pointer, the
value, the size and the block size of `dc zva`, the text returns: with the pointer it was
given in `x0`, and with the memory that the loop of the C function leaves. -/
theorem memset_aarch64_refines (m : Machine Reg) :
    Ends Instr.exec text .memset m (fun m' => m'.x .dstin = m.x .dstin ∧
      m'.mem = memset m.mem (m.x .dstin) ((m.x .val).setWidth 32) (m.x .count).toNat) := by
  refine (sound_memset m).mono (fun m' h => ⟨h.dstin, h.filled.unique ?_⟩)
  have hvalue : value m = ((m.x .val).setWidth 32).setWidth 8 := by
    rw [value, BitVec.setWidth_setWidth_of_le _ (by decide)]
  rw [hvalue]
  exact memset_filled _ _ _ (m.x .count).isLt.le

end Instrew.Client.Memset
