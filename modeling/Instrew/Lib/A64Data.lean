import Instrew.Lib.ByteMem
import Instrew.Lib.Labelled

/-!
# A64 instructions on registers and memory

The assembly instructions that fill memory: arithmetic on general registers, the vector
registers as stored and duplicated to, stores of every size, `dc zva`, and the branches on
flags and bits. General registers are named by a type `R` that the program chooses.

What has been filled is described by offsets from a base address (`Filled`): a store of
equal bytes adds an interval of offsets (`Filled.store`).
-/

namespace Instrew.Lib.A64Data

open ByteMem Labelled

structure Flags : Type where
  n : Bool
  z : Bool
  c : Bool
  v : Bool

/-- The flags of a subtraction. -/
def subFlags {w : Nat} (a b : BitVec w) : Flags :=
  ⟨(a - b).msb, a == b, decide (b.toNat ≤ a.toNat), a.msb != b.msb && (a - b).msb != a.msb⟩

inductive Cond : Type where
  | ne
  | hs
  | hi

def Cond.holds (f : Flags) : Cond → Bool
  | .ne => !f.z
  | .hs => f.c
  | .hi => f.c && !f.z

abbrev Mem : Type := Word → Byte

/-- Store the low bytes of `v`. -/
def storeAt (m : Mem) (a : Word) (size v : Nat) : Mem :=
  fun b => if (b - a).toNat < size then byte v (b - a).toNat else m b

structure Machine (R : Type) : Type where
  x : R → Word
  q : Nat → BitVec 128
  flags : Flags
  mem : Mem
  /-- `dczid_el0` -/
  dczid : Word

variable {R L : Type} [DecidableEq R]

namespace Machine

def setX (m : Machine R) (d : R) (v : Word) : Machine R :=
  { m with x := Function.update m.x d v }

def setMem (m : Machine R) (mem : Mem) : Machine R := { m with mem := mem }

def setFlags (m : Machine R) (f : Flags) : Machine R := { m with flags := f }

variable (m : Machine R) (d : R) (v : Word) (mem : Mem) (f : Flags)

@[simp] theorem setX_x : (m.setX d v).x = Function.update m.x d v := rfl
@[simp] theorem setX_q : (m.setX d v).q = m.q := rfl
@[simp] theorem setX_flags : (m.setX d v).flags = m.flags := rfl
@[simp] theorem setX_mem : (m.setX d v).mem = m.mem := rfl
@[simp] theorem setX_dczid : (m.setX d v).dczid = m.dczid := rfl

omit [DecidableEq R]

@[simp] theorem setFlags_x : (m.setFlags f).x = m.x := rfl
@[simp] theorem setFlags_q : (m.setFlags f).q = m.q := rfl
@[simp] theorem setFlags_flags : (m.setFlags f).flags = f := rfl
@[simp] theorem setFlags_mem : (m.setFlags f).mem = m.mem := rfl
@[simp] theorem setFlags_dczid : (m.setFlags f).dczid = m.dczid := rfl

@[simp] theorem setMem_x : (m.setMem mem).x = m.x := rfl
@[simp] theorem setMem_q : (m.setMem mem).q = m.q := rfl
@[simp] theorem setMem_flags : (m.setMem mem).flags = m.flags := rfl
@[simp] theorem setMem_mem : (m.setMem mem).mem = mem := rfl
@[simp] theorem setMem_dczid : (m.setMem mem).dczid = m.dczid := rfl

end Machine

inductive Instr (R L : Type) : Type where
  /-- `dup vQ.16B, wS` -/
  | dup16B (q : Nat) (s : R)
  /-- `mov xD, vQ.D[0]` -/
  | movD0 (d : R) (q : Nat)
  | add (d a b : R)
  | sub (d a b : R)
  | addImm (d a : R) (imm : Word)
  | subImm (d a : R) (imm : Word)
  | subsImm (d a : R) (imm : Word)
  | cmpImm (a : R) (imm : Word)
  | andImm (d a : R) (imm : Word)
  /-- `and wD, wA, imm` -/
  | andImmW (d a : R) (imm : BitVec 32)
  | bicImm (d a : R) (imm : Word)
  /-- `ccmp wA, imm, nzcv, cond` -/
  | ccmpImmW (a : R) (imm : BitVec 32) (nzcv : Flags) (c : Cond)
  | mrsDczid (d : R)
  /-- A store of the low `size` bytes of a general register. -/
  | str (size : Nat) (s b : R) (off : Word)
  | strQ (q : Nat) (b : R) (off : Word)
  | stpQ (q q' : Nat) (b : R) (off : Word)
  /-- `stp qQ, qQ', [xB, off]!` -/
  | stpQPre (q q' : Nat) (b : R) (off : Word)
  | dcZva (a : R)
  | bCond (c : Cond) (l : L)
  | tbz (a : R) (bit : Nat) (l : L)
  | tbnz (a : R) (bit : Nat) (l : L)
  | cbz (a : R) (l : L)
  | ret

/-- Store a pair of vector registers. -/
def storePair (m : Machine R) (q q' : Nat) (a : Word) : Mem :=
  storeAt (storeAt m.mem a 16 (m.q q).toNat) (a + 16#64) 16 (m.q q').toNat

def branch (m : Machine R) (taken : Bool) (l : L) : Machine R × Next L :=
  (m, if taken then .goto l else .fall)

def Instr.exec (m : Machine R) : Instr R L → Machine R × Next L
  | .dup16B q s =>
      ({ m with q := Function.update m.q q (BitVec.replicate 16 ((m.x s).setWidth 8)) }, .fall)
  | .movD0 d q => (m.setX d ((m.q q).setWidth 64), .fall)
  | .add d a b => (m.setX d (m.x a + m.x b), .fall)
  | .sub d a b => (m.setX d (m.x a - m.x b), .fall)
  | .addImm d a imm => (m.setX d (m.x a + imm), .fall)
  | .subImm d a imm => (m.setX d (m.x a - imm), .fall)
  | .subsImm d a imm => ((m.setFlags (subFlags (m.x a) imm)).setX d (m.x a - imm), .fall)
  | .cmpImm a imm => (m.setFlags (subFlags (m.x a) imm), .fall)
  | .andImm d a imm => (m.setX d (m.x a &&& imm), .fall)
  | .andImmW d a imm => (m.setX d (((m.x a).setWidth 32 &&& imm).setWidth 64), .fall)
  | .bicImm d a imm => (m.setX d (m.x a &&& ~~~imm), .fall)
  | .ccmpImmW a imm nzcv c =>
      (m.setFlags (if c.holds m.flags then subFlags ((m.x a).setWidth 32) imm else nzcv), .fall)
  | .mrsDczid d => (m.setX d m.dczid, .fall)
  | .str size s b off => (m.setMem (storeAt m.mem (m.x b + off) size (m.x s).toNat), .fall)
  | .strQ q b off => (m.setMem (storeAt m.mem (m.x b + off) 16 (m.q q).toNat), .fall)
  | .stpQ q q' b off => (m.setMem (storePair m q q' (m.x b + off)), .fall)
  | .stpQPre q q' b off =>
      ((m.setMem (storePair m q q' (m.x b + off))).setX b (m.x b + off), .fall)
  -- the block is 4 << (dczid & 15) bytes, and aligned
  | .dcZva a =>
      let size := 4 * 2 ^ (m.dczid &&& 15#64).toNat
      (m.setMem (storeAt m.mem (BitVec.ofNat 64 ((m.x a).toNat / size * size)) size 0), .fall)
  | .bCond c l => branch m (c.holds m.flags) l
  | .tbz a bit l => branch m (!(m.x a).getLsbD bit) l
  | .tbnz a bit l => branch m ((m.x a).getLsbD bit) l
  | .cbz a l => branch m (m.x a == 0#64) l
  | .ret => (m, .ret)

section
variable {w : Nat} (a b : BitVec w)

theorem holds_hs : Cond.hs.holds (subFlags a b) = decide (b.toNat ≤ a.toNat) := rfl

theorem holds_ne : Cond.ne.holds (subFlags a b) = !(a == b) := rfl

theorem holds_hi : Cond.hi.holds (subFlags a b) = decide (b.toNat < a.toNat) := by
  unfold Cond.holds subFlags
  by_cases h : a = b
  · simp [h]
  · have hne : a.toNat ≠ b.toNat := fun heq => h (BitVec.eq_of_toNat_eq heq)
    have hlt : b.toNat ≤ a.toNat ↔ b.toNat < a.toNat := by omega
    simp [h, hlt]

end

omit [DecidableEq R] in
theorem branch_taken {m : Machine R} {taken : Bool} {l : L} (h : taken = true) :
    (branch m taken l).2 = .goto l := if_pos h

omit [DecidableEq R] in
theorem branch_not_taken {m : Machine R} {taken : Bool} {l : L} (h : taken = false) :
    (branch m taken l).2 = .fall := by
  rw [branch, h]
  rfl

/-! ## Filling -/

/-- All of the low `size` bytes of `v` are `b`. -/
def Splat (v size : Nat) (b : Byte) : Prop := ∀ j < size, byte v j = b

theorem splat_zero (size : Nat) : Splat 0 size 0#8 := by
  intro j _
  simp [byte]

theorem Splat.mod {v size size' : Nat} {b : Byte} (h : Splat v size b) (hle : size' ≤ size) :
    Splat (v % 256 ^ size') size' b := by
  intro j hj
  rw [byte_mod v hj]
  exact h j (by omega)

theorem Splat.mono {v size size' : Nat} {b : Byte} (h : Splat v size b) (hle : size' ≤ size) :
    Splat v size' b := fun j hj => h j (by omega)

theorem splat_replicate (b : Byte) : Splat (BitVec.replicate 16 b).toNat 16 b := by
  intro j hj
  apply BitVec.eq_of_getLsbD_eq
  intro i hi
  rw [getLsbD_byte _ _ hi, ← BitVec.getLsbD, BitVec.getLsbD_replicate]
  have hin : 8 * j + i < 8 * 16 := by omega
  have hmod : (8 * j + i) % 8 = i := by omega
  rw [hmod, decide_eq_true hin, Bool.true_and]

/-- The memory `m` is `m₀` with the byte `b` at the offsets `P` from `base`. -/
def Filled (m₀ : Mem) (base : Word) (b : Byte) (P : Set Nat) (m : Mem) : Prop :=
  ∀ a, ((a - base).toNat ∈ P → m a = b) ∧ ((a - base).toNat ∉ P → m a = m₀ a)

theorem filled_empty (m₀ : Mem) (base : Word) (b : Byte) : Filled m₀ base b ∅ m₀ :=
  fun _ => ⟨fun h => absurd h (Set.notMem_empty _), fun _ => rfl⟩

/-- The filled offsets determine the memory. -/
theorem Filled.unique {m₀ m m' : Mem} {base : Word} {b : Byte} {P : Set Nat}
    (h : Filled m₀ base b P m) (h' : Filled m₀ base b P m') : m = m' := by
  ext1 a
  by_cases ha : (a - base).toNat ∈ P
  · rw [(h a).1 ha, (h' a).1 ha]
  · rw [(h a).2 ha, (h' a).2 ha]

/-- An address is within a store at an offset exactly when its own offset is in the
interval, the end of the address space included. -/
theorem within_iff (a base : Word) {k size : Nat} (hk : k + size ≤ 2 ^ 64) (hsize : 0 < size) :
    (a - (base + BitVec.ofNat 64 k)).toNat < size ↔ (a - base).toNat ∈ Set.Ico k (k + size) := by
  have hsub : a - (base + BitVec.ofNat 64 k) = (a - base) - BitVec.ofNat 64 k := by
    rw [BitVec.sub_sub]
  have ho := (a - base).isLt
  have hkval : (BitVec.ofNat 64 k).toNat = k := by
    rw [BitVec.toNat_ofNat, Nat.mod_eq_of_lt (by omega)]
  rw [hsub, BitVec.toNat_sub, hkval, Set.mem_Ico]
  rcases Nat.lt_or_ge (a - base).toNat k with hlt | hge
  · rw [Nat.mod_eq_of_lt (by omega)]
    omega
  · rw [show 2 ^ 64 - k + (a - base).toNat = ((a - base).toNat - k) + 2 ^ 64 by omega,
      Nat.add_mod_right, Nat.mod_eq_of_lt (by omega)]
    omega

/-- **A store of equal bytes adds its interval.** -/
theorem Filled.store {m₀ m : Mem} {base : Word} {b : Byte} {P : Set Nat} {k size v : Nat}
    (h : Filled m₀ base b P m) (hv : Splat v size b) (hk : k + size ≤ 2 ^ 64) (hsize : 0 < size) :
    Filled m₀ base b (P ∪ Set.Ico k (k + size))
      (storeAt m (base + BitVec.ofNat 64 k) size v) := by
  intro a
  have hin := within_iff a base hk hsize
  constructor
  · rintro (hP | hnew)
    · by_cases hw : (a - (base + BitVec.ofNat 64 k)).toNat < size
      · rw [storeAt, if_pos hw, hv _ hw]
      · rw [storeAt, if_neg hw, (h a).1 hP]
    · have hw := hin.mpr hnew
      rw [storeAt, if_pos hw, hv _ hw]
  · intro hout
    rw [Set.mem_union, not_or] at hout
    rw [storeAt, if_neg (fun hw => hout.2 (hin.mp hw)), (h a).2 hout.1]

theorem Filled.congr {m₀ m : Mem} {base : Word} {b : Byte} {P P' : Set Nat}
    (h : Filled m₀ base b P m) (hP : P = P') : Filled m₀ base b P' m := hP ▸ h

end Instrew.Lib.A64Data
