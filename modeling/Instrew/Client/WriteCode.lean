import Instrew.Client.Reloc
import Instrew.Lib.CodeMem

/-!
# Writing code

`mem_write_code` of `client/memory.c`: the copy, and what makes the instruction fetch see
it. On AArch64 these are two loops over cache lines. Their first address is
`dst & ~line_sz`, which clears one bit of `dst` and leaves the bits below it, so the loops
go from one line to the next at the offset that `dst` has in its line.

`code_write_flushes_iff` says when they reach every line that is written to.
-/

namespace Instrew.Client.Memory

open Lib.Imm Lib.ByteMem Lib.CodeMem

/-! ## The function -/

inductive CacheOp : Type where
  | dcCvau (p : Word)
  | icIvau (p : Word)
  | dsbIsh
  | isb
  | riscvFlushIcache (start stop flags : Word)
deriving DecidableEq

/-- What has been executed after some number of rounds of each loop, and whether the end
was reached. -/
structure Executed : Type where
  ops : List CacheOp
  done : Bool

def Executed.andThen (r s : Executed) : Executed :=
  if r.done then ⟨r.ops ++ s.ops, s.done⟩ else r

/-- `for (; p < stop; p += line) op(p)` -/
def flushLoop (op : Word → CacheOp) (line stop : Word) : Nat → Word → Executed
  | 0, _ => ⟨[], false⟩
  | fuel + 1, p =>
      if p < stop then
        let rest := flushLoop op line stop fuel (p + line)
        ⟨op p :: rest.ops, rest.done⟩
      else ⟨[], true⟩

/-- DCache min line size. -/
def dcLineSz (ctrEl0 : Word) : Word := 4#64 <<< (ctrEl0 >>> 16 &&& 0xf#64).toNat

/-- ICache min line size. -/
def icLineSz (ctrEl0 : Word) : Word := 4#64 <<< (ctrEl0 >>> 0 &&& 0xf#64).toNat

/-- One of the two loops, if it is required. -/
def flushLines (op : Word → CacheOp) (required : Bool) (line dst size : Word) (fuel : Nat) :
    Executed :=
  if required then
    (flushLoop op line (dst + size) fuel (dst &&& ~~~line)).andThen ⟨[.dsbIsh], true⟩
  else ⟨[], true⟩

/-- Data cache clean is required. -/
def idcClear (ctrEl0 : Word) : Bool := ctrEl0 &&& 1#64 <<< 28 == 0#64

/-- Instruction cache invalidation is required. -/
def dicClear (ctrEl0 : Word) : Bool := ctrEl0 &&& 1#64 <<< 29 == 0#64

def flushCode (host : Host) (ctrEl0 dst size : Word) (fuel : Nat) : Executed :=
  match host with
  | .x86_64 => ⟨[], true⟩
  | .aarch64 =>
      (flushLines .dcCvau (idcClear ctrEl0) (dcLineSz ctrEl0) dst size fuel).andThen
        ((flushLines .icIvau (dicClear ctrEl0) (icLineSz ctrEl0) dst size fuel).andThen
          ⟨[.isb], true⟩)
  | .riscv => ⟨[.riscvFlushIcache dst (dst + size) 0#64], true⟩

/-- `mem_write_code`, with `fuel` rounds for each loop. -/
def memWriteCode (host : Host) (ctrEl0 : Word) (m : Mem) (dst : Word) (src : List Byte) (fuel : Nat) :
    Mem × Executed :=
  (writeBytes m dst.toNat src, flushCode host ctrEl0 dst (BitVec.ofNat 64 src.length) fuel)

/-! ## One loop -/

section Loop

variable {op : Word → CacheOp} {line stop p q : Word} {fuel k : Nat}

/-- The address in round `j`. -/
def lineAddr (line p : Word) (j : Nat) : Word := p + BitVec.ofNat 64 j * line

theorem lineAddr_zero (line p : Word) : lineAddr line p 0 = p := by
  rw [lineAddr, BitVec.zero_mul, BitVec.add_zero]

theorem lineAddr_succ (line p : Word) (j : Nat) :
    lineAddr line p (j + 1) = lineAddr line (p + line) j := by
  rw [lineAddr, lineAddr, BitVec.ofNat_add, BitVec.add_mul, BitVec.one_mul,
    BitVec.add_comm (BitVec.ofNat 64 j * line), BitVec.add_assoc]

/-- The addresses that the loop passes to its instruction. -/
theorem mem_flushLoop_iff (hop : Function.Injective op) :
    op q ∈ (flushLoop op line stop fuel p).ops ↔
      ∃ j < fuel, q = lineAddr line p j ∧ ∀ i ≤ j, lineAddr line p i < stop := by
  induction fuel generalizing p with
  | zero => simp [flushLoop]
  | succ fuel ih =>
      rw [flushLoop]
      split_ifs with hlt
      · rw [List.mem_cons, hop.eq_iff, ih]
        constructor
        · rintro (rfl | ⟨j, hj, rfl, hall⟩)
          · refine ⟨0, Nat.succ_pos _, (lineAddr_zero _ _).symm, fun i hi => ?_⟩
            rw [Nat.le_zero.mp hi, lineAddr_zero]
            exact hlt
          · refine ⟨j + 1, Nat.succ_lt_succ hj, (lineAddr_succ _ _ _).symm, fun i hi => ?_⟩
            cases i with
            | zero =>
                rw [lineAddr_zero]
                exact hlt
            | succ i =>
                rw [lineAddr_succ]
                exact hall i (Nat.le_of_succ_le_succ hi)
        · rintro ⟨j, hj, rfl, hall⟩
          cases j with
          | zero => exact .inl (lineAddr_zero _ _)
          | succ j =>
              refine .inr ⟨j, Nat.lt_of_succ_lt_succ hj, lineAddr_succ _ _ _, fun i hi => ?_⟩
              rw [← lineAddr_succ]
              exact hall (i + 1) (Nat.succ_le_succ hi)
      · refine iff_of_false List.not_mem_nil ?_
        rintro ⟨j, -, -, hall⟩
        have hzero := hall 0 (Nat.zero_le _)
        rw [lineAddr_zero] at hzero
        exact hlt hzero

/-- The loop ends in the round whose address is not below `stop`. -/
theorem flushLoop_done_iff :
    (flushLoop op line stop fuel p).done = true ↔ ∃ j < fuel, ¬ lineAddr line p j < stop := by
  induction fuel generalizing p with
  | zero => simp [flushLoop]
  | succ fuel ih =>
      rw [flushLoop]
      split_ifs with hlt
      · rw [ih]
        constructor
        · rintro ⟨j, hj, hnot⟩
          exact ⟨j + 1, Nat.succ_lt_succ hj, by rwa [lineAddr_succ]⟩
        · rintro ⟨j, hj, hnot⟩
          cases j with
          | zero =>
              rw [lineAddr_zero] at hnot
              exact absurd hlt hnot
          | succ j =>
              rw [lineAddr_succ] at hnot
              exact ⟨j, Nat.lt_of_succ_lt_succ hj, hnot⟩
      · refine iff_of_true rfl ⟨0, Nat.succ_pos _, ?_⟩
        rwa [lineAddr_zero]

/-- As long as the addresses do not wrap. -/
theorem toNat_lineAddr (hline : line.toNat = 2 ^ k) {j : Nat} (h : p.toNat + j * 2 ^ k < 2 ^ 64) :
    (lineAddr line p j).toNat = p.toNat + j * 2 ^ k := by
  rw [lineAddr, BitVec.toNat_add, BitVec.toNat_mul, BitVec.toNat_ofNat, hline, Nat.mod_mul_mod,
    Nat.add_mod_mod, Nat.mod_eq_of_lt h]

/-- All addresses have the offset of the first one in their lines. -/
theorem lineAddr_mod (hline : line.toNat = 2 ^ k) (hk : k ≤ 64) (j : Nat) :
    (lineAddr line p j).toNat % 2 ^ k = p.toNat % 2 ^ k := by
  rw [lineAddr, BitVec.toNat_add, BitVec.toNat_mul, BitVec.toNat_ofNat, hline, Nat.mod_mul_mod,
    Nat.add_mod_mod, Nat.mod_mod_of_dvd _ (Nat.pow_dvd_pow 2 hk), Nat.add_mul_mod_self_right]

/-- The first address is `dst`, or the same place in the line before. -/
theorem exists_lineAddr_eq (hline : line.toNat = 2 ^ k) (dst : Word) :
    ∃ c, (dst &&& ~~~line).toNat + c * 2 ^ k = dst.toNat := by
  rcases toNat_and_not_bit hline dst with h | h
  · exact ⟨0, by rw [h, zero_mul, add_zero]⟩
  · exact ⟨1, by rw [one_mul, h]⟩

end Loop

/-! ## Which lines the loops reach -/

/-- The offset of `dst` in its line does not lie behind that of the last byte. -/
def LastLineReached (line dst size : Nat) : Prop := dst % line + (size - 1) % line < line

/-- The address that ends the loop is below 2^64. -/
def LoopEnds (line dst size : Nat) : Prop := dst + ((size - 1) / line + 1) * line < 2 ^ 64

instance (line dst size : Nat) : Decidable (LastLineReached line dst size) :=
  inferInstanceAs (Decidable (_ < _))

instance (line dst size : Nat) : Decidable (LoopEnds line dst size) :=
  inferInstanceAs (Decidable (_ < _))

section Reach

variable {line dst stop : Word} {k size : Nat}

/-- An address of the loop in each line. -/
theorem exists_lineAddr_of_lastLineReached (hline : line.toNat = 2 ^ k) (hsize : 0 < size)
    (hstop : stop.toNat = dst.toNat + size) (hreach : LastLineReached (2 ^ k) dst.toNat size) {i : Nat}
    (hlo : i * 2 ^ k < dst.toNat + size) (hhi : dst.toNat < (i + 1) * 2 ^ k) :
    ∃ j, (∀ i ≤ j, lineAddr line (dst &&& ~~~line) i < stop) ∧
      (lineAddr line (dst &&& ~~~line) j).toNat / 2 ^ k = i := by
  have hpos : 0 < 2 ^ k := by positivity
  have hlt := stop.isLt
  have hdst := Nat.div_add_mod' dst.toNat (2 ^ k)
  have hlast := Nat.div_add_mod' (size - 1) (2 ^ k)
  have hmod := Nat.mod_lt dst.toNat hpos
  rw [LastLineReached] at hreach
  obtain ⟨c, hc⟩ := exists_lineAddr_eq hline dst
  -- the line is one of those from the first one to the last one
  have hge : dst.toNat / 2 ^ k ≤ i := Nat.le_of_lt_succ ((Nat.div_lt_iff_lt_mul hpos).mpr hhi)
  have hle : i ≤ dst.toNat / 2 ^ k + (size - 1) / 2 ^ k := by
    refine Nat.le_of_lt_succ (Nat.lt_of_mul_lt_mul_right (a := 2 ^ k) ?_)
    rw [Nat.succ_mul, Nat.add_mul]
    omega
  have hmul : i * 2 ^ k ≤ (dst.toNat / 2 ^ k + (size - 1) / 2 ^ k) * 2 ^ k := Nat.mul_le_mul_right _ hle
  rw [Nat.add_mul] at hmul
  have haddr : (dst &&& ~~~line).toNat + (i - dst.toNat / 2 ^ k + c) * 2 ^ k =
      i * 2 ^ k + dst.toNat % 2 ^ k := by
    have hsplit : (i - dst.toNat / 2 ^ k) * 2 ^ k + dst.toNat / 2 ^ k * 2 ^ k = i * 2 ^ k := by
      rw [← Nat.add_mul, Nat.sub_add_cancel hge]
    rw [Nat.add_mul]
    omega
  have hbelow : ∀ i' ≤ i - dst.toNat / 2 ^ k + c,
      (dst &&& ~~~line).toNat + i' * 2 ^ k < dst.toNat + size := fun i' hi' => by
    have := Nat.mul_le_mul_right (2 ^ k) hi'
    omega
  refine ⟨i - dst.toNat / 2 ^ k + c, fun i' hi' => ?_, ?_⟩
  · have hb := hbelow i' hi'
    rw [BitVec.lt_def, toNat_lineAddr hline (by omega), hstop]
    exact hb
  · have hb := hbelow _ le_rfl
    rw [toNat_lineAddr hline (by omega), haddr, mul_comm i, Nat.mul_add_div hpos,
      Nat.div_eq_of_lt hmod, add_zero]

/-- The addresses of the loop have the offset of `dst` in their lines. -/
theorem lineAddr_eq_mul_add (dst : Word) (hline : line.toNat = 2 ^ k) (hk : k ≤ 64) (j : Nat) :
    (lineAddr line (dst &&& ~~~line) j).toNat =
      (lineAddr line (dst &&& ~~~line) j).toNat / 2 ^ k * 2 ^ k + dst.toNat % 2 ^ k := by
  obtain ⟨c, hc⟩ := exists_lineAddr_eq hline dst
  have hmod := lineAddr_mod (p := dst &&& ~~~line) hline hk j
  rw [← hc, Nat.add_mul_mod_self_right, ← hmod, Nat.div_add_mod']

/-- If the offset lies behind that of the last byte, the last line is missed. -/
theorem lastLineReached_of_exists (hline : line.toNat = 2 ^ k) (hk : k ≤ 64) (hsize : 0 < size)
    (hstop : stop.toNat = dst.toNat + size)
    (h : ∀ i, i * 2 ^ k < dst.toNat + size → dst.toNat < (i + 1) * 2 ^ k →
      ∃ j, lineAddr line (dst &&& ~~~line) j < stop ∧
        (lineAddr line (dst &&& ~~~line) j).toNat / 2 ^ k = i) :
    LastLineReached (2 ^ k) dst.toNat size := by
  have hpos : 0 < 2 ^ k := by positivity
  have hdst := Nat.div_add_mod' dst.toNat (2 ^ k)
  have hlast := Nat.div_add_mod' (size - 1) (2 ^ k)
  have hmod := Nat.mod_lt dst.toNat hpos
  have hmod' := Nat.mod_lt (size - 1) hpos
  rw [LastLineReached]
  by_contra hnot
  obtain ⟨j, hlt, hin⟩ := h (dst.toNat / 2 ^ k + (size - 1) / 2 ^ k + 1)
    (by rw [Nat.succ_mul, Nat.add_mul]; omega)
    (by rw [Nat.succ_mul, Nat.succ_mul, Nat.add_mul]; omega)
  have haddr := lineAddr_eq_mul_add dst hline hk j
  rw [hin, Nat.succ_mul, Nat.add_mul] at haddr
  rw [BitVec.lt_def, hstop] at hlt
  omega

theorem loopEnds_iff (hline : line.toNat = 2 ^ k) (hk : k ≤ 64) (hsize : 0 < size)
    (hstop : stop.toNat = dst.toNat + size) :
    (∃ j, ¬ lineAddr line (dst &&& ~~~line) j < stop) ↔ LoopEnds (2 ^ k) dst.toNat size := by
  have hpos : 0 < 2 ^ k := by positivity
  have hdst := Nat.div_add_mod' dst.toNat (2 ^ k)
  have hlast := Nat.div_add_mod' (size - 1) (2 ^ k)
  have hmod := Nat.mod_lt (size - 1) hpos
  rw [LoopEnds]
  constructor
  · rintro ⟨j, hnot⟩
    have haddr := lineAddr_eq_mul_add dst hline hk j
    have hlt := (lineAddr line (dst &&& ~~~line) j).isLt
    rw [BitVec.lt_def, hstop] at hnot
    generalize (lineAddr line (dst &&& ~~~line) j).toNat / 2 ^ k = q at haddr
    -- `q` lines from the start is at least one line behind the last one passed
    have hq : dst.toNat / 2 ^ k + ((size - 1) / 2 ^ k + 1) ≤ q := by
      by_contra hq
      have hmul := Nat.mul_le_mul_right (2 ^ k)
        (show q ≤ dst.toNat / 2 ^ k + (size - 1) / 2 ^ k by omega)
      rw [Nat.add_mul] at hmul
      omega
    have hmul := Nat.mul_le_mul_right (2 ^ k) hq
    rw [Nat.add_mul] at hmul
    omega
  · intro hends
    obtain ⟨c, hc⟩ := exists_lineAddr_eq hline dst
    refine ⟨(size - 1) / 2 ^ k + 1 + c, ?_⟩
    have haddr : (dst &&& ~~~line).toNat + ((size - 1) / 2 ^ k + 1 + c) * 2 ^ k =
        dst.toNat + ((size - 1) / 2 ^ k + 1) * 2 ^ k := by
      rw [Nat.add_mul]
      omega
    rw [BitVec.lt_def, toNat_lineAddr hline (by omega), haddr, hstop, Nat.succ_mul]
    omega

end Reach

/-! ## The whole function -/

theorem mem_andThen {r s : Executed} {x : CacheOp} :
    x ∈ (r.andThen s).ops ↔ x ∈ r.ops ∨ r.done = true ∧ x ∈ s.ops := by
  rw [Executed.andThen]
  cases hdone : r.done <;> simp

theorem andThen_done {r s : Executed} : (r.andThen s).done = (r.done && s.done) := by
  rw [Executed.andThen]
  cases hdone : r.done <;> simp [hdone]

theorem exists_of_mem_flushLoop {op : Word → CacheOp} {line stop : Word} {x : CacheOp} :
    ∀ {fuel p}, x ∈ (flushLoop op line stop fuel p).ops → ∃ q, x = op q
  | 0, _, h => nomatch h
  | fuel + 1, p, h => by
      rw [flushLoop] at h
      split_ifs at h
      · rcases List.mem_cons.mp h with rfl | h
        · exact ⟨p, rfl⟩
        · exact exists_of_mem_flushLoop h
      · exact nomatch h

section Whole

variable {ctrEl0 dst size q : Word} {fuel : Nat}

theorem dcCvau_mem_flushCode (hidc : idcClear ctrEl0 = true) :
    .dcCvau q ∈ (flushCode .aarch64 ctrEl0 dst size fuel).ops ↔
      .dcCvau q ∈ (flushLoop .dcCvau (dcLineSz ctrEl0) (dst + size) fuel
        (dst &&& ~~~dcLineSz ctrEl0)).ops := by
  have hic : ∀ stop p, CacheOp.dcCvau q ∉
      (flushLoop .icIvau (icLineSz ctrEl0) stop fuel p).ops := fun stop p h => by
    obtain ⟨_, heq⟩ := exists_of_mem_flushLoop h
    cases heq
  rw [flushCode, mem_andThen, mem_andThen, flushLines, if_pos hidc, mem_andThen, flushLines]
  split_ifs <;> simp [mem_andThen, hic]

/-- The second loop is reached when the first one ends. -/
theorem icIvau_mem_flushCode (hidc : idcClear ctrEl0 = true) (hdic : dicClear ctrEl0 = true) :
    .icIvau q ∈ (flushCode .aarch64 ctrEl0 dst size fuel).ops ↔
      (flushLoop .dcCvau (dcLineSz ctrEl0) (dst + size) fuel
          (dst &&& ~~~dcLineSz ctrEl0)).done = true ∧
        .icIvau q ∈ (flushLoop .icIvau (icLineSz ctrEl0) (dst + size) fuel
          (dst &&& ~~~icLineSz ctrEl0)).ops := by
  have hdc : ∀ stop p, CacheOp.icIvau q ∉
      (flushLoop .dcCvau (dcLineSz ctrEl0) stop fuel p).ops := fun stop p h => by
    obtain ⟨_, heq⟩ := exists_of_mem_flushLoop h
    cases heq
  rw [flushCode, mem_andThen, mem_andThen, flushLines, if_pos hidc, mem_andThen, flushLines,
    if_pos hdic, mem_andThen, andThen_done]
  simp [hdc]

/-- The line sizes are powers of two. -/
theorem exists_lineSz (field : Word) : ∃ k ≤ 64, (4#64 <<< (field &&& 0xf#64).toNat).toNat = 2 ^ k := by
  have hlt : (field &&& 0xf#64).toNat < 16 :=
    Nat.lt_of_le_of_lt Nat.and_le_right (by decide)
  generalize (field &&& 0xf#64).toNat = n at hlt
  have hpow : 2 ^ n ≤ 2 ^ 15 := Nat.pow_le_pow_right Nat.two_pos (by omega)
  refine ⟨2 + n, by omega, ?_⟩
  rw [BitVec.toNat_shiftLeft, Nat.shiftLeft_eq, pow_add]
  exact Nat.mod_eq_of_lt (show 4 * 2 ^ n < 2 ^ 64 by omega)

end Whole

/-- At least one of the addresses passed to the instruction lies in each line that
intersects what is written. -/
def FlushesLines (op : Word → CacheOp) (line : Nat) (ctrEl0 : Word) (m : Mem) (dst : Word)
    (src : List Byte) : Prop :=
  ∀ i, i * line < dst.toNat + src.length → dst.toNat < (i + 1) * line →
    ∃ fuel q, op q ∈ (memWriteCode .aarch64 ctrEl0 m dst src fuel).2.ops ∧ q.toNat / line = i

/-- The addresses of one loop, over all numbers of rounds. -/
theorem exists_mem_flushLoop_iff {op : Word → CacheOp} {line stop p q : Word}
    (hop : Function.Injective op) :
    (∃ fuel, op q ∈ (flushLoop op line stop fuel p).ops) ↔
      ∃ j, q = lineAddr line p j ∧ ∀ i ≤ j, lineAddr line p i < stop := by
  simp only [mem_flushLoop_iff hop]
  exact ⟨fun ⟨_, j, _, h⟩ => ⟨j, h⟩, fun ⟨j, h⟩ => ⟨j + 1, j, Nat.lt_succ_self j, h⟩⟩

/-- Rounds that are enough for one loop to end and for another to pass an address. -/
theorem exists_done_and_mem_iff {op op' : Word → CacheOp} {line line' stop p p' q : Word}
    (hop : Function.Injective op') :
    (∃ fuel, (flushLoop op line stop fuel p).done = true ∧
        op' q ∈ (flushLoop op' line' stop fuel p').ops) ↔
      (∃ j, ¬ lineAddr line p j < stop) ∧
        ∃ j, q = lineAddr line' p' j ∧ ∀ i ≤ j, lineAddr line' p' i < stop := by
  simp only [mem_flushLoop_iff hop, flushLoop_done_iff]
  constructor
  · rintro ⟨fuel, ⟨j, -, hdone⟩, j', -, h⟩
    exact ⟨⟨j, hdone⟩, j', h⟩
  · rintro ⟨⟨j, hdone⟩, j', h⟩
    exact ⟨j + j' + 1, ⟨j, by omega, hdone⟩, j', by omega, h⟩

section Reach

variable {line dst stop : Word} {k size : Nat}

theorem reaches_lines_iff (hline : line.toNat = 2 ^ k) (hk : k ≤ 64) (hsize : 0 < size)
    (hstop : stop.toNat = dst.toNat + size) :
    (∀ i, i * 2 ^ k < dst.toNat + size → dst.toNat < (i + 1) * 2 ^ k →
      ∃ q j, (q = lineAddr line (dst &&& ~~~line) j ∧
        ∀ i ≤ j, lineAddr line (dst &&& ~~~line) i < stop) ∧ q.toNat / 2 ^ k = i) ↔
      LastLineReached (2 ^ k) dst.toNat size := by
  constructor
  · intro h
    refine lastLineReached_of_exists hline hk hsize hstop fun i hlo hhi => ?_
    obtain ⟨_, j, ⟨rfl, hall⟩, hin⟩ := h i hlo hhi
    exact ⟨j, hall j le_rfl, hin⟩
  · intro hreach i hlo hhi
    obtain ⟨j, hall, hin⟩ := exists_lineAddr_of_lastLineReached hline hsize hstop hreach hlo hhi
    exact ⟨_, j, ⟨rfl, hall⟩, hin⟩

end Reach

section Flushes

theorem toNat_stop {dst : Word} {src : List Byte} (hwrap : dst.toNat + src.length < 2 ^ 64) :
    (dst + BitVec.ofNat 64 src.length).toNat = dst.toNat + src.length := by
  rw [BitVec.toNat_add, BitVec.toNat_ofNat, Nat.add_mod_mod, Nat.mod_eq_of_lt hwrap]

theorem flushesLines_dcCvau_iff (ctrEl0 : Word) (m : Mem) (dst : Word) (src : List Byte)
    (hsize : 0 < src.length) (hwrap : dst.toNat + src.length < 2 ^ 64)
    (hidc : idcClear ctrEl0 = true) :
    FlushesLines .dcCvau (dcLineSz ctrEl0).toNat ctrEl0 m dst src ↔
      LastLineReached (dcLineSz ctrEl0).toNat dst.toNat src.length := by
  have hinj : Function.Injective CacheOp.dcCvau := fun _ _ h => CacheOp.dcCvau.inj h
  obtain ⟨k, hk, hline⟩ := exists_lineSz (ctrEl0 >>> 16)
  rw [← dcLineSz] at hline
  rw [hline, ← reaches_lines_iff hline hk hsize (toNat_stop hwrap)]
  refine forall_congr' fun i => imp_congr_right fun _ => imp_congr_right fun _ => ?_
  rw [exists_comm]
  refine exists_congr fun q => ?_
  rw [exists_and_right, exists_and_right, ← exists_mem_flushLoop_iff hinj]
  exact and_congr_left fun _ => exists_congr fun fuel => dcCvau_mem_flushCode hidc

theorem flushesLines_icIvau_iff (ctrEl0 : Word) (m : Mem) (dst : Word) (src : List Byte)
    (hsize : 0 < src.length) (hwrap : dst.toNat + src.length < 2 ^ 64)
    (hidc : idcClear ctrEl0 = true) (hdic : dicClear ctrEl0 = true) :
    FlushesLines .icIvau (icLineSz ctrEl0).toNat ctrEl0 m dst src ↔
      LoopEnds (dcLineSz ctrEl0).toNat dst.toNat src.length ∧
        LastLineReached (icLineSz ctrEl0).toNat dst.toNat src.length := by
  have hinj : Function.Injective CacheOp.icIvau := fun _ _ h => CacheOp.icIvau.inj h
  have hstop := toNat_stop hwrap
  obtain ⟨kd, hkd, hdc⟩ := exists_lineSz (ctrEl0 >>> 16)
  obtain ⟨ki, hki, hic⟩ := exists_lineSz (ctrEl0 >>> 0)
  rw [← dcLineSz] at hdc
  rw [← icLineSz] at hic
  have hpassed : ∀ q, (∃ fuel, .icIvau q ∈ (memWriteCode .aarch64 ctrEl0 m dst src fuel).2.ops) ↔
      LoopEnds (2 ^ kd) dst.toNat src.length ∧
        ∃ j, q = lineAddr (icLineSz ctrEl0) (dst &&& ~~~icLineSz ctrEl0) j ∧
          ∀ i ≤ j, lineAddr (icLineSz ctrEl0) (dst &&& ~~~icLineSz ctrEl0) i <
            dst + BitVec.ofNat 64 src.length := fun q => by
    rw [← loopEnds_iff hdc hkd hsize hstop, ← exists_done_and_mem_iff hinj]
    exact exists_congr fun fuel => icIvau_mem_flushCode hidc hdic
  rw [hdc, hic, ← reaches_lines_iff hic hki hsize hstop]
  constructor
  · intro h
    constructor
    · -- the first line is reached, so the second loop is
      have hpos : 0 < 2 ^ ki := by positivity
      have hmod := Nat.mod_lt dst.toNat hpos
      have hdst := Nat.div_add_mod' dst.toNat (2 ^ ki)
      obtain ⟨fuel, q, hmem, -⟩ := h (dst.toNat / 2 ^ ki) (by omega) (by rw [Nat.succ_mul]; omega)
      exact ((hpassed q).mp ⟨fuel, hmem⟩).1
    · intro i hlo hhi
      obtain ⟨fuel, q, hmem, hin⟩ := h i hlo hhi
      obtain ⟨j, hj⟩ := ((hpassed q).mp ⟨fuel, hmem⟩).2
      exact ⟨q, j, hj, hin⟩
  · rintro ⟨hends, h⟩ i hlo hhi
    obtain ⟨q, j, hj, hin⟩ := h i hlo hhi
    obtain ⟨fuel, hmem⟩ := (hpassed q).mpr ⟨hends, j, hj⟩
    exact ⟨fuel, q, hmem, hin⟩

end Flushes

/-- **When a code write on AArch64 flushes every line it touches.** Both loops have to get to
the last line, and the first one has to end for the second one to start. -/
theorem code_write_flushes_iff (ctrEl0 : Word) (m : Mem) (dst : Word) (src : List Byte)
    (hsize : 0 < src.length) (hwrap : dst.toNat + src.length < 2 ^ 64)
    (hidc : idcClear ctrEl0 = true) (hdic : dicClear ctrEl0 = true) :
    FlushesLines .dcCvau (dcLineSz ctrEl0).toNat ctrEl0 m dst src ∧
        FlushesLines .icIvau (icLineSz ctrEl0).toNat ctrEl0 m dst src ↔
      LastLineReached (dcLineSz ctrEl0).toNat dst.toNat src.length ∧
        LastLineReached (icLineSz ctrEl0).toNat dst.toNat src.length ∧
        LoopEnds (dcLineSz ctrEl0).toNat dst.toNat src.length := by
  rw [flushesLines_dcCvau_iff ctrEl0 m dst src hsize hwrap hidc,
    flushesLines_icIvau_iff ctrEl0 m dst src hsize hwrap hidc hdic]
  exact and_congr_right fun _ => and_comm

/-- Lines of 64 bytes, data cache clean and instruction cache invalidation required. -/
def ctrSample : Word := 0x00040004#64

/-- Eight bytes that lie in one line. -/
theorem patch_in_line_flushed :
    FlushesLines .dcCvau 64 ctrSample (fun _ => 0#8) 0x400000001038#64 (List.replicate 8 0#8) ∧
      FlushesLines .icIvau 64 ctrSample (fun _ => 0#8) 0x400000001038#64 (List.replicate 8 0#8) :=
  (code_write_flushes_iff ctrSample (fun _ => 0#8) 0x400000001038#64 (List.replicate 8 0#8)
    (by decide) (by decide) (by decide) (by decide)).mpr (by decide)

/-- A patch of eight bytes, four of which are in the next line: neither loop gets there. -/
theorem patch_across_lines_missed :
    ¬ FlushesLines .dcCvau 64 ctrSample (fun _ => 0#8) 0x40000000103c#64 (List.replicate 8 0#8) ∧
      ¬ FlushesLines .icIvau 64 ctrSample (fun _ => 0#8) 0x40000000103c#64
        (List.replicate 8 0#8) := by
  have hdc := flushesLines_dcCvau_iff ctrSample (fun _ => 0#8) 0x40000000103c#64
    (List.replicate 8 0#8) (by decide) (by decide) (by decide)
  have hic := flushesLines_icIvau_iff ctrSample (fun _ => 0#8) 0x40000000103c#64
    (List.replicate 8 0#8) (by decide) (by decide) (by decide) (by decide)
  exact ⟨fun h => absurd (hdc.mp h) (by decide), fun h => absurd (hic.mp h) (by decide)⟩

end Instrew.Client.Memory
