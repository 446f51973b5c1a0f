import Instrew.Lib.A64
import Instrew.Lib.Rv64

/-!
# Far-jump stubs

`rtld_elf_add_stub` of `client/rtld.c`, for the two hosts that have it: the bytes it
writes, and what executing them does.

The AArch64 stub builds the address from its four parts (`addStub_aarch64`). The RISC-V
stub loads it from a literal behind the code, but from the wrong place: the load is
relative to the auipc, 12 bytes on, where the padding in front of the literal is. The
headline is `farStub_jumps_iff`: that stub jumps to its symbol for one address only.
-/

namespace Instrew.Client

open Lib Lib.Imm Lib.ByteMem Lib.CodeMem Lib.Run

/-! ## The stubs -/

/-- The hosts with a far-jump stub. -/
inductive StubHost : Type where
  | aarch64
  | riscv
deriving DecidableEq

/-- A wide move with 16 bits of the address or-ed in. -/
def stubMove (code : BitVec 32) (shift : Nat) (sym : Word) : BitVec 32 :=
  (code.setWidth 64 ||| (sym >>> shift &&& 0xffff#64) <<< 5).setWidth 32

/-- `movz x16` and three `movk x16`. -/
def stubMoves (sym : Word) : List (BitVec 32) :=
  [stubMove 0xd2800010#32 0 sym, stubMove 0xf2a00010#32 16 sym, stubMove 0xf2c00010#32 32 sym,
    stubMove 0xf2e00010#32 48 sym]

/-- The bytes `rtld_elf_add_stub` writes: `stcode`. -/
def StubHost.stcode : StubHost → Word → List Byte
  | aarch64, sym =>
      -- and br x16
      code32 (stubMoves sym ++ [0xd61f0200#32])
  | riscv, sym =>
      -- auipc t0, 0; ld t0, 12(t0); jalr zero, t0, 0; nop; .quad sym
      code32 [0x00000297#32, 0x00c2b283#32, 0x00028067#32, 0x00000013#32] ++
        Bytes.le 8 sym.toNat

/-- `rtld_elf_add_stub`: the stub, and the memory with its code. -/
def rtldElfAddStub (host : StubHost) (memAllocCode : Word → Word → Except Errno Word) (sym : Word)
    (m : Mem) : Except Errno (Word × Mem) := do
  let stub ← memAllocCode (BitVec.ofNat 64 (host.stcode sym).length) 0x40#64
  return (stub, writeBytes m stub.toNat (host.stcode sym))

/-! ## AArch64 -/

/-- Or-ing the part into a word without an immediate is replacing the immediate. -/
theorem stubMove_eq_blend {code : BitVec 32}
    (hcode : code.setWidth 64 &&& ~~~0x1fffe0#64 = code.setWidth 64) (shift : Nat) (sym : Word) :
    stubMove code shift sym = blend 0x1fffe0#32 ((sym >>> shift <<< 5).setWidth 32) code := by
  have hpart : (sym >>> shift &&& 0xffff#64) <<< 5 = sym >>> shift <<< 5 &&& 0x1fffe0#64 :=
    BitVec.shiftLeft_and_distrib _ _ 5
  rw [stubMove, hpart, ← hcode, BitVec.or_comm]
  exact setWidth_blend (by decide) _ _ code

/-- A word of the stub moves one part of the symbol to `x16`. -/
theorem stubMove_movesPart (code : BitVec 32) (o : A64.Op) (g : BitVec 2) (sym : Word)
    (h : code.setWidth 64 &&& ~~~0x1fffe0#64 = code.setWidth 64 ∧ A64.op code = some o ∧
      0x1fffe0#32 &&& o.mask = 0#32 ∧ A64.rd code = 16#5 ∧ A64.hw code = g) :
    A64.MovesPart o 16#5 sym (stubMove code (16 * g.toNat) sym) ∧
      A64.hw (stubMove code (16 * g.toNat) sym) = g := by
  obtain ⟨hcode, hop, hmask, hrd, rfl⟩ := h
  rw [← hrd]
  exact A64.movesPart_blend hop hmask sym (stubMove_eq_blend hcode _ sym)

/-- The moves of the stub put the symbol together. -/
theorem stubMoves_movesPart (sym : Word) :
    A64.MovesPart .movz 16#5 sym (stubMove 0xd2800010#32 0 sym) ∧
    (∀ w ∈ (stubMoves sym).tail, A64.MovesPart .movk 16#5 sym w) ∧
    ∀ g, ∃ w ∈ stubMoves sym, A64.hw w = g := by
  have h0 := stubMove_movesPart 0xd2800010#32 .movz 0#2 sym (by decide)
  have h1 := stubMove_movesPart 0xf2a00010#32 .movk 1#2 sym (by decide)
  have h2 := stubMove_movesPart 0xf2c00010#32 .movk 2#2 sym (by decide)
  have h3 := stubMove_movesPart 0xf2e00010#32 .movk 3#2 sym (by decide)
  refine ⟨h0.1, ?_, ?_⟩
  · simp only [stubMoves, List.tail_cons, List.mem_cons, List.not_mem_nil, or_false]
    rintro w (rfl | rfl | rfl)
    · exact h1.1
    · exact h2.1
    · exact h3.1
  · intro g
    have hg : g = 0#2 ∨ g = 1#2 ∨ g = 2#2 ∨ g = 3#2 := by
      revert g
      decide
    simp only [stubMoves, List.mem_cons, List.not_mem_nil, or_false]
    rcases hg with rfl | rfl | rfl | rfl
    · exact ⟨_, .inl rfl, h0.2⟩
    · exact ⟨_, .inr (.inl rfl), h1.2⟩
    · exact ⟨_, .inr (.inr (.inl rfl)), h2.2⟩
    · exact ⟨_, .inr (.inr (.inr rfl)), h3.2⟩

theorem steps_stubMoves {m : Mem} {sym : Word} {s : A64.State}
    (hroom : s.pc.toNat + 20 ≤ 2 ^ 64) (h : Holds m s.pc.toNat (code32 (stubMoves sym))) :
    ∃ s', steps (A64.step m) 4 s = some s' ∧ s'.get 16#5 = sym ∧ s'.sp = s.sp ∧
      (∀ r, r ≠ 16#5 → s'.x r = s.x r) ∧ s'.pc = s.pc + 16#64 := by
  obtain ⟨hz, hk, hall⟩ := stubMoves_movesPart sym
  have hlen : s.pc.toNat + 4 * (stubMoves sym).length < 2 ^ 64 := by
    show s.pc.toNat + 16 < 2 ^ 64
    omega
  have hstraight : ∀ w ∈ stubMoves sym, ∃ o, A64.op w = some o ∧ o.Straight := by
    intro w hw
    rcases List.mem_cons.mp hw with rfl | hw
    · exact ⟨_, hz.op, by decide⟩
    · exact ⟨_, (hk w hw).op, by decide⟩
  have hsteps := A64.steps_execs (stubMoves sym) s h hlen hstraight
  rw [show (4 : Nat) = (stubMoves sym).length from rfl, hsteps]
  exact A64.execs_wide (by decide) hz hk hall s

/-- The AArch64 stub jumps to its symbol, by way of `x16`, wherever it stands. -/
theorem addStub_aarch64 {m : Mem} {sym : Word} {s : A64.State}
    (hroom : s.pc.toNat + 20 ≤ 2 ^ 64) (h : Holds m s.pc.toNat (StubHost.aarch64.stcode sym)) :
    ∃ s', steps (A64.step m) 5 s = some s' ∧ s'.pc = sym ∧ s'.sp = s.sp ∧
      ∀ r, r ≠ 16#5 → s'.x r = s.x r := by
  rw [StubHost.stcode, holds_code32_append] at h
  obtain ⟨t, hmoves, hget, hsp, hx, hpc⟩ := steps_stubMoves hroom h.1
  have hbr : A64.step m t = some (t.jump sym) := by
    have hnat : t.pc.toNat = s.pc.toNat + 4 * (stubMoves sym).length := by
      rw [hpc, BitVec.toNat_add, BitVec.toNat_ofNat]
      show _ = s.pc.toNat + 16
      omega
    have hw := h.2
    rw [← hnat, code32, List.flatMap_singleton] at hw
    rw [A64.step_of_holds hw, ← hget]
    rfl
  refine ⟨t.jump sym, ?_, rfl, hsp, hx⟩
  rw [show 5 = 4 + 1 from rfl, steps_add, hmoves, Option.bind_some, steps_succ hbr]
  rfl

/-! ## RISC-V -/

/-- What the RISC-V stub loads: the padding, and the lower half of the symbol. -/
def stubLiteral (sym : Word) : Word := BitVec.ofNat 64 (0x13 + 2 ^ 32 * (sym.toNat % 2 ^ 32))

theorem toNat_stubLiteral (sym : Word) :
    (stubLiteral sym).toNat = 0x13 + 2 ^ 32 * (sym.toNat % 2 ^ 32) := by
  rw [stubLiteral, BitVec.toNat_ofNat]
  omega

/-- The bytes 12 behind the start of the stub. -/
theorem holds_stubLiteral {m : Mem} {a : Nat} {sym : Word}
    (h : Holds m a (StubHost.riscv.stcode sym)) :
    Holds m (a + 12) (Bytes.le 8 (stubLiteral sym).toNat) := by
  rw [StubHost.stcode, holds_append] at h
  have hnop := holds_code32 (i := 3) h.1 rfl
  have hsym := h.2
  rw [Bytes.le_add 4 4, holds_append] at hsym
  rw [Bytes.le_add 4 4, holds_append, toNat_stubLiteral]
  constructor
  · rw [Bytes.le_congr (w := 0x13) (by omega)]
    exact hnop
  · rw [Bytes.length_le, Bytes.le_congr (w := sym.toNat) (by omega)]
    exact hsym.1

/-- The RISC-V stub jumps to what stands 12 bytes behind its start. -/
theorem addStub_riscv {m : Mem} {sym : Word} {s : Rv64.State}
    (hroom : s.pc.toNat + 24 ≤ 2 ^ 64) (h : Holds m s.pc.toNat (StubHost.riscv.stcode sym)) :
    ∃ s', steps (Rv64.step m) 3 s = some s' ∧ s'.pc = stubLiteral sym &&& ~~~1#64 ∧
      ∀ r, r ≠ 5#5 → s'.get r = s.get r := by
  have hlit : word64 m (s.pc + 12#64) = stubLiteral sym := by
    have haddr : (s.pc + 12#64).toNat = s.pc.toNat + 12 := by
      rw [BitVec.toNat_add, BitVec.toNat_ofNat]
      omega
    rw [word64, haddr]
    exact load_of_holds_le rfl (holds_stubLiteral h)
  have hshape : Rv64.IsLoadJump 5#5 0x00000297#32 0x00c2b283#32 0x00028067#32 :=
    ⟨by decide, by decide, by decide⟩
  have hdist : s.pc + Rv64.immU 0x00000297#32 + Rv64.immI 0x00c2b283#32 = s.pc + 12#64 := by
    rw [BitVec.add_assoc]
    rfl
  rw [StubHost.stcode, holds_append] at h
  have hcode : Holds m s.pc.toNat
      (code32 ([0x00000297#32, 0x00c2b283#32, 0x00028067#32] ++ [0x00000013#32])) := h.1
  obtain ⟨s', hrun, hpc, hregs⟩ :=
    hshape.steps (by decide) (holds_code32_append.mp hcode).1 (by omega)
  rw [hdist, hlit] at hpc
  exact ⟨s', hrun, hpc, hregs⟩

/-! ## Both hosts -/

/-- The instructions of the stub up to and with its jump. -/
def StubHost.jumpAfter : StubHost → Nat
  | aarch64 => 5
  | riscv => 3

/-- Executing the code at `stub` leads to `sym` and changes the scratch register only. -/
def StubHost.Jumps (host : StubHost) (m : Mem) (stub sym : Word) : Prop :=
  match host with
  | aarch64 => ∀ s : A64.State, s.pc = stub →
      ∃ s', steps (A64.step m) aarch64.jumpAfter s = some s' ∧ s'.pc = sym ∧ s'.sp = s.sp ∧
        ∀ r, r ≠ 16#5 → s'.x r = s.x r
  | riscv => ∀ s : Rv64.State, s.pc = stub →
      ∃ s', steps (Rv64.step m) riscv.jumpAfter s = some s' ∧ s'.pc = sym ∧
        ∀ r, r ≠ 5#5 → s'.get r = s.get r

theorem rtldElfAddStub_holds {host : StubHost} {alloc : Word → Word → Except Errno Word}
    {sym stub : Word} {m m' : Mem} (h : rtldElfAddStub host alloc sym m = .ok (stub, m')) :
    Holds m' stub.toNat (host.stcode sym) := by
  rw [rtldElfAddStub] at h
  cases halloc : alloc (BitVec.ofNat 64 (host.stcode sym).length) 0x40#64 with
  | error e =>
      rw [halloc] at h
      cases h
  | ok a =>
      rw [halloc] at h
      cases h
      exact holds_writeBytes m stub.toNat (host.stcode sym)

/-- **Far-jump stubs jump to their symbol on AArch64.** On RISC-V there is one address for
which the stub is right. -/
theorem farStub_jumps_iff (host : StubHost) (alloc : Word → Word → Except Errno Word) (m : Mem)
    {sym stub : Word} {m' : Mem} (h : rtldElfAddStub host alloc sym m = .ok (stub, m'))
    (halign : stub.toNat % 64 = 0) :
    host.Jumps m' stub sym ↔ host = .aarch64 ∨ sym = 0x0000001200000012#64 := by
  have hholds := rtldElfAddStub_holds h
  have hlt := stub.isLt
  cases host with
  | aarch64 =>
      refine iff_of_true ?_ (.inl rfl)
      rintro s rfl
      exact addStub_aarch64 (by omega) hholds
  | riscv =>
      have hlit : stubLiteral sym &&& ~~~1#64 = sym ↔ sym = 0x0000001200000012#64 := by
        have hround := toNat_and_not_sub_one (a := 2#64) (k := 1) rfl (stubLiteral sym)
        have hsym := sym.isLt
        rw [← BitVec.toNat_inj, ← BitVec.toNat_inj, show ~~~1#64 = ~~~(2#64 - 1#64) from rfl,
          hround, toNat_stubLiteral]
        show _ ↔ sym.toNat = 0x1200000012
        omega
      have hrun : ∀ s : Rv64.State, s.pc = stub → ∃ s', steps (Rv64.step m') 3 s = some s' ∧
          s'.pc = stubLiteral sym &&& ~~~1#64 ∧ ∀ r, r ≠ 5#5 → s'.get r = s.get r := by
        rintro s rfl
        exact addStub_riscv (by omega) hholds
      rw [← hlit]
      constructor
      · intro hjumps
        right
        obtain ⟨t, ht, hpc, -⟩ := hjumps ⟨stub, fun _ => 0#64⟩ rfl
        obtain ⟨t', ht', hpc', -⟩ := hrun ⟨stub, fun _ => 0#64⟩ rfl
        obtain rfl : t = t' := Option.some.inj (ht.symm.trans ht')
        rw [← hpc', hpc]
      · rintro (h | h)
        · cases h
        · rw [StubHost.Jumps]
          rwa [h] at hrun

theorem farStub_aarch64_high :
    StubHost.aarch64.Jumps (writeBytes (fun _ => 0#8) 0x400008000040
      (StubHost.aarch64.stcode 0xfedcba9876543210#64)) 0x400008000040#64 0xfedcba9876543210#64 :=
  (farStub_jumps_iff .aarch64 (fun _ _ => .ok 0x400008000040#64) (fun _ => 0#8) rfl rfl).mpr
    (.inl rfl)

/-- A RISC-V stub for `0x400008001000` jumps to `0x0800100000000012`. -/
theorem riscv_stub_misses :
    ¬ StubHost.riscv.Jumps (writeBytes (fun _ => 0#8) 0x400008000000
      (StubHost.riscv.stcode 0x400008001000#64)) 0x400008000000#64 0x400008001000#64 := by
  intro h
  have hpc : (steps (Rv64.step (writeBytes (fun _ => 0#8) 0x400008000000
      (StubHost.riscv.stcode 0x400008001000#64))) 3 ⟨0x400008000000#64, fun _ => 0#64⟩).map
        Rv64.State.pc = some 0x0800100000000012#64 := by
    decide
  obtain ⟨s', hs', hsym, -⟩ := h ⟨0x400008000000#64, fun _ => 0#64⟩ rfl
  rw [StubHost.jumpAfter] at hs'
  rw [hs', Option.map_some, hsym] at hpc
  revert hpc
  decide

end Instrew.Client
