import Instrew.Lib.CodeMem
import Instrew.Lib.Run

/-!
# Address-forming instructions of x86-64

lea and the near jumps with operands relative to the instruction pointer, by the manual.
Instructions are decoded from the bytes at the instruction pointer; the displacement is
relative to the end of the instruction.
-/

namespace Instrew.Lib.X64

open ByteMem CodeMem

structure State : Type where
  rip : BitVec 64
  regs : BitVec 4 → BitVec 64

/-- The byte `i` behind the instruction pointer. -/
def State.byte (m : Mem) (s : State) (i : Nat) : BitVec 8 := m (s.rip + BitVec.ofNat 64 i).toNat

/-- The displacement at byte `i`. -/
def State.disp32 (m : Mem) (s : State) (i : Nat) : BitVec 64 :=
  (word32 m (s.rip + BitVec.ofNat 64 i)).signExtend 64

/-- A REX prefix with the W bit, for 64-bit operands. -/
def isRexW (b : BitVec 8) : Prop := b.extractLsb' 3 5 = 0x9#5

instance (b : BitVec 8) : Decidable (isRexW b) := inferInstanceAs (Decidable (_ = _))

/-- A ModRM byte whose operand is relative to the instruction pointer. -/
def isRipRelative (modrm : BitVec 8) : Prop :=
  modrm.extractLsb' 6 2 = 0#2 ∧ modrm.extractLsb' 0 3 = 5#3

instance (modrm : BitVec 8) : Decidable (isRipRelative modrm) :=
  inferInstanceAs (Decidable (_ ∧ _))

/-- The register operand: the R bit of the prefix and the middle of the ModRM byte. -/
def modrmReg (rex modrm : BitVec 8) : BitVec 4 := rex.extractLsb' 2 1 ++ modrm.extractLsb' 3 3

/-- `lea r64, [rip + disp32]`, `jmp rel32` and `jmp [rip + disp32]`. -/
def step (m : Mem) (s : State) : Option State :=
  if isRexW (s.byte m 0) ∧ s.byte m 1 = 0x8d#8 ∧ isRipRelative (s.byte m 2) then
    some ⟨s.rip + 7#64, Function.update s.regs (modrmReg (s.byte m 0) (s.byte m 2))
      (s.rip + 7#64 + s.disp32 m 3)⟩
  else if s.byte m 0 = 0xe9#8 then some { s with rip := s.rip + 5#64 + s.disp32 m 1 }
  else if s.byte m 0 = 0xff#8 ∧ s.byte m 1 = 0x25#8 then
    some { s with rip := word64 m (s.rip + 6#64 + s.disp32 m 2) }
  else none

section Step

variable {m : Mem} {s : State}

theorem byte_of_holds {bs : List Byte} {i : Nat} {b : Byte} (h : Holds m s.rip.toNat bs)
    (hroom : s.rip.toNat + bs.length ≤ 2 ^ 64) (hi : bs[i]? = some b) : s.byte m i = b := by
  have hlt : i < bs.length := (List.getElem?_eq_some_iff.mp hi).1
  have haddr : (s.rip + BitVec.ofNat 64 i).toNat = s.rip.toNat + i := by
    rw [BitVec.toNat_add, BitVec.toNat_ofNat]
    omega
  rw [State.byte, haddr, CodeMem.byte_of_holds h hi]

theorem disp32_of_holds {i : Nat} {x : BitVec 32}
    (h : Holds m (s.rip.toNat + i) (Bytes.le 4 x.toNat)) (hroom : s.rip.toNat + i < 2 ^ 64) :
    s.disp32 m i = x.signExtend 64 := by
  have haddr : (s.rip + BitVec.ofNat 64 i).toNat = s.rip.toNat + i := by
    rw [BitVec.toNat_add, BitVec.toNat_ofNat]
    omega
  rw [State.disp32, word32, haddr, load_of_holds_le rfl h]

theorem step_lea (hrex : isRexW (s.byte m 0)) (hop : s.byte m 1 = 0x8d#8)
    (hrm : isRipRelative (s.byte m 2)) :
    step m s = some ⟨s.rip + 7#64, Function.update s.regs
      (modrmReg (s.byte m 0) (s.byte m 2)) (s.rip + 7#64 + s.disp32 m 3)⟩ :=
  if_pos ⟨hrex, hop, hrm⟩

theorem step_jmp (h : s.byte m 0 = 0xe9#8) :
    step m s = some { s with rip := s.rip + 5#64 + s.disp32 m 1 } := by
  have hrex : ¬ isRexW (s.byte m 0) := by
    rw [h]
    decide
  rw [step, if_neg (fun hlea => hrex hlea.1), if_pos h]

theorem step_jmpMem (h : s.byte m 0 = 0xff#8) (h1 : s.byte m 1 = 0x25#8) :
    step m s = some { s with rip := word64 m (s.rip + 6#64 + s.disp32 m 2) } := by
  have hrex : ¬ isRexW (s.byte m 0) := by
    rw [h]
    decide
  rw [step, if_neg (fun hlea => hrex hlea.1), if_neg (by rw [h]; decide), if_pos ⟨h, h1⟩]

end Step

end Instrew.Lib.X64
