import Instrew.Lib.CodeMem
import Instrew.Lib.Run

/-!
# Address-forming instructions of RV64

The immediates of the instruction formats and the instructions that form addresses, by the
manual: `exec` for those that use registers only, `execMem` with addi and ld besides.
-/

namespace Instrew.Lib.Rv64

open ByteMem CodeMem

/-! ## Instruction formats -/

def opcode (w : BitVec 32) : BitVec 7 := w.extractLsb' 0 7
def rd (w : BitVec 32) : BitVec 5 := w.extractLsb' 7 5
def funct3 (w : BitVec 32) : BitVec 3 := w.extractLsb' 12 3
def rs1 (w : BitVec 32) : BitVec 5 := w.extractLsb' 15 5

def immI (w : BitVec 32) : BitVec 64 := (w.extractLsb' 20 12).signExtend 64

def immS (w : BitVec 32) : BitVec 64 := (w.extractLsb' 25 7 ++ w.extractLsb' 7 5).signExtend 64

def immB (w : BitVec 32) : BitVec 64 :=
  (w.extractLsb' 31 1 ++ w.extractLsb' 7 1 ++ w.extractLsb' 25 6 ++ w.extractLsb' 8 4 ++
    0#1).signExtend 64

def immU (w : BitVec 32) : BitVec 64 := (w.extractLsb' 12 20 ++ 0#12).signExtend 64

def immJ (w : BitVec 32) : BitVec 64 :=
  (w.extractLsb' 31 1 ++ w.extractLsb' 12 8 ++ w.extractLsb' 20 1 ++ w.extractLsb' 21 10 ++
    0#1).signExtend 64

/-- `offset[8|4:3]` above the register, `offset[7:6|2:1|5]` below. -/
def immCB (w : BitVec 16) : BitVec 64 :=
  (w.extractLsb' 12 1 ++ w.extractLsb' 5 2 ++ w.extractLsb' 2 1 ++ w.extractLsb' 10 2 ++
    w.extractLsb' 3 2 ++ 0#1).signExtend 64

/-- `offset[11|4|9:8|10|6|7|3:1|5]`. -/
def immCJ (w : BitVec 16) : BitVec 64 :=
  (w.extractLsb' 12 1 ++ w.extractLsb' 8 1 ++ w.extractLsb' 9 2 ++ w.extractLsb' 6 1 ++
    w.extractLsb' 7 1 ++ w.extractLsb' 2 1 ++ w.extractLsb' 11 1 ++ w.extractLsb' 3 3 ++
    0#1).signExtend 64

/-! ## Execution -/

structure State : Type where
  pc : BitVec 64
  regs : BitVec 5 → BitVec 64

/-- Register `x0` reads as 0. -/
def State.get (s : State) (r : BitVec 5) : BitVec 64 := if r = 0#5 then 0#64 else s.regs r

/-- auipc, lui and jalr. -/
def exec (w : BitVec 32) (s : State) : Option State :=
  if opcode w = 0x17#7 then
    some ⟨s.pc + 4#64, Function.update s.regs (rd w) (s.pc + immU w)⟩
  else if opcode w = 0x37#7 then
    some ⟨s.pc + 4#64, Function.update s.regs (rd w) (immU w)⟩
  else if opcode w = 0x67#7 ∧ funct3 w = 0#3 then
    some ⟨(s.get (rs1 w) + immI w) &&& ~~~1#64, Function.update s.regs (rd w) (s.pc + 4#64)⟩
  else none

theorem exec_auipc {w : BitVec 32} (h : opcode w = 0x17#7) (s : State) :
    exec w s = some ⟨s.pc + 4#64, Function.update s.regs (rd w) (s.pc + immU w)⟩ :=
  if_pos h

theorem exec_lui {w : BitVec 32} (h : opcode w = 0x37#7) (s : State) :
    exec w s = some ⟨s.pc + 4#64, Function.update s.regs (rd w) (immU w)⟩ := by
  rw [exec, if_neg (by rw [h]; decide), if_pos h]

theorem exec_jalr {w : BitVec 32} (h : opcode w = 0x67#7) (h3 : funct3 w = 0#3) (s : State) :
    exec w s = some
      ⟨(s.get (rs1 w) + immI w) &&& ~~~1#64, Function.update s.regs (rd w) (s.pc + 4#64)⟩ := by
  rw [exec, if_neg (by rw [h]; decide), if_neg (by rw [h]; decide), if_pos ⟨h, h3⟩]

theorem get_update_same {r : BitVec 5} (hr : r ≠ 0#5) (pc : BitVec 64) (regs : BitVec 5 → BitVec 64)
    (v : BitVec 64) : State.get ⟨pc, Function.update regs r v⟩ r = v := by
  rw [State.get, if_neg hr]
  exact Function.update_self r v regs

/-- The instructions of `exec`, addi and ld. -/
def execMem (m : Mem) (w : BitVec 32) (s : State) : Option State :=
  if opcode w = 0x13#7 ∧ funct3 w = 0#3 then
    some ⟨s.pc + 4#64, Function.update s.regs (rd w) (s.get (rs1 w) + immI w)⟩
  else if opcode w = 0x03#7 ∧ funct3 w = 3#3 then
    some ⟨s.pc + 4#64, Function.update s.regs (rd w) (word64 m (s.get (rs1 w) + immI w))⟩
  else exec w s

/-- Fetch and execute. -/
def step (m : Mem) (s : State) : Option State := execMem m (word32 m s.pc) s

/-- A step at word `i` of code that stands at `a`. -/
theorem step_code {m : Mem} {a : BitVec 64} {ws : List (BitVec 32)}
    (h : Holds m a.toNat (code32 ws)) (hroom : a.toNat + 4 * ws.length ≤ 2 ^ 64) {i : Nat}
    {w : BitVec 32} (hi : ws[i]? = some w) {s : State}
    (hpc : s.pc = a + BitVec.ofNat 64 (4 * i)) : step m s = execMem m w s := by
  rw [step, hpc, word32_code h hroom hi]

section Memory

variable {m : Mem} {w : BitVec 32} (s : State)

theorem execMem_addi (h : opcode w = 0x13#7) (h3 : funct3 w = 0#3) :
    execMem m w s =
      some ⟨s.pc + 4#64, Function.update s.regs (rd w) (s.get (rs1 w) + immI w)⟩ :=
  if_pos ⟨h, h3⟩

theorem execMem_ld (h : opcode w = 0x03#7) (h3 : funct3 w = 3#3) :
    execMem m w s = some
      ⟨s.pc + 4#64, Function.update s.regs (rd w) (word64 m (s.get (rs1 w) + immI w))⟩ := by
  rw [execMem, if_neg (by simp [h]), if_pos ⟨h, h3⟩]

theorem execMem_auipc (h : opcode w = 0x17#7) :
    execMem m w s = some ⟨s.pc + 4#64, Function.update s.regs (rd w) (s.pc + immU w)⟩ := by
  rw [execMem, if_neg (by simp [h]), if_neg (by simp [h]), exec_auipc h]

theorem execMem_jalr (h : opcode w = 0x67#7) (h3 : funct3 w = 0#3) :
    execMem m w s = some
      ⟨(s.get (rs1 w) + immI w) &&& ~~~1#64, Function.update s.regs (rd w) (s.pc + 4#64)⟩ := by
  rw [execMem, if_neg (by simp [h]), if_neg (by simp [h]), exec_jalr h h3]

end Memory

/-! ## Jumping to a literal -/

/-- auipc, ld and jalr through one register, without a link. -/
structure IsLoadJump (r : BitVec 5) (w0 w1 w2 : BitVec 32) : Prop where
  auipc : opcode w0 = 0x17#7 ∧ rd w0 = r
  ld : opcode w1 = 0x03#7 ∧ funct3 w1 = 3#3 ∧ rd w1 = r ∧ rs1 w1 = r
  jalr : opcode w2 = 0x67#7 ∧ funct3 w2 = 0#3 ∧ rd w2 = 0#5 ∧ rs1 w2 = r ∧ immI w2 = 0#64

theorem get_update_of_ne {r r' : BitVec 5} (hr : r' ≠ r) (pc pc' : BitVec 64)
    (regs : BitVec 5 → BitVec 64) (v : BitVec 64) :
    State.get ⟨pc, Function.update regs r v⟩ r' = State.get ⟨pc', regs⟩ r' := by
  by_cases h0 : r' = 0#5
  · simp [State.get, h0]
  · simp [State.get, h0, Function.update_of_ne hr]

/-- Writing `x0` is not seen. -/
theorem get_update_zero (r : BitVec 5) (pc pc' : BitVec 64) (regs : BitVec 5 → BitVec 64)
    (v : BitVec 64) : State.get ⟨pc, Function.update regs 0#5 v⟩ r = State.get ⟨pc', regs⟩ r := by
  by_cases h0 : r = 0#5
  · simp [State.get, h0]
  · simp [State.get, h0]

/-- The jump goes to the word at the sum of the distances, and takes one register. -/
theorem IsLoadJump.steps {r : BitVec 5} {w0 w1 w2 : BitVec 32} (hr : r ≠ 0#5)
    (hw : IsLoadJump r w0 w1 w2) {m : Mem} {s : State}
    (h : Holds m s.pc.toNat (code32 [w0, w1, w2])) (hroom : s.pc.toNat + 12 ≤ 2 ^ 64) :
    ∃ s', Run.steps (step m) 3 s = some s' ∧
      s'.pc = word64 m (s.pc + immU w0 + immI w1) &&& ~~~1#64 ∧
      ∀ r', r' ≠ r → s'.get r' = s.get r' := by
  obtain ⟨⟨hop0, hrd0⟩, ⟨hop1, hf1, hrd1, hrs1⟩, ⟨hop2, hf2, hrd2, hrs2, himm2⟩⟩ := hw
  have hauipc : step m s =
      some ⟨s.pc + 4#64, Function.update s.regs r (s.pc + immU w0)⟩ := by
    rw [step_code h hroom (i := 0) rfl (by simp), execMem_auipc s hop0, hrd0]
  have hld : step m ⟨s.pc + 4#64, Function.update s.regs r (s.pc + immU w0)⟩ =
      some ⟨s.pc + 8#64, Function.update s.regs r (word64 m (s.pc + immU w0 + immI w1))⟩ := by
    rw [step_code h hroom (i := 1) rfl rfl, execMem_ld _ hop1 hf1, hrd1, hrs1,
      get_update_same hr, Function.update_idem, BitVec.add_assoc s.pc]
    rfl
  have hjalr : step m ⟨s.pc + 8#64,
        Function.update s.regs r (word64 m (s.pc + immU w0 + immI w1))⟩ =
      some ⟨word64 m (s.pc + immU w0 + immI w1) &&& ~~~1#64, Function.update
        (Function.update s.regs r (word64 m (s.pc + immU w0 + immI w1))) 0#5
        (s.pc + 8#64 + 4#64)⟩ := by
    rw [step_code h hroom (i := 2) rfl rfl, execMem_jalr _ hop2 hf2, hrd2, hrs2, himm2,
      get_update_same hr, BitVec.add_zero]
  refine ⟨⟨word64 m (s.pc + immU w0 + immI w1) &&& ~~~1#64, Function.update
    (Function.update s.regs r (word64 m (s.pc + immU w0 + immI w1))) 0#5
    (s.pc + 8#64 + 4#64)⟩, ?_, rfl, ?_⟩
  · rw [Run.steps_succ hauipc, Run.steps_succ hld, Run.steps_succ hjalr, Run.steps]
  · intro r' hr'
    rw [get_update_zero _ _ s.pc, get_update_of_ne hr' _ s.pc]

end Instrew.Lib.Rv64
