import Instrew.Lib.CodeMem
import Instrew.Lib.Imm
import Instrew.Lib.Run

/-!
# Address-forming instructions of A64

The instructions that form an address, load one and jump to it, by the manual. An
instruction is known by the bits under a mask (`Op.mask`, `Op.value`); no two patterns
overlap (`op_eq_some_iff`), so replacing bits outside the mask does not change the
instruction (`op_blend`). Register number 31 is the zero register or the stack pointer,
depending on the instruction.
-/

namespace Instrew.Lib.A64

open ByteMem CodeMem Imm

/-! ## Instructions -/

/-- The 64-bit forms where there are several, and the add without a shift. -/
inductive Op : Type where
  | b
  | bl
  | adr
  | adrp
  | addImm
  | movz
  | movk
  | ldrLiteral
  | br
deriving DecidableEq

def Op.mask : Op → BitVec 32
  | b => 0xfc000000#32
  | bl => 0xfc000000#32
  | adr => 0x9f000000#32
  | adrp => 0x9f000000#32
  | addImm => 0xffc00000#32
  | movz => 0xff800000#32
  | movk => 0xff800000#32
  | ldrLiteral => 0xff000000#32
  | br => 0xfffffc1f#32

def Op.value : Op → BitVec 32
  | b => 0x14000000#32
  | bl => 0x94000000#32
  | adr => 0x10000000#32
  | adrp => 0x90000000#32
  | addImm => 0x91000000#32
  | movz => 0xd2800000#32
  | movk => 0xf2800000#32
  | ldrLiteral => 0x58000000#32
  | br => 0xd61f0000#32

def Op.all : List Op := [b, bl, adr, adrp, addImm, movz, movk, ldrLiteral, br]

/-- The instruction of a word. -/
def op (w : BitVec 32) : Option Op := Op.all.find? fun o => w &&& o.mask == o.value

/-- Two patterns disagree about a bit that both look at. -/
theorem Op.disjoint {o o' : Op} (h : o.value &&& o'.mask = o'.value &&& o.mask) : o = o' := by
  revert h
  cases o <;> cases o' <;> decide

theorem op_eq_some_iff {w : BitVec 32} {o : Op} : op w = some o ↔ w &&& o.mask = o.value := by
  constructor
  · intro h
    simpa using List.find?_some h
  · intro h
    cases hop : op w with
    | none =>
        have hno := List.find?_eq_none.mp hop o (by cases o <;> decide)
        simp [h] at hno
    | some o' =>
        have ho' : w &&& o'.mask = o'.value := by simpa using List.find?_some hop
        have heq : o'.value &&& o.mask = o.value &&& o'.mask := by
          rw [← h, ← ho', BitVec.and_assoc, BitVec.and_assoc, BitVec.and_comm o'.mask]
        rw [Op.disjoint heq]

/-- Bits outside the pattern do not matter. -/
theorem op_blend {w mask : BitVec 32} {o : Op} (h : op w = some o) (hmask : mask &&& o.mask = 0#32)
    (data : BitVec 32) : op (blend mask data w) = some o := by
  rw [op_eq_some_iff] at h ⊢
  rw [blend_and hmask, h]

/-! ## Fields -/

def rd (w : BitVec 32) : BitVec 5 := w.extractLsb' 0 5
def rn (w : BitVec 32) : BitVec 5 := w.extractLsb' 5 5
def imm12 (w : BitVec 32) : BitVec 12 := w.extractLsb' 10 12
def imm16 (w : BitVec 32) : BitVec 16 := w.extractLsb' 5 16

/-- Which 16 bits a wide move sets. -/
def hw (w : BitVec 32) : BitVec 2 := w.extractLsb' 21 2

/-- The distance of a branch. -/
def imm26 (w : BitVec 32) : BitVec 64 := (w.extractLsb' 0 26 ++ 0#2).signExtend 64

/-- The distance of a literal. -/
def imm19 (w : BitVec 32) : BitVec 64 := (w.extractLsb' 5 19 ++ 0#2).signExtend 64

/-- The distance of an adr. -/
def imm21 (w : BitVec 32) : BitVec 64 := (w.extractLsb' 5 19 ++ w.extractLsb' 29 2).signExtend 64

/-- The distance of an adrp, which counts pages. -/
def imm21Page (w : BitVec 32) : BitVec 64 :=
  (w.extractLsb' 5 19 ++ w.extractLsb' 29 2 ++ 0#12).signExtend 64

/-! ## Execution -/

structure State : Type where
  pc : BitVec 64
  x : BitVec 5 → BitVec 64
  sp : BitVec 64

namespace State

variable (s : State)

/-- A register, 31 being zero. -/
def get (r : BitVec 5) : BitVec 64 := if r = 31#5 then 0#64 else s.x r

def set (r : BitVec 5) (v : BitVec 64) : State :=
  if r = 31#5 then s else { s with x := Function.update s.x r v }

/-- A register, 31 being the stack pointer. -/
def getSp (r : BitVec 5) : BitVec 64 := if r = 31#5 then s.sp else s.x r

def setSp (r : BitVec 5) (v : BitVec 64) : State :=
  if r = 31#5 then { s with sp := v } else { s with x := Function.update s.x r v }

def next : State := { s with pc := s.pc + 4#64 }

def jump (target : BitVec 64) : State := { s with pc := target }

end State

/-- The 16 bits of a wide move in place. -/
def wide (hw : BitVec 2) (v : BitVec 16) : BitVec 64 := v.setWidth 64 <<< (16 * hw.toNat)

/-- The bits a wide move sets. -/
def wideMask (hw : BitVec 2) : BitVec 64 := 0xffff#64 <<< (16 * hw.toNat)

/-- Execute the word at the program counter. -/
def exec (m : Mem) (w : BitVec 32) (s : State) : Option State :=
  match op w with
  | some .b => some (s.jump (s.pc + imm26 w))
  | some .bl => some ((s.set 30#5 (s.pc + 4#64)).jump (s.pc + imm26 w))
  | some .adr => some (s.set (rd w) (s.pc + imm21 w)).next
  | some .adrp => some (s.set (rd w) ((s.pc &&& ~~~0xfff#64) + imm21Page w)).next
  | some .addImm => some (s.setSp (rd w) (s.getSp (rn w) + (imm12 w).setWidth 64)).next
  | some .movz => some (s.set (rd w) (wide (hw w) (imm16 w))).next
  | some .movk =>
      some (s.set (rd w) (blend (wideMask (hw w)) (wide (hw w) (imm16 w)) (s.get (rd w)))).next
  | some .ldrLiteral => some (s.set (rd w) (word64 m (s.pc + imm19 w))).next
  | some .br => some (s.jump (s.get (rn w)))
  | none => none

/-- Fetch and execute. -/
def step (m : Mem) (s : State) : Option State := exec m (word32 m s.pc) s

/-! ## Loads and stores -/

/-- A load or store with an unsigned offset. -/
def IsAccess (w : BitVec 32) : Prop := w &&& 0x3b000000#32 = 0x39000000#32

instance (w : BitVec 32) : Decidable (IsAccess w) := inferInstanceAs (Decidable (_ = _))

/-- The base 2 logarithm of the number of bytes: the size field, but 4 for a vector
register of 128 bits. -/
def accessScale (w : BitVec 32) : Nat :=
  if w.extractLsb' 26 1 = 1#1 ∧ w.extractLsb' 23 1 = 1#1 ∧ w.extractLsb' 30 2 = 0#2 then 4
  else (w.extractLsb' 30 2).toNat

/-- The address accessed. -/
def accessAddr (w : BitVec 32) (s : State) : BitVec 64 :=
  s.getSp (rn w) + (imm12 w).setWidth 64 <<< accessScale w

/-! ## Wide moves -/

/-- The 16 bits of a value that a wide move can set. -/
def part (v : BitVec 64) (hw : BitVec 2) : BitVec 16 := v.extractLsb' (16 * hw.toNat) 16

theorem getLsbD_wideMask (hw : BitVec 2) (i : Nat) :
    (wideMask hw).getLsbD i = decide (16 * hw.toNat ≤ i ∧ i < 16 * hw.toNat + 16) := by
  have hlt := hw.isLt
  have hones : 0xffff#64 = (BitVec.allOnes 16).setWidth 64 := rfl
  rw [wideMask, hones, BitVec.getLsbD_shiftLeft, BitVec.getLsbD_setWidth, BitVec.getLsbD_allOnes]
  by_cases hlow : i < 16 * hw.toNat
  · simp [hlow]
  · by_cases hhigh : i < 16 * hw.toNat + 16
    · simp [hlow, hhigh, show i < 64 by omega, show i - 16 * hw.toNat < 16 by omega,
        show i - 16 * hw.toNat < 64 by omega, Nat.le_of_not_lt hlow]
    · simp [hhigh, show ¬ i - 16 * hw.toNat < 16 by omega]

theorem part_wide (hw : BitVec 2) (v : BitVec 16) : part (wide hw v) hw = v := by
  have hlt := hw.isLt
  apply BitVec.eq_of_getLsbD_eq
  intro i hi
  rw [part, wide, BitVec.getLsbD_extractLsb', BitVec.getLsbD_shiftLeft, BitVec.getLsbD_setWidth,
    Nat.add_sub_cancel_left]
  simp [hi, show 16 * hw.toNat + i < 64 by omega, show i < 64 by omega]

/-- A movk sets its part and keeps the others. -/
theorem part_blend (g g' : BitVec 2) (v : BitVec 16) (old : BitVec 64) :
    part (blend (wideMask g) (wide g v) old) g' = if g' = g then v else part old g' := by
  by_cases hg : g' = g
  · subst hg
    have hcov : Covers (wideMask g') (16 * g'.toNat) 16 := by
      intro i hi
      rw [getLsbD_wideMask]
      exact decide_eq_true ⟨by omega, by omega⟩
    rw [if_pos rfl, part, hcov.extractLsb'_blend, ← part, part_wide]
  · have hne : g'.toNat ≠ g.toNat := fun h => hg (BitVec.eq_of_toNat_eq h)
    have hspare : Spares (wideMask g) (16 * g'.toNat) 16 := by
      intro i hi
      rw [getLsbD_wideMask]
      exact decide_eq_false (by omega)
    rw [if_neg hg, part, hspare.extractLsb'_blend, part]

theorem eq_of_parts {v v' : BitVec 64} (h : ∀ g, part v g = part v' g) : v = v' := by
  apply BitVec.eq_of_getLsbD_eq
  intro i hi
  have hbit := congrArg (BitVec.getLsbD · (i % 16)) (h (BitVec.ofNat 2 (i / 16)))
  have hnat : (BitVec.ofNat 2 (i / 16)).toNat = i / 16 := by
    rw [BitVec.toNat_ofNat]
    omega
  simp only [part, BitVec.getLsbD_extractLsb', hnat, Nat.div_add_mod,
    show i % 16 < 16 by omega, decide_true, Bool.true_and] at hbit
  exact hbit

/-! ## Registers -/

section Registers

variable (s : State) {r r' : BitVec 5} (v : BitVec 64)

theorem get_set_same (hr : r ≠ 31#5) : (s.set r v).get r = v := by
  simp [State.get, State.set, hr]

theorem getSp_set_same (hr : r ≠ 31#5) : (s.set r v).getSp r = v := by
  simp [State.getSp, State.set, hr]

theorem getSp_setSp_same (r : BitVec 5) : (s.setSp r v).getSp r = v := by
  by_cases hr : r = 31#5 <;> simp [State.getSp, State.setSp, hr]

theorem set_x_of_ne (h : r' ≠ r) : (s.set r v).x r' = s.x r' := by
  by_cases hr : r = 31#5
  · simp [State.set, hr]
  · simp [State.set, hr, Function.update_of_ne h]

@[simp] theorem set_pc : (s.set r v).pc = s.pc := by
  by_cases hr : r = 31#5 <;> simp [State.set, hr]

@[simp] theorem set_sp : (s.set r v).sp = s.sp := by
  by_cases hr : r = 31#5 <;> simp [State.set, hr]

@[simp] theorem next_pc : s.next.pc = s.pc + 4#64 := rfl

@[simp] theorem next_x : s.next.x = s.x := rfl

@[simp] theorem next_sp : s.next.sp = s.sp := rfl

@[simp] theorem next_get : s.next.get r = s.get r := rfl

@[simp] theorem next_getSp : s.next.getSp r = s.getSp r := rfl

@[simp] theorem jump_pc (target : BitVec 64) : (s.jump target).pc = target := rfl

@[simp] theorem jump_x (target : BitVec 64) : (s.jump target).x = s.x := rfl

@[simp] theorem jump_sp (target : BitVec 64) : (s.jump target).sp = s.sp := rfl

end Registers

/-! ## Sequences of instructions -/

/-- Execute words one after the other. -/
def execs (m : Mem) : List (BitVec 32) → State → Option State
  | [], s => some s
  | w :: ws, s => (exec m w s).bind (execs m ws)

/-- The word behind the program counter is executed by a step. -/
theorem step_of_holds {m : Mem} {s : State} {w : BitVec 32}
    (h : Holds m s.pc.toNat (Bytes.le 4 w.toNat)) : step m s = exec m w s := by
  rw [step, word32, load_of_holds_le rfl h]

/-- The instructions that do not jump. -/
def Op.Straight (o : Op) : Prop := o ≠ b ∧ o ≠ bl ∧ o ≠ br

instance (o : Op) : Decidable o.Straight := inferInstanceAs (Decidable (_ ∧ _ ∧ _))

theorem exec_straight_pc {m : Mem} {w : BitVec 32} {o : Op} (hop : op w = some o)
    (ho : o.Straight) {s s' : State} (h : exec m w s = some s') : s'.pc = s.pc + 4#64 := by
  have hset : ∀ r v, (s.setSp r v).pc = s.pc := by
    intro r v
    by_cases hr : r = 31#5 <;> simp [State.setSp, hr]
  rw [exec, hop] at h
  obtain ⟨hb, hbl, hbr⟩ := ho
  cases o with
  | b => exact absurd rfl hb
  | bl => exact absurd rfl hbl
  | br => exact absurd rfl hbr
  | _ =>
      cases h
      simp [hset]

/-- Code without jumps is executed word by word. -/
theorem steps_execs {m : Mem} : ∀ (ws : List (BitVec 32)) (s : State),
    Holds m s.pc.toNat (code32 ws) → s.pc.toNat + 4 * ws.length < 2 ^ 64 →
    (∀ w ∈ ws, ∃ o, op w = some o ∧ o.Straight) →
    Run.steps (step m) ws.length s = execs m ws s
  | [], _, _, _, _ => rfl
  | w :: ws, s, h, hroom, hstraight => by
      rw [code32, List.flatMap_cons, holds_append, Bytes.length_le] at h
      rw [List.length_cons] at hroom
      rw [List.length_cons, Run.steps, execs, step_of_holds h.1]
      cases hexec : exec m w s with
      | none => rfl
      | some s' =>
          obtain ⟨o, hop, ho⟩ := hstraight w List.mem_cons_self
          have hpc := exec_straight_pc hop ho hexec
          have hnat : s'.pc.toNat = s.pc.toNat + 4 := by
            rw [hpc, BitVec.toNat_add, BitVec.toNat_ofNat]
            omega
          rw [Option.bind_some, Option.bind_some]
          exact steps_execs ws s' (by rw [hnat]; exact h.2) (by omega)
            (fun v hv => hstraight v (List.mem_cons_of_mem _ hv))

section WideMoves

variable {m : Mem} {r : BitVec 5} {v : BitVec 64}

/-- A word that moves its part of `v` to `r`. -/
structure MovesPart (o : Op) (r : BitVec 5) (v : BitVec 64) (w : BitVec 32) : Prop where
  op : op w = some o
  rd : rd w = r
  imm : imm16 w = part v (hw w)

theorem MovesPart.movz {w : BitVec 32} (h : MovesPart .movz r v w) (s : State) :
    exec m w s = some (s.set r (wide (hw w) (part v (hw w)))).next := by
  rw [exec, h.op]
  simp only [h.rd, h.imm]

theorem MovesPart.movk {w : BitVec 32} (h : MovesPart .movk r v w) (s : State) :
    exec m w s = some (s.set r
      (blend (wideMask (hw w)) (wide (hw w) (part v (hw w))) (s.get r))).next := by
  rw [exec, h.op]
  simp only [h.rd, h.imm]

/-- Replacing the immediate of a wide move by the part of a value it is about. -/
theorem movesPart_blend {w : BitVec 32} {o : Op} (hop : op w = some o)
    (hmask : 0x1fffe0#32 &&& o.mask = 0#32) (v : BitVec 64) {w' : BitVec 32}
    (hw' : w' = blend 0x1fffe0#32 ((v >>> (16 * (hw w).toNat) <<< 5).setWidth 32) w) :
    MovesPart o (rd w) v w' ∧ hw w' = hw w := by
  have hhw : hw w' = hw w := by
    rw [hw', hw, Spares.extractLsb'_blend (by decide), hw]
  refine ⟨⟨?_, ?_, ?_⟩, hhw⟩
  · rw [hw']
    exact op_blend hop hmask _
  · rw [hw', rd, Spares.extractLsb'_blend (by decide), rd]
  · rw [hhw, hw', imm16, Covers.extractLsb'_blend (by decide), part]
    apply BitVec.eq_of_getLsbD_eq
    intro i hi
    simp [hi, show 5 + i < 32 by omega]

/-- Each movk adds its part to those that are in place. -/
theorem execs_movk (hr : r ≠ 31#5) : ∀ (ws : List (BitVec 32)) (s : State),
    (∀ w ∈ ws, MovesPart .movk r v w) →
    ∃ s', execs m ws s = some s' ∧ s'.sp = s.sp ∧ (∀ r', r' ≠ r → s'.x r' = s.x r') ∧
      s'.pc = s.pc + BitVec.ofNat 64 (4 * ws.length) ∧
      ∀ g, part (s.get r) g = part v g ∨ (∃ w ∈ ws, hw w = g) → part (s'.get r) g = part v g
  | [], s, _ => by
      refine ⟨s, rfl, rfl, fun _ _ => rfl, by simp, ?_⟩
      rintro g (hg | ⟨w, hw, -⟩)
      · exact hg
      · cases hw
  | w :: ws, s, h => by
      have hexec := (h w List.mem_cons_self).movk (m := m) s
      obtain ⟨s', hrun, hsp, hx, hpc, hparts⟩ :=
        execs_movk hr ws _ (fun u hu => h u (List.mem_cons_of_mem _ hu))
      refine ⟨s', by rw [execs, hexec, Option.bind_some, hrun], ?_, ?_, ?_, ?_⟩
      · rw [hsp, next_sp, set_sp]
      · intro r' hr'
        rw [hx r' hr', next_x, set_x_of_ne _ _ hr']
      · rw [hpc, next_pc, set_pc, List.length_cons, Nat.mul_succ, Nat.add_comm, BitVec.ofNat_add,
          BitVec.add_assoc]
      · intro g hg
        apply hparts
        rw [next_get, get_set_same _ _ hr, part_blend]
        rcases hg with hg | ⟨u, hu, rfl⟩
        · left
          split_ifs with heq
          · rw [heq]
          · exact hg
        · rcases List.mem_cons.mp hu with rfl | hu
          · left
            rw [if_pos rfl]
          · exact .inr ⟨u, hu, rfl⟩

/-- **A movz and movks build a value**, in any order that has every part. -/
theorem execs_wide (hr : r ≠ 31#5) {w : BitVec 32} {ws : List (BitVec 32)}
    (hz : MovesPart .movz r v w) (hk : ∀ u ∈ ws, MovesPart .movk r v u)
    (hall : ∀ g, ∃ u ∈ w :: ws, hw u = g) (s : State) :
    ∃ s', execs m (w :: ws) s = some s' ∧ s'.get r = v ∧ s'.sp = s.sp ∧
      (∀ r', r' ≠ r → s'.x r' = s.x r') ∧
      s'.pc = s.pc + BitVec.ofNat 64 (4 * (w :: ws).length) := by
  have hexec := hz.movz (m := m) s
  obtain ⟨s', hrun, hsp, hx, hpc, hparts⟩ := execs_movk (m := m) hr ws
    (s.set r (wide (hw w) (part v (hw w)))).next hk
  refine ⟨s', by rw [execs, hexec, Option.bind_some, hrun], ?_, ?_, ?_, ?_⟩
  · apply eq_of_parts
    intro g
    apply hparts
    obtain ⟨u, hu, rfl⟩ := hall g
    rcases List.mem_cons.mp hu with rfl | hu
    · left
      rw [next_get, get_set_same _ _ hr, part_wide]
    · exact .inr ⟨u, hu, rfl⟩
  · rw [hsp, next_sp, set_sp]
  · intro r' hr'
    rw [hx r' hr', next_x, set_x_of_ne _ _ hr']
  · rw [hpc, next_pc, set_pc, List.length_cons, Nat.mul_succ, Nat.add_comm, BitVec.ofNat_add,
      BitVec.add_assoc]

end WideMoves

end Instrew.Lib.A64
