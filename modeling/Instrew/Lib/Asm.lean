import Instrew.Basic

/-!
# Straight-line machine code around one external function

A register machine with 64-bit words: registers `R`, memory in aligned 64-bit
cells. Code is a tree of instruction lists, ending in an indirect jump that
leaves it, and may call one external function (`callee`), of which only what a
calling convention promises is known.

The rules are for the two ways such code keeps registers across the call: a
save area addressed from a fixed base (`saveAll`, `restoreAll`) and a stack that
is pushed and popped (`pushAll`, `popAll`).
-/

namespace Instrew.Lib.Asm

structure Machine (R : Type) : Type where
  regs : R → Word
  mem : Word → Word

section
variable {R : Type}

def Machine.setMem (m : Machine R) (a v : Word) : Machine R :=
  { m with mem := Function.update m.mem a v }

@[simp] theorem setMem_regs (m : Machine R) (a v : Word) : (m.setMem a v).regs = m.regs := rfl

@[simp] theorem setMem_mem (m : Machine R) (a v : Word) :
    (m.setMem a v).mem = Function.update m.mem a v := rfl

end

variable {R : Type} [DecidableEq R]

def Machine.setReg (m : Machine R) (r : R) (v : Word) : Machine R :=
  { m with regs := Function.update m.regs r v }

@[simp] theorem setReg_mem (m : Machine R) (r : R) (v : Word) : (m.setReg r v).mem = m.mem := rfl

@[simp] theorem setReg_regs (m : Machine R) (r : R) (v : Word) :
    (m.setReg r v).regs = Function.update m.regs r v := rfl

inductive Instr (R : Type) : Type where
  | mov (d s : R)
  | li (d : R) (v : Word)
  | add (d a b : R)
  | addi (d s : R) (v : Word)
  | and (d a b : R)
  | andi (d s : R) (v : Word)
  | ld (d b : R) (off : Word)
  | sd (s b : R) (off : Word)
  | sdi (v : Word) (b : R) (off : Word)

def Instr.exec (m : Machine R) : Instr R → Machine R
  | .mov d s => m.setReg d (m.regs s)
  | .li d v => m.setReg d v
  | .add d a b => m.setReg d (m.regs a + m.regs b)
  | .addi d s v => m.setReg d (m.regs s + v)
  | .and d a b => m.setReg d (m.regs a &&& m.regs b)
  | .andi d s v => m.setReg d (m.regs s &&& v)
  | .ld d b off => m.setReg d (m.mem (m.regs b + off))
  | .sd s b off => m.setMem (m.regs b + off) (m.regs s)
  | .sdi v b off => m.setMem (m.regs b + off) v

def execAll (is : List (Instr R)) (m : Machine R) : Machine R := is.foldl Instr.exec m

@[simp] theorem execAll_nil (m : Machine R) : execAll [] m = m := rfl

@[simp] theorem execAll_cons (i : Instr R) (is : List (Instr R)) (m : Machine R) :
    execAll (i :: is) m = execAll is (i.exec m) := rfl

theorem execAll_append (is js : List (Instr R)) (m : Machine R) :
    execAll (is ++ js) m = execAll js (execAll is m) := List.foldl_append

/-- The register an instruction writes; a store writes none. -/
def Instr.dest : Instr R → Option R
  | .mov d _ | .li d _ | .add d _ _ | .addi d _ _ | .and d _ _ | .andi d _ _ | .ld d _ _ => some d
  | .sd _ _ _ | .sdi _ _ _ => none

theorem exec_regs_of_dest (m : Machine R) {i : Instr R} {r : R} (h : i.dest ≠ some r) :
    (i.exec m).regs r = m.regs r := by
  cases i with
  | sd => rfl
  | sdi => rfl
  | _ => exact Function.update_of_ne (fun heq => h (congrArg some heq.symm)) _ _

theorem exec_mem_of_dest (m : Machine R) {i : Instr R} (h : i.dest ≠ none) :
    (i.exec m).mem = m.mem := by
  cases i with
  | sd => exact absurd rfl h
  | sdi => exact absurd rfl h
  | _ => rfl

theorem execAll_regs_of_dest {r : R} : ∀ (is : List (Instr R)) (m : Machine R),
    (∀ i ∈ is, i.dest ≠ some r) → (execAll is m).regs r = m.regs r
  | [], _, _ => rfl
  | i :: is, m, h => by
      rw [execAll_cons, execAll_regs_of_dest is _ (fun j hj => h j (List.mem_cons_of_mem _ hj)),
        exec_regs_of_dest m (h i List.mem_cons_self)]

theorem execAll_mem_of_dest : ∀ (is : List (Instr R)) (m : Machine R),
    (∀ i ∈ is, i.dest ≠ none) → (execAll is m).mem = m.mem
  | [], _, _ => rfl
  | i :: is, m, h => by
      rw [execAll_cons, execAll_mem_of_dest is _ (fun j hj => h j (List.mem_cons_of_mem _ hj)),
        exec_mem_of_dest m (h i List.mem_cons_self)]

/-- Code up to the jump that leaves it. -/
inductive Code (R : Type) : Type where
  /-- Instructions, then the rest. -/
  | line (is : List (Instr R)) (k : Code R)
  /-- A call of the external function. -/
  | call (k : Code R)
  | ifEq (a b : R) (t e : Code R)
  /-- A local call that leaves its return address `ret` in `link`; `k` is the
  code at `ret`. -/
  | callLocal (link : R) (ret : Word) (body k : Code R)
  /-- An indirect jump. -/
  | jump (r : R)

/-- How the code is left: the target of the jump, the machine then, and the
machines in which the external function was called. -/
structure Exit (R : Type) : Type where
  target : Word
  machine : Machine R
  calls : List (Machine R)

def Code.exec (callee : Machine R → Machine R) : Code R → Machine R → Exit R
  | .line is k, m => k.exec callee (execAll is m)
  | .call k, m =>
      let e := k.exec callee (callee m)
      { e with calls := m :: e.calls }
  | .ifEq a b t e, m => if m.regs a = m.regs b then t.exec callee m else e.exec callee m
  | .callLocal link ret body k, m =>
      let e := body.exec callee (m.setReg link ret)
      if e.target = ret then
        let e' := k.exec callee e.machine
        { e' with calls := e.calls ++ e'.calls }
      else e
  | .jump r, m => ⟨m.regs r, m, []⟩

/-- Only what the external function does in the calls that are made matters. -/
theorem Code.exec_congr {callee callee' : Machine R → Machine R} (k : Code R) (m : Machine R)
    (h : ∀ c ∈ (k.exec callee m).calls, callee' c = callee c) :
    k.exec callee' m = k.exec callee m := by
  induction k generalizing m with
  | line is k ih => exact ih _ h
  | call k ih =>
      rw [exec, List.forall_mem_cons] at h
      rw [exec, exec, h.1, ih _ h.2]
  | ifEq a b t e iht ihe =>
      rw [exec] at h ⊢
      rw [exec]
      split_ifs at h ⊢ with heq
      · exact iht _ h
      · exact ihe _ h
  | callLocal link ret body k ihb ihk =>
      have hbody : body.exec callee' (m.setReg link ret) = body.exec callee (m.setReg link ret) := by
        refine ihb _ fun c hc => h c ?_
        rw [exec]
        split_ifs
        · exact List.mem_append_left _ hc
        · exact hc
      rw [exec, exec, hbody]
      split_ifs with hret
      · rw [ihk _ fun c hc => h c ?_]
        rw [exec, if_pos hret]
        exact List.mem_append_right _ hc
      · rfl
  | jump r => rfl

/-! ## Saving to fixed offsets -/

def saveAll (b : R) (l : List (R × Word)) : List (Instr R) :=
  l.map (fun p => .sd p.1 b p.2)

def restoreAll (b : R) (l : List (R × Word)) : List (Instr R) :=
  l.map (fun p => .ld p.1 b p.2)

theorem execAll_saveAll_regs (b : R) : ∀ (l : List (R × Word)) (m : Machine R),
    (execAll (saveAll b l) m).regs = m.regs
  | [], _ => rfl
  | p :: l, m => by
      rw [saveAll, List.map_cons, execAll_cons, ← saveAll, execAll_saveAll_regs b l]
      rfl

/-- A cell that is not saved to keeps its value. -/
theorem execAll_saveAll_mem_other (b : R) : ∀ (l : List (R × Word)) (m : Machine R) {a : Word},
    (∀ p ∈ l, a ≠ m.regs b + p.2) → (execAll (saveAll b l) m).mem a = m.mem a
  | [], _, _, _ => rfl
  | p :: l, m, a, h => by
      rw [saveAll, List.map_cons, execAll_cons, ← saveAll, execAll_saveAll_mem_other b l]
      · exact Function.update_of_ne (h p List.mem_cons_self) _ _
      · exact fun q hq => h q (List.mem_cons_of_mem _ hq)

theorem execAll_saveAll_mem (b : R) : ∀ (l : List (R × Word)) (m : Machine R),
    (l.map Prod.snd).Nodup → ∀ p ∈ l,
      (execAll (saveAll b l) m).mem (m.regs b + p.2) = m.regs p.1
  | [], _, _, p, hp => by simp at hp
  | q :: l, m, hnd, p, hp => by
      rw [List.map_cons, List.nodup_cons] at hnd
      rw [saveAll, List.map_cons, execAll_cons, ← saveAll]
      rcases List.mem_cons.mp hp with rfl | hp
      · rw [execAll_saveAll_mem_other b l]
        · exact Function.update_self _ _ _
        · intro q hq heq
          have hoff : p.2 = q.2 := (BitVec.add_right_inj (m.regs b)).mp heq
          exact hnd.1 (hoff ▸ List.mem_map.mpr ⟨q, hq, rfl⟩)
      · exact execAll_saveAll_mem b l _ hnd.2 p hp

theorem execAll_restoreAll_mem (b : R) : ∀ (l : List (R × Word)) (m : Machine R),
    (execAll (restoreAll b l) m).mem = m.mem
  | [], _ => rfl
  | p :: l, m => by
      rw [restoreAll, List.map_cons, execAll_cons, ← restoreAll, execAll_restoreAll_mem b l]
      rfl

theorem execAll_restoreAll_other (b : R) : ∀ (l : List (R × Word)) (m : Machine R) {r : R},
    r ∉ l.map Prod.fst → (execAll (restoreAll b l) m).regs r = m.regs r
  | [], _, _, _ => rfl
  | p :: l, m, r, hr => by
      rw [List.map_cons, List.mem_cons, not_or] at hr
      rw [restoreAll, List.map_cons, execAll_cons, ← restoreAll,
        execAll_restoreAll_other b l _ hr.2]
      exact Function.update_of_ne hr.1 _ _

/-- Restoring from cells that hold the values `v` gives the registers these
values. -/
theorem execAll_restoreAll_regs {b : R} {v : R → Word} : ∀ (l : List (R × Word)) (m : Machine R),
    b ∉ l.map Prod.fst → (∀ p ∈ l, m.mem (m.regs b + p.2) = v p.1) →
    ∀ r ∈ l.map Prod.fst, (execAll (restoreAll b l) m).regs r = v r
  | [], _, _, _, r, hr => by simp at hr
  | p :: l, m, hb, hv, r, hr => by
      rw [List.map_cons, List.mem_cons, not_or] at hb
      rw [restoreAll, List.map_cons, execAll_cons, ← restoreAll]
      have hbase : (Instr.exec m (.ld p.1 b p.2)).regs b = m.regs b :=
        Function.update_of_ne hb.1 _ _
      have hv' : ∀ q ∈ l, (Instr.exec m (.ld p.1 b p.2)).mem
          ((Instr.exec m (.ld p.1 b p.2)).regs b + q.2) = v q.1 := by
        intro q hq
        rw [hbase]
        exact hv q (List.mem_cons_of_mem _ hq)
      by_cases hmem : r ∈ l.map Prod.fst
      · exact execAll_restoreAll_regs l _ hb.2 hv' r hmem
      · rw [execAll_restoreAll_other b l _ hmem]
        rcases List.mem_cons.mp hr with rfl | hr
        · rw [← hv p List.mem_cons_self]
          exact Function.update_self _ _ _
        · exact absurd hr hmem

theorem execAll_restoreAll_loads {b : R} : ∀ (l : List (R × Word)) (m : Machine R),
    b ∉ l.map Prod.fst → (l.map Prod.fst).Nodup →
    ∀ p ∈ l, (execAll (restoreAll b l) m).regs p.1 = m.mem (m.regs b + p.2)
  | [], _, _, _, p, hp => by simp at hp
  | q :: l, m, hb, hnd, p, hp => by
      rw [List.map_cons, List.mem_cons, not_or] at hb
      rw [List.map_cons, List.nodup_cons] at hnd
      rw [restoreAll, List.map_cons, execAll_cons, ← restoreAll]
      have hbase : (Instr.exec m (.ld q.1 b q.2)).regs b = m.regs b :=
        Function.update_of_ne hb.1 _ _
      rcases List.mem_cons.mp hp with rfl | hp
      · rw [execAll_restoreAll_other b l _ hnd.1]
        exact Function.update_self _ _ _
      · rw [execAll_restoreAll_loads l _ hb.2 hnd.2 p hp, hbase]
        rfl

/-! ## Pushing and popping -/

def push (sp r : R) : List (Instr R) := [.addi sp sp (-8#64), .sd r sp 0#64]

def pop (sp r : R) : List (Instr R) := [.ld r sp 0#64, .addi sp sp 8#64]

def pushAll (sp : R) (rs : List R) : List (Instr R) := rs.flatMap (push sp)

/-- Pop the registers in the reverse of the given order. -/
def popAll (sp : R) : List R → List (Instr R)
  | [] => []
  | r :: rs => popAll sp rs ++ pop sp r

/-- The `i`-th cell below `a`. -/
def below (a : Word) (i : Nat) : Word := a - BitVec.ofNat 64 (8 * i)

theorem below_zero (a : Word) : below a 0 = a := by simp [below]

theorem below_succ (a : Word) (i : Nat) : below (a - 8#64) i = below a (i + 1) := by
  unfold below
  rw [Nat.mul_add, Nat.mul_one, BitVec.ofNat_add, BitVec.sub_sub, BitVec.add_comm]

theorem below_ne {a : Word} {i j : Nat} (hi : 8 * i < 2 ^ 64) (hj : 8 * j < 2 ^ 64)
    (h : i ≠ j) : below a i ≠ below a j := by
  intro heq
  unfold below at heq
  have hoff : BitVec.ofNat 64 (8 * i) = BitVec.ofNat 64 (8 * j) := by
    have := congrArg (fun x => a - x) heq
    simpa using this
  have hnat := congrArg BitVec.toNat hoff
  rw [BitVec.toNat_ofNat, BitVec.toNat_ofNat, Nat.mod_eq_of_lt hi, Nat.mod_eq_of_lt hj] at hnat
  omega

theorem execAll_push (sp r : R) (hr : r ≠ sp) (m : Machine R) :
    execAll (push sp r) m =
      (m.setReg sp (m.regs sp - 8#64)).setMem (m.regs sp - 8#64) (m.regs r) := by
  simp [push, Instr.exec, Machine.setReg, Machine.setMem, Function.update_of_ne hr,
    BitVec.sub_eq_add_neg]

theorem execAll_pushAll_sp (sp : R) : ∀ (rs : List R) (m : Machine R), sp ∉ rs →
    (execAll (pushAll sp rs) m).regs = Function.update m.regs sp (below (m.regs sp) rs.length)
  | [], m, _ => by simp [pushAll, below]
  | r :: rs, m, h => by
      rw [List.mem_cons, not_or] at h
      rw [pushAll, List.flatMap_cons, execAll_append, ← pushAll, execAll_push sp r (Ne.symm h.1),
        execAll_pushAll_sp sp rs _ h.2]
      simp [below_succ]

/-- A cell above the pushed ones keeps its value. -/
theorem execAll_pushAll_other (sp : R) : ∀ (rs : List R) (m : Machine R) {a : Word}, sp ∉ rs →
    (∀ i < rs.length, a ≠ below (m.regs sp) (i + 1)) →
    (execAll (pushAll sp rs) m).mem a = m.mem a
  | [], _, _, _, _ => rfl
  | r :: rs, m, a, h, ha => by
      rw [List.mem_cons, not_or] at h
      rw [pushAll, List.flatMap_cons, execAll_append, ← pushAll, execAll_push sp r (Ne.symm h.1),
        execAll_pushAll_other sp rs _ h.2]
      · rw [setMem_mem, Function.update_of_ne]
        · rfl
        · have h0 := ha 0 (by simp)
          rwa [← below_succ, below_zero] at h0
      · intro i hi
        rw [setMem_regs, setReg_regs, Function.update_self, below_succ]
        exact ha (i + 1) (by simpa using hi)

/-- The `i`-th pushed register is in the `i`-th cell below the old top. -/
theorem execAll_pushAll_mem (sp : R) : ∀ (rs : List R) (m : Machine R), sp ∉ rs →
    8 * rs.length < 2 ^ 64 → ∀ i r, rs[i]? = some r →
    (execAll (pushAll sp rs) m).mem (below (m.regs sp) (i + 1)) = m.regs r
  | [], _, _, _, _, _, hir => by simp at hir
  | q :: rs, m, h, hlen, i, r, hir => by
      rw [List.mem_cons, not_or] at h
      rw [List.length_cons] at hlen
      rw [pushAll, List.flatMap_cons, execAll_append, ← pushAll, execAll_push sp q (Ne.symm h.1)]
      cases i with
      | zero =>
          rw [List.getElem?_cons_zero, Option.some.injEq] at hir
          subst hir
          have hcell : below (m.regs sp) (0 + 1) = m.regs sp - 8#64 := by
            rw [← below_succ, below_zero]
          rw [hcell, execAll_pushAll_other sp rs _ h.2]
          · simp
          · intro i hi
            rw [setMem_regs, setReg_regs, Function.update_self]
            have hne := below_ne (a := m.regs sp - 8#64) (i := 0) (j := i + 1) (by omega)
              (by omega) (by omega)
            rwa [below_zero] at hne
      | succ i =>
          rw [List.getElem?_cons_succ] at hir
          have hrest := execAll_pushAll_mem sp rs
            ((m.setReg sp (m.regs sp - 8#64)).setMem (m.regs sp - 8#64) (m.regs q)) h.2
            (by omega) i r hir
          have hrsp : r ≠ sp := by
            rintro rfl
            exact h.2 (List.mem_of_getElem? hir)
          rw [setMem_regs, setReg_regs, Function.update_self, below_succ,
            Function.update_of_ne hrsp] at hrest
          exact hrest

theorem execAll_pop (sp r : R) (hr : r ≠ sp) (m : Machine R) :
    execAll (pop sp r) m = (m.setReg r (m.mem (m.regs sp))).setReg sp (m.regs sp + 8#64) := by
  simp [pop, Instr.exec, Machine.setReg, Function.update_of_ne (Ne.symm hr)]

/-- **Popping undoes pushing.** From a stack whose cells below `a` hold the
values `v` of the pushed registers, the pops give the registers these values
back, leave every other register and the memory alone, and end at `a`. -/
theorem execAll_popAll {sp : R} {v : R → Word} : ∀ (rs : List R) (m : Machine R) (a : Word),
    sp ∉ rs → m.regs sp = below a rs.length →
    (∀ i r, rs[i]? = some r → m.mem (below a (i + 1)) = v r) →
    (∀ r ∈ rs, (execAll (popAll sp rs) m).regs r = v r) ∧
    (∀ r, r ∉ rs → r ≠ sp → (execAll (popAll sp rs) m).regs r = m.regs r) ∧
    (execAll (popAll sp rs) m).regs sp = a ∧
    (execAll (popAll sp rs) m).mem = m.mem
  | [], m, a, _, hsp, _ => by
      refine ⟨by simp, fun r _ _ => rfl, ?_, rfl⟩
      rw [popAll, execAll_nil, hsp]
      exact below_zero a
  | q :: rs, m, a, h, hsp, hv => by
      rw [List.mem_cons, not_or] at h
      obtain ⟨hin, hout, hend, hmem⟩ := execAll_popAll (v := v) rs m (a - 8#64) h.2
        (by rw [hsp, below_succ, List.length_cons])
        (fun i r hir => by
          rw [below_succ]
          exact hv (i + 1) r (by rwa [List.getElem?_cons_succ]))
      have hcell : m.mem (a - 8#64) = v q := by
        have h0 := hv 0 q rfl
        rwa [← below_succ, below_zero] at h0
      rw [popAll, execAll_append, execAll_pop sp q (Ne.symm h.1), hend, hmem, hcell]
      refine ⟨?_, ?_, ?_, by simp [hmem]⟩
      · intro r hr
        have hrsp : r ≠ sp := by
          rintro rfl
          rcases List.mem_cons.mp hr with rfl | hr
          · exact h.1 rfl
          · exact h.2 hr
        rw [setReg_regs, Function.update_of_ne hrsp, setReg_regs]
        by_cases hq : r = q
        · subst hq
          exact Function.update_self _ _ _
        · rw [Function.update_of_ne hq]
          exact hin r ((List.mem_cons.mp hr).resolve_left hq)
      · intro r hr hrsp
        rw [List.mem_cons, not_or] at hr
        rw [setReg_regs, Function.update_of_ne hrsp, setReg_regs, Function.update_of_ne hr.1]
        exact hout r hr.2 hrsp
      · rw [setReg_regs, Function.update_self]
        simp

/-! ## Wrappers around the external function

Code that saves registers, puts the arguments in place (`setup`), calls the
external function, moves its result from `ret` to `d`, restores the registers and
jumps. What the external function may change is bounded by its calling
convention. -/

structure Abi (R : Type) : Type where
  sp : R
  ret : R
  calleeSaved : List R

/-- The external function obeys the calling convention: it returns with the stack
pointer and the callee-saved registers it was called with, and leaves the `frame`
words of the caller's frame alone. -/
structure Abi.Keeps (abi : Abi R) (frame : Nat) (callee : Machine R → Machine R) : Prop where
  sp : ∀ m, (callee m).regs abi.sp = m.regs abi.sp
  saved : ∀ m, ∀ r ∈ abi.calleeSaved, (callee m).regs r = m.regs r
  frame : ∀ m, ∀ i < frame, (callee m).mem (m.regs abi.sp + BitVec.ofNat 64 (8 * i)) =
    m.mem (m.regs abi.sp + BitVec.ofNat 64 (8 * i))

/-- Instructions that only write registers, and not the stack pointer. -/
def RegsOnly (sp : R) (is : List (Instr R)) : Prop :=
  ∀ m, (execAll is m).mem = m.mem ∧ (execAll is m).regs sp = m.regs sp

theorem regsOnly_of_dest {sp : R} {is : List (Instr R)}
    (h : ∀ i ∈ is, i.dest ≠ none ∧ i.dest ≠ some sp) : RegsOnly sp is :=
  fun m => ⟨execAll_mem_of_dest is m (fun i hi => (h i hi).1),
    execAll_regs_of_dest is m (fun i hi => (h i hi).2)⟩

/-- What a wrapper does: one call of the external function, in the machine `c`,
and a return with the saved registers `rs` and the stack pointer as they were; the
result is in `d`, and the other registers are as the function left them. -/
structure Wraps (abi : Abi R) (rs : List R) (d : R) (callee : Machine R → Machine R)
    (m c : Machine R) (e : Exit R) : Prop where
  calls : e.calls = [c]
  saved : ∀ r ∈ rs, e.machine.regs r = m.regs r
  others : ∀ r, r ∉ rs → r ≠ d → r ≠ abi.sp → e.machine.regs r = (callee c).regs r
  result : d ∉ rs → e.machine.regs d = (callee c).regs abi.ret
  sp : e.machine.regs abi.sp = m.regs abi.sp

/-- A register survives if the wrapper saves it, or if the external function does
and nothing before the call writes it. -/
theorem Wraps.kept {abi : Abi R} {rs : List R} {d r : R} {callee : Machine R → Machine R}
    {m c : Machine R} {e : Exit R} {n : Nat} (hw : Wraps abi rs d callee m c e)
    (hk : abi.Keeps n callee)
    (h : r ∈ rs ∨ (r ∈ abi.calleeSaved ∧ r ≠ d ∧ r ≠ abi.sp ∧ c.regs r = m.regs r)) :
    e.machine.regs r = m.regs r := by
  by_cases hr : r ∈ rs
  · exact hw.saved r hr
  · obtain ⟨hsaved, hd, hsp, hc⟩ := h.resolve_left hr
    rw [hw.others r hr hd hsp, hk.saved c r hsaved, hc]

def pushedCall (abi : Abi R) (rs : List R) (setup : List (Instr R)) (d : R) : Code R :=
  .line (pushAll abi.sp rs ++ setup) (.call (.line (.mov d abi.ret :: popAll abi.sp rs) (.jump d)))

def framedCall (abi : Abi R) (size : Word) (slots : List (R × Word)) (setup : List (Instr R))
    (d j : R) : Code R :=
  .line (.addi abi.sp abi.sp (-size) :: (saveAll abi.sp slots ++ setup))
    (.call (.line (.mov d abi.ret :: (restoreAll abi.sp slots ++ [.addi abi.sp abi.sp size]))
      (.jump j)))

theorem pushedCall_target (abi : Abi R) (rs : List R) (setup : List (Instr R)) (d : R)
    (callee : Machine R → Machine R) (m : Machine R) :
    ((pushedCall abi rs setup d).exec callee m).target =
      ((pushedCall abi rs setup d).exec callee m).machine.regs d := rfl

theorem framedCall_target (abi : Abi R) (size : Word) (slots : List (R × Word))
    (setup : List (Instr R)) (d j : R) (callee : Machine R → Machine R) (m : Machine R) :
    ((framedCall abi size slots setup d j).exec callee m).target =
      ((framedCall abi size slots setup d j).exec callee m).machine.regs j := rfl

theorem below_add (a : Word) {i n : Nat} (h : i ≤ n) :
    below a i = below a n + BitVec.ofNat 64 (8 * (n - i)) := by
  have hn : 8 * n = 8 * (n - i) + 8 * i := by omega
  unfold below
  rw [hn, BitVec.ofNat_add]
  bv_omega

variable {abi : Abi R} {callee : Machine R → Machine R} {d : R}

theorem pushedCall_wraps {rs : List R} {setup : List (Instr R)}
    (hk : abi.Keeps (rs.length + 1) callee) (hset : RegsOnly abi.sp setup)
    (hsp : abi.sp ∉ rs) (hd : d ≠ abi.sp) (hlen : 8 * rs.length < 2 ^ 64) (m : Machine R) :
    Wraps abi rs d callee m (execAll setup (execAll (pushAll abi.sp rs) m))
      ((pushedCall abi rs setup d).exec callee m) ∧
    ((pushedCall abi rs setup d).exec callee m).machine.mem (m.regs abi.sp) =
      m.mem (m.regs abi.sp) := by
  set p := execAll (pushAll abi.sp rs) m with hp
  set c := execAll setup p with hc
  have hpsp : p.regs abi.sp = below (m.regs abi.sp) rs.length := by
    rw [hp, execAll_pushAll_sp _ _ _ hsp, Function.update_self]
  have hcsp : c.regs abi.sp = below (m.regs abi.sp) rs.length := by rw [hc, (hset p).2, hpsp]
  -- The cells of the frame hold after the call what was pushed before it.
  have hcell : ∀ i r, rs[i]? = some r →
      ((callee c).setReg d ((callee c).regs abi.ret)).mem (below (m.regs abi.sp) (i + 1)) =
        m.regs r := by
    intro i r hir
    have hi : i < rs.length := (List.getElem?_eq_some_iff.mp hir).1
    have hframe := hk.frame c (rs.length - (i + 1)) (by omega)
    rw [hcsp, ← below_add _ (by omega)] at hframe
    rw [setReg_mem, hframe, hc, (hset p).1, hp]
    exact execAll_pushAll_mem _ _ _ hsp hlen i r hir
  have htop : (callee c).mem (m.regs abi.sp) = m.mem (m.regs abi.sp) := by
    have hframe := hk.frame c rs.length (by omega)
    have hzero := below_add (m.regs abi.sp) (Nat.zero_le rs.length)
    rw [below_zero, Nat.sub_zero] at hzero
    rw [hcsp, ← hzero, hc, (hset p).1, hp] at hframe
    rw [hc, hp, hframe]
    refine execAll_pushAll_other _ _ _ hsp (fun i hi => ?_)
    have hne := below_ne (a := m.regs abi.sp) (i := 0) (j := i + 1) (by omega) (by omega)
      (by omega)
    rwa [below_zero] at hne
  obtain ⟨hin, hout, hend, hmem⟩ := execAll_popAll rs
    ((callee c).setReg d ((callee c).regs abi.ret)) (m.regs abi.sp) hsp
    (by rw [setReg_regs, Function.update_of_ne (Ne.symm hd), hk.sp, hcsp]) hcell
  have hexec : (pushedCall abi rs setup d).exec callee m =
      ⟨(execAll (popAll abi.sp rs) ((callee c).setReg d ((callee c).regs abi.ret))).regs d,
        execAll (popAll abi.sp rs) ((callee c).setReg d ((callee c).regs abi.ret)), [c]⟩ := by
    simp only [pushedCall, Code.exec, execAll_append, execAll_cons, Instr.exec, ← hp, ← hc]
  rw [hexec]
  refine ⟨?_, ?_⟩
  · exact
      { calls := rfl
        saved := hin
        others := fun r hr hrd hrsp => by
          rw [hout r hr hrsp, setReg_regs, Function.update_of_ne hrd]
        result := fun hds => by rw [hout d hds hd, setReg_regs, Function.update_self]
        sp := hend }
  · rw [hmem, setReg_mem, htop]

theorem execAll_frame_regs (sp : R) (size : Word) (slots : List (R × Word)) (m : Machine R) {r : R}
    (hr : r ≠ sp) : (execAll (.addi sp sp (-size) :: saveAll sp slots) m).regs r = m.regs r := by
  rw [execAll_cons, execAll_saveAll_regs]
  exact Function.update_of_ne hr _ _

theorem framedCall_wraps {size : Word} {slots : List (R × Word)} {setup : List (Instr R)} {n : Nat}
    {j : R} (hk : abi.Keeps n callee) (hset : RegsOnly abi.sp setup)
    (hsp : abi.sp ∉ slots.map Prod.fst) (hd : d ≠ abi.sp) (hnd : (slots.map Prod.snd).Nodup)
    (hin : ∀ p ∈ slots, ∃ i < n, p.2 = BitVec.ofNat 64 (8 * i)) (m : Machine R) :
    Wraps abi (slots.map Prod.fst) d callee m
      (execAll setup (execAll (.addi abi.sp abi.sp (-size) :: saveAll abi.sp slots) m))
      ((framedCall abi size slots setup d j).exec callee m) := by
  set p := execAll (.addi abi.sp abi.sp (-size) :: saveAll abi.sp slots) m with hp
  set c := execAll setup p with hc
  have hpregs : p.regs = Function.update m.regs abi.sp (m.regs abi.sp + -size) := by
    rw [hp, execAll_cons, execAll_saveAll_regs]
    rfl
  have hcsp : c.regs abi.sp = m.regs abi.sp + -size := by
    rw [hc, (hset p).2, hpregs, Function.update_self]
  set q := (callee c).setReg d ((callee c).regs abi.ret) with hq
  have hqsp : q.regs abi.sp = m.regs abi.sp + -size := by
    rw [hq, setReg_regs, Function.update_of_ne (Ne.symm hd), hk.sp, hcsp]
  have hcell : ∀ s ∈ slots, q.mem (q.regs abi.sp + s.2) = m.regs s.1 := by
    intro s hs
    obtain ⟨i, hi, hoff⟩ := hin s hs
    have hne : s.1 ≠ abi.sp := by
      intro h
      exact hsp (h ▸ List.mem_map.mpr ⟨s, hs, rfl⟩)
    have hframe := hk.frame c i hi
    rw [← hoff, hcsp, hc, (hset p).1] at hframe
    have hsaved := execAll_saveAll_mem abi.sp slots (Instr.exec m (.addi abi.sp abi.sp (-size)))
      hnd s hs
    rw [hqsp, hq, setReg_mem, hc, hframe, hp, execAll_cons]
    simpa [Instr.exec, Function.update_of_ne hne] using hsaved
  have hexec : (framedCall abi size slots setup d j).exec callee m =
      let z := execAll [.addi abi.sp abi.sp size] (execAll (restoreAll abi.sp slots) q)
      ⟨z.regs j, z, [c]⟩ := by
    simp only [framedCall, Code.exec, execAll_append, execAll_cons, Instr.exec]
    rfl
  have hout : ∀ r, r ∉ slots.map Prod.fst → (execAll (restoreAll abi.sp slots) q).regs r = q.regs r :=
    fun r hr => execAll_restoreAll_other abi.sp slots q hr
  have hback : ∀ r, r ≠ abi.sp →
      (execAll [.addi abi.sp abi.sp size] (execAll (restoreAll abi.sp slots) q)).regs r =
        (execAll (restoreAll abi.sp slots) q).regs r :=
    fun r hr => Function.update_of_ne hr _ _
  rw [hexec]
  exact
    { calls := rfl
      saved := fun r hr => by
        have hne : r ≠ abi.sp := fun h => hsp (h ▸ hr)
        rw [hback r hne]
        exact execAll_restoreAll_regs slots q hsp hcell r hr
      others := fun r hr hrd hrsp => by
        rw [hback r hrsp, hout r hr, hq, setReg_regs, Function.update_of_ne hrd]
      result := fun hds => by
        rw [hback d hd, hout d hds, hq, setReg_regs, Function.update_self]
      sp := by
        show Function.update _ _ _ _ = _
        rw [Function.update_self, hout _ hsp, hqsp]
        simp }

/-! ### Memory around the call -/

omit [DecidableEq R] in
theorem popAll_dest (sp : R) : ∀ (rs : List R), ∀ i ∈ popAll sp rs, i.dest ≠ none
  | [], _, hi => absurd hi List.not_mem_nil
  | r :: rs, i, hi => by
      rcases List.mem_append.mp hi with hrest | hpop
      · exact popAll_dest sp rs i hrest
      · rcases List.mem_cons.mp hpop with rfl | hpop
        · simp [Instr.dest]
        · rw [List.mem_singleton.mp hpop]
          simp [Instr.dest]

theorem pushedCall_calls (abi : Abi R) (rs : List R) (setup : List (Instr R)) (d : R)
    (callee : Machine R → Machine R) (m : Machine R) :
    ((pushedCall abi rs setup d).exec callee m).calls =
      [execAll setup (execAll (pushAll abi.sp rs) m)] := by
  show [execAll (pushAll abi.sp rs ++ setup) m] = _
  rw [execAll_append]

/-- Nothing is stored after the call. -/
theorem pushedCall_mem (abi : Abi R) (rs : List R) (setup : List (Instr R)) (d : R)
    (callee : Machine R → Machine R) (m : Machine R) :
    ((pushedCall abi rs setup d).exec callee m).machine.mem =
      (callee (execAll setup (execAll (pushAll abi.sp rs) m))).mem := by
  show (execAll (popAll abi.sp rs) _).mem = _
  rw [execAll_mem_of_dest _ _ (popAll_dest abi.sp rs), ← execAll_append]
  rfl

theorem framedCall_calls (abi : Abi R) (size : Word) (slots : List (R × Word))
    (setup : List (Instr R)) (d j : R) (callee : Machine R → Machine R) (m : Machine R) :
    ((framedCall abi size slots setup d j).exec callee m).calls =
      [execAll setup (execAll (.addi abi.sp abi.sp (-size) :: saveAll abi.sp slots) m)] := by
  show [execAll (_ :: (saveAll abi.sp slots ++ setup)) m] = _
  rw [← List.cons_append, execAll_append]

theorem framedCall_mem (abi : Abi R) (size : Word) (slots : List (R × Word))
    (setup : List (Instr R)) (d j : R) (callee : Machine R → Machine R) (m : Machine R) :
    ((framedCall abi size slots setup d j).exec callee m).machine.mem =
      (callee (execAll setup
        (execAll (.addi abi.sp abi.sp (-size) :: saveAll abi.sp slots) m))).mem := by
  show (execAll (restoreAll abi.sp slots ++ [.addi abi.sp abi.sp size]) _).mem = _
  rw [execAll_append, ← execAll_append _ setup, List.cons_append]
  show (execAll (restoreAll abi.sp slots) _).mem = _
  rw [execAll_restoreAll_mem]
  rfl

theorem execAll_frame_sp (sp : R) {size : Word} {n : Nat} (hsize : size = BitVec.ofNat 64 (8 * n))
    (slots : List (R × Word)) (m : Machine R) :
    (execAll (.addi sp sp (-size) :: saveAll sp slots) m).regs sp = below (m.regs sp) n := by
  rw [execAll_cons, execAll_saveAll_regs, Instr.exec, setReg_regs, Function.update_self, hsize, below,
    BitVec.sub_eq_add_neg]

/-- What the frame is saved to lies below the stack pointer. -/
theorem execAll_frame_mem (sp : R) {size : Word} {slots : List (R × Word)} {n : Nat}
    (hsize : size = BitVec.ofNat 64 (8 * n))
    (hin : ∀ p ∈ slots, ∃ i < n, p.2 = BitVec.ofNat 64 (8 * i)) (m : Machine R) {a : Word}
    (ha : ∀ i < n, a ≠ below (m.regs sp) (i + 1)) :
    (execAll (.addi sp sp (-size) :: saveAll sp slots) m).mem a = m.mem a := by
  rw [execAll_cons, execAll_saveAll_mem_other]
  · rfl
  · intro p hp heq
    obtain ⟨i, hi, hoff⟩ := hin p hp
    refine ha (n - i - 1) (by omega) (heq.trans ?_)
    have hadd := below_add (m.regs sp) (i := n - i - 1 + 1) (n := n) (by omega)
    rw [hadd, show n - (n - i - 1 + 1) = i by omega, ← hoff, below, ← hsize]
    simp [Instr.exec, BitVec.sub_eq_add_neg]

end Instrew.Lib.Asm
