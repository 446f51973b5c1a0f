import Instrew.Lib.ByteMem

/-!
# Functions over a shared record

Functions in SSA form that work on values of their own, on a record in memory that they
access at constant offsets, and on a world that is arbitrary. What a function shows to
others is a trace: the blocks it goes through and the record at each call. How a call
passes the record is a parameter (`Convention`), so that one function can be run under
two conventions.

A function and a renamed one are compared by `Agree`: same values, same world, and the
same record outside a set of offsets. Instructions that do not read such an offset keep
that and show the same (`Agree.execAll`, `Agree.events`).
-/

namespace Instrew.Lib.Cfg

open Instrew.Lib.ByteMem (Mem)

/-- A constant, a constant relative to where the code is loaded, or a value. -/
inductive Operand (N : Type) : Type where
  | const (c : Nat)
  | based (c : Nat)
  | var (n : N)
  deriving DecidableEq

inductive Instr (N W : Type) : Type where
  /-- A computation, which may use and change the world. -/
  | op (dst : N) (args : List (Operand N)) (mayWrite : Bool) (f : List Nat → W → Nat × W)
  /-- A value cut to a size. -/
  | cast (dst : N) (size : Nat) (v : Operand N)
  | load (dst : N) (off size : Nat)
  | store (off size : Nat) (v : Operand N)
  /-- A call that gets the whole record. -/
  | helper (dst : N) (args : List (Operand N)) (mayWrite : Bool)
      (f : List Nat → Mem → W → Nat × Mem × W)

structure Branch (N W : Type) : Type where
  args : List (Operand N)
  succs : List Nat
  sel : List Nat → W → Nat

/-- How a block ends: `C` says what is passed to a call, `R` what is returned. -/
inductive Exit (N W C R : Type) : Type where
  | branch (br : Branch N W)
  | call (c : C) (after : List (Instr N W)) (br : Branch N W)
  | callRet (c : C) (after : List (Instr N W)) (r : R)
  | ret (r : R)
  | tail (c : C)

def Exit.isBranch {N W C R : Type} : Exit N W C R → Bool
  | .branch _ => true
  | .call .. | .callRet .. | .ret _ | .tail _ => false

structure Phi (N : Type) : Type where
  dst : N
  incoming : List (Nat × Operand N)

structure Block (N W C R : Type) : Type where
  phis : List (Phi N)
  body : List (Instr N W)
  exit : Exit N W C R

/-- A function is a list of blocks; the first is where it is entered. -/
abbrev Fn (N W C R : Type) : Type := List (Block N W C R)

structure State (N W : Type) : Type where
  env : N → Nat
  mem : Mem
  world : W
  /-- The number of calls that have returned. -/
  calls : Nat

inductive Event : Type where
  | block (b : Nat)
  | helper (args : List Nat) (file : Mem)
  | call (file : Mem)
  | tail (file : Mem)
  | ret (file : Mem)

/-- Where the code is loaded, and what a call does. -/
structure Machine (W : Type) : Type where
  base : Nat
  callee : Mem → W → Mem × W

/-- How the record is passed: to a call, back from a call of a block, and to the caller. -/
structure Convention (N W C R : Type) : Type where
  file : C → State N W → Mem
  back : Nat → Mem → State N W → State N W
  retFile : R → State N W → Mem

/-! ## What an instruction writes -/

section Writes

variable {N W : Type}

def Instr.dst : Instr N W → Option N
  | .op dst .. | .cast dst .. | .load dst .. | .helper dst .. => some dst
  | .store .. => none

def Instr.mayWriteToMemory : Instr N W → Bool
  | .op _ _ mayWrite _ | .helper _ _ mayWrite _ => mayWrite
  | .cast .. | .load .. => false
  | .store .. => true

/-- The instruction does not write the record at `o`. -/
def Instr.Keeps (o : Nat) : Instr N W → Prop
  | .op .. | .cast .. | .load .. => True
  | .store off size _ => ¬ (off ≤ o ∧ o < off + size)
  | .helper _ _ mayWrite _ => mayWrite = false

theorem Instr.keeps_of_not_mayWrite {i : Instr N W} (h : i.mayWriteToMemory = false) (o : Nat) :
    i.Keeps o := by
  cases i with
  | op | cast | load => trivial
  | store => cases h
  | helper => exact h

end Writes

/-! ## Execution -/

section Exec

variable {N W C R : Type} [DecidableEq N]

def Operand.eval (base : Nat) (env : N → Nat) : Operand N → Nat
  | .const c => c
  | .based c => base + c
  | .var n => env n

def State.set (s : State N W) (n : N) (v : Nat) : State N W :=
  { s with env := Function.update s.env n v }

def Instr.next (base : Nat) (s : State N W) : Instr N W → State N W
  | .op dst args _ f =>
      let r := f (args.map (Operand.eval base s.env)) s.world
      { s.set dst r.1 with world := r.2 }
  | .cast dst size v => s.set dst (v.eval base s.env % 256 ^ size)
  | .load dst off size => s.set dst (ByteMem.load s.mem off size)
  | .store off size v => { s with mem := ByteMem.store s.mem off size (v.eval base s.env) }
  | .helper dst args mayWrite f =>
      let r := f (args.map (Operand.eval base s.env)) s.mem s.world
      { s.set dst r.1 with mem := if mayWrite then r.2.1 else s.mem, world := r.2.2 }

def Instr.event (base : Nat) (s : State N W) : Instr N W → List Event
  | .helper _ args _ _ => [.helper (args.map (Operand.eval base s.env)) s.mem]
  | .op .. | .cast .. | .load .. | .store .. => []

def execAll (base : Nat) : List (Instr N W) → State N W → State N W
  | [], s => s
  | i :: l, s => execAll base l (i.next base s)

def events (base : Nat) : List (Instr N W) → State N W → List Event
  | [], _ => []
  | i :: l, s => i.event base s ++ events base l (i.next base s)

/-- The values of the phis, all read before any is written. -/
def enter (base : Nat) (phis : List (Phi N)) (pred : Nat) (s : State N W) : State N W :=
  { s with
    env := fun n =>
      match phis.find? (fun φ => φ.dst = n) with
      | some φ => ((φ.incoming.lookup pred).map (Operand.eval base s.env)).getD 0
      | none => s.env n }

def Branch.target (base : Nat) (s : State N W) (br : Branch N W) : Option Nat :=
  br.succs[br.sel (br.args.map (Operand.eval base s.env)) s.world]?

/-- The trace of a function from block `b` on, which was reached from `pred`, for as many
blocks as there is fuel. -/
def run (M : Machine W) (K : Convention N W C R) (f : Fn N W C R) :
    Nat → Nat → Nat → State N W → List Event
  | 0, _, _, _ => []
  | n + 1, pred, b, s =>
      match f[b]? with
      | none => []
      | some blk =>
          let s := enter M.base blk.phis pred s
          let t := execAll M.base blk.body s
          let goto (br : Branch N W) (t : State N W) : List Event :=
            match br.target M.base t with
            | none => []
            | some b' => run M K f n b b' t
          .block b :: events M.base blk.body s ++
            match blk.exit with
            | .branch br => goto br t
            | .call c after br =>
                let file := K.file c t
                let r := M.callee file t.world
                let t := K.back b r.1 { t with world := r.2, calls := t.calls + 1 }
                .call file :: events M.base after t ++ goto br (execAll M.base after t)
            | .callRet c after r =>
                let file := K.file c t
                let x := M.callee file t.world
                let t := K.back b x.1 { t with world := x.2, calls := t.calls + 1 }
                .call file :: events M.base after t ++ [.ret (K.retFile r (execAll M.base after t))]
            | .ret r => [.ret (K.retFile r t)]
            | .tail c => [.tail (K.file c t)]

theorem execAll_append (base : Nat) : ∀ (l l' : List (Instr N W)) (s : State N W),
    execAll base (l ++ l') s = execAll base l' (execAll base l s)
  | [], _, _ => rfl
  | i :: l, l', s => execAll_append base l l' (i.next base s)

theorem events_append (base : Nat) : ∀ (l l' : List (Instr N W)) (s : State N W),
    events base (l ++ l') s = events base l s ++ events base l' (execAll base l s)
  | [], _, _ => rfl
  | i :: l, l', s => by
      rw [List.cons_append, events, events, events_append base l l', List.append_assoc]
      rfl

theorem enter_env {base : Nat} {phis : List (Phi N)} {m : N} (h : ∀ φ ∈ phis, φ.dst ≠ m)
    (pred : Nat) (s : State N W) : (enter base phis pred s).env m = s.env m := by
  have hnone : phis.find? (fun φ => φ.dst = m) = none :=
    List.find?_eq_none.mpr (fun φ hφ => by simpa using h φ hφ)
  simp only [enter, hnone]

theorem Instr.next_env {base : Nat} {i : Instr N W} {n : N} (h : i.dst ≠ some n) (s : State N W) :
    (i.next base s).env n = s.env n := by
  cases i with
  | store => rfl
  | op dst | cast dst | load dst | helper dst =>
      exact Function.update_of_ne (fun hn => h (by rw [hn]; rfl)) _ _

theorem Instr.next_mem {base : Nat} {i : Instr N W} {o : Nat} (h : i.Keeps o) (s : State N W) :
    (i.next base s).mem o = s.mem o := by
  cases i with
  | op | cast | load => rfl
  | store => exact ByteMem.store_of_not_mem h
  | helper dst args mayWrite f =>
      obtain rfl : mayWrite = false := h
      rfl

theorem execAll_env {base : Nat} {n : N} : ∀ {l : List (Instr N W)} (s : State N W),
    (∀ i ∈ l, i.dst ≠ some n) → (execAll base l s).env n = s.env n
  | [], _, _ => rfl
  | i :: l, s, h => by
      rw [execAll, execAll_env _ (fun j hj => h j (List.mem_cons_of_mem i hj)),
        Instr.next_env (h i List.mem_cons_self)]

theorem execAll_mem {base : Nat} {o : Nat} : ∀ {l : List (Instr N W)} (s : State N W),
    (∀ i ∈ l, i.Keeps o) → (execAll base l s).mem o = s.mem o
  | [], _, _ => rfl
  | i :: l, s, h => by
      rw [execAll, execAll_mem _ (fun j hj => h j (List.mem_cons_of_mem i hj)),
        Instr.next_mem (h i List.mem_cons_self)]

end Exec

/-! ## Renaming -/

section Rename

variable {N N' W C R : Type} {rename : N → N'}

def Operand.map (rename : N → N') : Operand N → Operand N'
  | .const c => .const c
  | .based c => .based c
  | .var n => .var (rename n)

def Instr.map (rename : N → N') : Instr N W → Instr N' W
  | .op dst args mayWrite f => .op (rename dst) (args.map (.map rename)) mayWrite f
  | .cast dst size v => .cast (rename dst) size (v.map rename)
  | .load dst off size => .load (rename dst) off size
  | .store off size v => .store off size (v.map rename)
  | .helper dst args mayWrite f => .helper (rename dst) (args.map (.map rename)) mayWrite f

def Branch.map (rename : N → N') (br : Branch N W) : Branch N' W :=
  ⟨br.args.map (.map rename), br.succs, br.sel⟩

def Phi.map (rename : N → N') (φ : Phi N) : Phi N' :=
  ⟨rename φ.dst, φ.incoming.map (fun x => (x.1, x.2.map rename))⟩

/-- Same values, same world, same record outside `D`. -/
structure Agree (rename : N → N') (D : Nat → Prop) (s : State N W) (t : State N' W) : Prop where
  env : ∀ n, t.env (rename n) = s.env n
  mem : ∀ o, ¬ D o → t.mem o = s.mem o
  world : t.world = s.world
  calls : t.calls = s.calls

/-- The instruction does not read the record at an offset of `D`. -/
def Instr.Avoids (D : Nat → Prop) : Instr N W → Prop
  | .op .. | .cast .. | .store .. => True
  | .load _ off size => ∀ o, off ≤ o → o < off + size → ¬ D o
  | .helper .. => ∀ o, ¬ D o

theorem Instr.avoids_map (D : Nat → Prop) (i : Instr N W) :
    (i.map rename).Avoids D ↔ i.Avoids D := by
  cases i <;> exact Iff.rfl

theorem Instr.avoids_false (i : Instr N W) : i.Avoids (fun _ => False) := by
  cases i with
  | op | cast | store => trivial
  | load => exact fun _ _ _ h => h
  | helper => exact fun _ h => h

theorem Instr.mayWriteToMemory_map (i : Instr N W) :
    (i.map rename).mayWriteToMemory = i.mayWriteToMemory := by
  cases i <;> rfl

theorem Instr.dst_map (i : Instr N W) : (i.map rename).dst = i.dst.map rename := by
  cases i <;> rfl

theorem Instr.map_id (i : Instr N W) : i.map id = i := by
  have hoperand : (Operand.map id : Operand N → Operand N) = id := by
    funext v
    cases v <;> rfl
  cases i <;> simp [Instr.map, hoperand]

variable {D : Nat → Prop} {s : State N W} {t : State N' W} {base : Nat}

theorem Agree.refl (s : State N W) : Agree id D s s :=
  ⟨fun _ => rfl, fun _ _ => rfl, rfl, rfl⟩

theorem Agree.mono {D' : Nat → Prop} (h : Agree rename D s t) (hD : ∀ o, D o → D' o) :
    Agree rename D' s t :=
  ⟨h.env, fun o ho => h.mem o (fun hd => ho (hD o hd)), h.world, h.calls⟩

theorem Agree.eval (h : Agree rename D s t) (v : Operand N) :
    (v.map rename).eval base t.env = v.eval base s.env := by
  cases v with
  | const | based => rfl
  | var n => exact h.env n

theorem Agree.evalAll (h : Agree rename D s t) (args : List (Operand N)) :
    (args.map (Operand.map rename)).map (Operand.eval base t.env) =
      args.map (Operand.eval base s.env) := by
  rw [List.map_map]
  exact List.map_congr_left (fun v _ => h.eval v)

theorem Agree.mem_eq (h : Agree rename D s t) (hD : ∀ o, ¬ D o) : t.mem = s.mem :=
  funext (fun o => h.mem o (hD o))

theorem Agree.event (h : Agree rename D s t) {i : Instr N W} (hi : i.Avoids D) :
    (i.map rename).event base t = i.event base s := by
  cases i with
  | op | cast | load | store => rfl
  | helper dst args mayWrite f => simp only [Instr.map, Instr.event, h.evalAll, h.mem_eq hi]

theorem Agree.target (h : Agree rename D s t) (br : Branch N W) :
    (br.map rename).target base t = br.target base s := by
  rw [Branch.target, Branch.target, Branch.map, h.evalAll, h.world]

variable [DecidableEq N] [DecidableEq N']

theorem Agree.update (hinj : Function.Injective rename) (h : Agree rename D s t) (n : N) (v : Nat) :
    ∀ m, Function.update t.env (rename n) v (rename m) = Function.update s.env n v m := by
  intro m
  by_cases hm : m = n
  · subst hm
    rw [Function.update_self, Function.update_self]
  · rw [Function.update_of_ne hm, Function.update_of_ne (fun h => hm (hinj h)), h.env]

theorem Agree.next (hinj : Function.Injective rename) (h : Agree rename D s t) {i : Instr N W}
    (hi : i.Avoids D) : Agree rename D (i.next base s) ((i.map rename).next base t) := by
  cases i with
  | op dst args mayWrite f =>
      simp only [Instr.map, Instr.next, h.evalAll, h.world]
      exact ⟨h.update hinj dst _, h.mem, rfl, h.calls⟩
  | cast dst size v =>
      simp only [Instr.map, Instr.next, h.eval]
      exact ⟨h.update hinj dst _, h.mem, h.world, h.calls⟩
  | load dst off size =>
      have hload : ByteMem.load t.mem off size = ByteMem.load s.mem off size :=
        ByteMem.load_congr (fun o ho ho' => h.mem o (hi o ho ho'))
      simp only [Instr.map, Instr.next, hload]
      exact ⟨h.update hinj dst _, h.mem, h.world, h.calls⟩
  | store off size v =>
      simp only [Instr.map, Instr.next, h.eval]
      refine ⟨h.env, fun o ho => ?_, h.world, h.calls⟩
      dsimp only [ByteMem.store]
      rw [h.mem o ho]
  | helper dst args mayWrite f =>
      simp only [Instr.map, Instr.next, h.evalAll, h.world, h.mem_eq hi]
      exact ⟨h.update hinj dst _, fun _ _ => rfl, rfl, h.calls⟩

theorem Agree.execAll (hinj : Function.Injective rename) : ∀ {l : List (Instr N W)}
    {s : State N W} {t : State N' W}, Agree rename D s t → (∀ i ∈ l, i.Avoids D) →
    Agree rename D (Cfg.execAll base l s) (Cfg.execAll base (l.map (Instr.map rename)) t)
  | [], _, _, h, _ => h
  | i :: l, s, t, h, hl => by
      have hi : Agree rename D (i.next base s) ((i.map rename).next base t) :=
        h.next hinj (hl i List.mem_cons_self)
      exact Agree.execAll (l := l) hinj hi (fun j hj => hl j (List.mem_cons_of_mem i hj))

theorem Agree.events (hinj : Function.Injective rename) : ∀ {l : List (Instr N W)}
    {s : State N W} {t : State N' W}, Agree rename D s t → (∀ i ∈ l, i.Avoids D) →
    Cfg.events base (l.map (Instr.map rename)) t = Cfg.events base l s
  | [], _, _, _, _ => rfl
  | i :: l, s, t, h, hl => by
      rw [List.map_cons, Cfg.events, Cfg.events, h.event (hl i List.mem_cons_self),
        Agree.events hinj (h.next hinj (hl i List.mem_cons_self))
          (fun j hj => hl j (List.mem_cons_of_mem i hj))]

theorem lookup_map {β γ : Type} (g : β → γ) (p : Nat) : ∀ l : List (Nat × β),
    (l.map (fun x => (x.1, g x.2))).lookup p = (l.lookup p).map g
  | [] => rfl
  | (q, v) :: l => by
      rw [List.map_cons, List.lookup_cons, List.lookup_cons, lookup_map g p l]
      cases p == q <;> rfl

/-- Phis of other names may be added. -/
theorem Agree.enter (hinj : Function.Injective rename) (h : Agree rename D s t)
    (phis : List (Phi N)) {extra : List (Phi N')} (hextra : ∀ φ ∈ extra, ∀ n, φ.dst ≠ rename n)
    (pred : Nat) :
    Agree rename D (Cfg.enter base phis pred s)
      (Cfg.enter base (extra ++ phis.map (Phi.map rename)) pred t) := by
  refine ⟨fun n => ?_, h.mem, h.world, h.calls⟩
  have hnone : extra.find? (fun φ => φ.dst = rename n) = none :=
    List.find?_eq_none.mpr (fun φ hφ => by simpa using hextra φ hφ n)
  have hsome : (phis.map (Phi.map rename)).find? (fun φ => φ.dst = rename n) =
      (phis.find? (fun φ => φ.dst = n)).map (Phi.map rename) := by
    rw [List.find?_map]
    congr 2
    funext φ
    simp [Phi.map, hinj.eq_iff]
  simp only [Cfg.enter, List.find?_append, hnone, hsome, Option.none_or]
  cases phis.find? (fun φ => φ.dst = n) with
  | none => exact h.env n
  | some φ =>
      simp only [Option.map_some, Phi.map, lookup_map]
      cases φ.incoming.lookup pred with
      | none => rfl
      | some v => exact h.eval v

end Rename

/-! ## Simulation -/

section Simulation

variable {N N' W C C' R R' : Type} [DecidableEq N] [DecidableEq N']
variable (M : Machine W) (K : Convention N W C R) (K' : Convention N' W C' R')
variable (f : Fn N W C R) (g : Fn N' W C' R')
variable (Rel : Nat → Nat → State N W → State N' W → Prop)

/-- Both branches go the same way, to related states. -/
def BranchSim (b : Nat) (br : Branch N W) (br' : Branch N' W) (s : State N W) (t : State N' W) :
    Prop :=
  br'.target M.base t = br.target M.base s ∧
    ∀ b', br.target M.base s = some b' → Rel b b' s t

/-- Both blocks end in the same way, with the same record. -/
def ExitSim (b : Nat) (s : State N W) (t : State N' W) : Exit N W C R → Exit N' W C' R' → Prop
  | .branch br, .branch br' => BranchSim M Rel b br br' s t
  | .call c after br, .call c' after' br' =>
      K'.file c' t = K.file c s ∧ t.world = s.world ∧
        ∀ r, M.callee (K.file c s) s.world = r →
          let s := K.back b r.1 { s with world := r.2, calls := s.calls + 1 }
          let t := K'.back b r.1 { t with world := r.2, calls := t.calls + 1 }
          events M.base after' t = events M.base after s ∧
            BranchSim M Rel b br br' (execAll M.base after s) (execAll M.base after' t)
  | .callRet c after r, .callRet c' after' r' =>
      K'.file c' t = K.file c s ∧ t.world = s.world ∧
        ∀ x, M.callee (K.file c s) s.world = x →
          let s := K.back b x.1 { s with world := x.2, calls := s.calls + 1 }
          let t := K'.back b x.1 { t with world := x.2, calls := t.calls + 1 }
          events M.base after' t = events M.base after s ∧
            K'.retFile r' (execAll M.base after' t) = K.retFile r (execAll M.base after s)
  | .ret r, .ret r' => K'.retFile r' t = K.retFile r s
  | .tail c, .tail c' => K'.file c' t = K.file c s
  | _, _ => False

/-- From related states, the blocks do the same up to related states. -/
structure Simulates : Prop where
  missing : ∀ b : Nat, f[b]? = none → g[b]? = none
  block : ∀ (pred b : Nat) s t blk, Rel pred b s t → f[b]? = some blk → ∃ blk', g[b]? = some blk' ∧
    events M.base blk'.body (enter M.base blk'.phis pred t) =
        events M.base blk.body (enter M.base blk.phis pred s) ∧
      ExitSim M K K' Rel b (execAll M.base blk.body (enter M.base blk.phis pred s))
        (execAll M.base blk'.body (enter M.base blk'.phis pred t)) blk.exit blk'.exit

variable {M K K' f g Rel}

/-- **Blocks that simulate each other have the same traces.** -/
theorem Simulates.run_eq (h : Simulates M K K' f g Rel) :
    ∀ (n pred b : Nat) (s : State N W) (t : State N' W), Rel pred b s t →
      run M K' g n pred b t = run M K f n pred b s
  | 0, _, _, _, _, _ => rfl
  | n + 1, pred, b, s, t, hrel => by
      rw [run, run]
      cases hb : f[b]? with
      | none => rw [h.missing b hb]
      | some blk =>
          obtain ⟨blk', hb', hevents, hexit⟩ := h.block pred b s t blk hrel hb
          rw [hb']
          have hgoto : ∀ br br' s t, BranchSim M Rel b br br' s t →
              (match br'.target M.base t with
                | none => []
                | some b' => run M K' g n b b' t) =
              (match br.target M.base s with
                | none => []
                | some b' => run M K f n b b' s) := by
            intro br br' s t hbr
            rw [hbr.1]
            cases ht : br.target M.base s with
            | none => rfl
            | some b' => exact h.run_eq n b b' s t (hbr.2 b' ht)
          dsimp only
          rw [hevents]
          congr 1
          revert hexit
          generalize execAll M.base blk.body _ = s1, execAll M.base blk'.body _ = t1
          cases blk.exit with
          | branch br =>
              cases blk'.exit with
              | branch br' => exact fun hbr => hgoto br br' s1 t1 hbr
              | _ => exact False.elim
          | call c after br =>
              cases blk'.exit with
              | call c' after' br' =>
                  rintro ⟨hfile, hworld, hafter⟩
                  obtain ⟨hev, hbr⟩ := hafter _ rfl
                  dsimp only
                  rw [hfile, hworld, hev, hgoto _ _ _ _ hbr]
              | _ => exact False.elim
          | callRet c after r =>
              cases blk'.exit with
              | callRet c' after' r' =>
                  rintro ⟨hfile, hworld, hafter⟩
                  obtain ⟨hev, hret⟩ := hafter _ rfl
                  dsimp only
                  rw [hfile, hworld, hev, hret]
              | _ => exact False.elim
          | ret r =>
              cases blk'.exit with
              | ret r' => exact fun hret => congrArg (fun file => [Event.ret file]) hret
              | _ => exact False.elim
          | tail c =>
              cases blk'.exit with
              | tail c' => exact fun htail => congrArg (fun file => [Event.tail file]) htail
              | _ => exact False.elim

end Simulation

end Instrew.Lib.Cfg
