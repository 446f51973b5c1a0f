import Instrew.Lib.Cfg
import Instrew.Lib.Worklist
import Instrew.Server.CallConv

/-!
# Changing the calling convention

`ChangeCallConv` of `callconv.cc` as a function on functions. A lifted function keeps
the guest registers in the CPU struct behind `sptr`. The pass makes a function that
gets some of them, the fields of the convention, as arguments and returns them in a
struct: loads at the beginning of the function and after a call are replaced by the
value that was passed (`foldLoads`), stores before a call or a return are passed on
(`foldStores`). If nothing else accesses a field, the values that are still missing are
found by phi nodes (`wire`); otherwise all fields are stored to memory where they come in
and loaded where they go out (`spill`). Where an assertion fails there is no new function.
-/

namespace Instrew.Server

open Instrew.Lib
open Instrew.Lib.Cfg
open Instrew.Lib.ByteMem (Mem)

/-- The fields of a convention: they are not empty and do not overlap. -/
structure Fields (n : Nat) : Type where
  field : Fin n → SptrField
  pos : ∀ i, 0 < (field i).size
  disjoint : ∀ i j, i ≠ j →
    (field i).offset + (field i).size ≤ (field j).offset ∨
      (field j).offset + (field j).size ≤ (field i).offset

namespace Fields

variable {n : Nat} (F : Fields n)

def off (i : Fin n) : Nat := (F.field i).offset
def size (i : Fin n) : Nat := (F.field i).size

/-- The field at an offset: where the map of `CreateSptrMap` is positive. -/
def fieldIdx (off : Nat) : Option (Fin n) := (List.finRange n).find? (fun i => F.off i = off)

/-- The field that a byte is part of: where the map of `CreateSptrMap` is not zero. -/
def fieldAt (o : Nat) : Option (Fin n) :=
  (List.finRange n).find? (fun i => F.off i ≤ o ∧ o < F.off i + F.size i)

/-- An access to a byte of a field. -/
def touches (off size : Nat) : Bool := (List.range size).any (fun j => (F.fieldAt (off + j)).isSome)

end Fields

/-- The fields of each convention. -/
def CallConv.sptrFields (cc : CallConv) : Fields (fields cc).length where
  field i := (fields cc).get i
  pos := by cases cc <;> decide
  disjoint := by cases cc <;> decide

/-- The values of the new function: those of the old one, the arguments, the fields of
what the call in a block returns, and the phis and loads that the pass adds to a block. -/
inductive Name (n : Nat) : Type where
  | orig (v : Nat)
  | arg (i : Fin n)
  | res (b : Nat) (i : Fin n)
  | phi (b : Nat) (i : Fin n)
  | reload (b : Nat) (i : Fin n)
  deriving DecidableEq

/-- A function as the lifter makes it. A block has at most one call or tail call. -/
abbrev LiftedFn (W : Type) : Type := Fn Nat W Unit Unit

/-- `FoldedStores`. -/
abbrev Vals (n : Nat) : Type := Fin n → Option (Operand (Name n))

/-- What is called: the dispatcher, or a function that `FuncConstName` names by its
address, absolute or relative to `instrew_baseaddr`. -/
inductive Callee : Type where
  | dispatch
  | abs (c : Nat)
  | rel (c : Nat)

/-- A call of the new convention; a parameter that is `none` is undefined. -/
structure CallArgs (n : Nat) : Type where
  callee : Callee
  params : Fin n → Option (Operand (Name n))

/-- A function with the stores before its calls and returns folded. -/
abbrev FoldedFn (n : Nat) (W : Type) : Type := Fn (Name n) W (Vals n) (Vals n)

abbrev NewFn (n : Nat) (W : Type) : Type :=
  Fn (Name n) W (CallArgs n) (Fin n → Operand (Name n))

section Pass

variable {n : Nat} {W : Type} (F : Fields n)

/-! ## Loads -/

/-- A load of a field is replaced by its value. All uses of the load are; here the value
gets the load's name. -/
def foldLoad (get : Fin n → Name n) : Instr (Name n) W → Instr (Name n) W
  | .load dst off size =>
      match F.fieldIdx off with
      | some i => .cast dst size (.var (get i))
      | none => .load dst off size
  | i => i

def foldLoads (get : Fin n → Name n) : List (Instr (Name n) W) → List (Instr (Name n) W)
  | [] => []
  | i :: l => if i.mayWriteToMemory then i :: l else foldLoad F get i :: foldLoads get l

/-- The block in the new function, with the loads at the beginning of the function and
after a call folded. -/
def foldBlockLoads (b : Nat) (blk : Block Nat W Unit Unit) : Block (Name n) W Unit Unit where
  phis := blk.phis.map (Phi.map .orig)
  body :=
    let body := blk.body.map (Instr.map .orig)
    if b = 0 then foldLoads F .arg body else body
  exit :=
    match blk.exit with
    | .branch br => .branch (br.map .orig)
    | .call c after br =>
        .call c (foldLoads F (.res b) (after.map (Instr.map .orig))) (br.map .orig)
    | .callRet c after r => .callRet c (foldLoads F (.res b) (after.map (Instr.map .orig))) r
    | .ret r => .ret r
    | .tail c => .tail c

/-! ## Stores -/

/-- The loop of `FoldStores`, backwards from a call or return to the last read of the CPU
struct; a store to a field that already has a value fails an assertion. -/
def foldStoresFrom : List (Instr (Name n) W) → Vals n → Option (List (Instr (Name n) W) × Vals n)
  | [], vals => some ([], vals)
  | i :: l, vals =>
      match i with
      | .helper .. | .load .. => some (i :: l, vals)
      | .store off _ v =>
          match F.fieldIdx off with
          | some f =>
              if (vals f).isSome then none
              else foldStoresFrom l (Function.update vals f (some v))
          | none => (foldStoresFrom l vals).map (fun r => (i :: r.1, r.2))
      | .op .. | .cast .. => (foldStoresFrom l vals).map (fun r => (i :: r.1, r.2))

def foldStores (body : List (Instr (Name n) W)) : Option (List (Instr (Name n) W) × Vals n) :=
  (foldStoresFrom F body.reverse (fun _ => none)).map (fun r => (r.1.reverse, r.2))

/-- The instruction reads the CPU struct, or may. -/
def readsStruct {N : Type} : Instr N W → Bool
  | .load .. | .helper .. => true
  | .op .. | .cast .. | .store .. => false

/-- The stores of a block. For a return after a call the loop ends at the call at the latest,
whose arguments are still undefined but one of which has the type of `sptr`. -/
def foldBlockStores (blk : Block (Name n) W Unit Unit) :
    Option (Block (Name n) W (Vals n) (Vals n)) :=
  match blk.exit with
  | .branch br => some ⟨blk.phis, blk.body, .branch br⟩
  | .call _ after br =>
      (foldStores F blk.body).map (fun r => ⟨blk.phis, r.1, .call r.2 after br⟩)
  | .callRet _ after _ =>
      (foldStores F after).bind (fun r' =>
        (foldStores F blk.body).map (fun r => ⟨blk.phis, r.1, .callRet r.2 r'.1 r'.2⟩))
  | .ret _ => (foldStores F blk.body).map (fun r => ⟨blk.phis, r.1, .ret r.2⟩)
  | .tail _ => (foldStores F blk.body).map (fun r => ⟨blk.phis, r.1, .tail r.2⟩)

/-! ## Whether `sptr` escapes -/

/-- The uses of `sptr` that make it escape: it is passed to a call, a byte of a field is
still loaded, or a store writes a part of a field. -/
def escapes : Instr (Name n) W → Bool
  | .helper .. => true
  | .load _ off size => F.touches off size
  | .store off size _ =>
      match F.fieldIdx off with
      | some i => size ≠ F.size i
      | none => F.touches off size
  | .op .. | .cast .. => false

/-- A store that should have been folded. -/
def storesField : Instr (Name n) W → Bool
  | .store off _ _ => (F.fieldIdx off).isSome
  | .helper .. | .load .. | .op .. | .cast .. => false

/-- The instructions of a block. -/
def instrs {N C R : Type} (blk : Block N W C R) : List (Instr N W) :=
  match blk.exit with
  | .call _ after _ | .callRet _ after _ => blk.body ++ after
  | .branch _ | .ret _ | .tail _ => blk.body

/-! ## Calls and returns -/

/-- The end of `UpdateCallRet` for a call. If the PC is constant, the call goes to the
function of that name and does not pass it. -/
def callArgs (vals : Fin n → Operand (Name n)) : CallArgs n :=
  match F.fieldIdx 0 with
  | none => ⟨.dispatch, fun i => some (vals i)⟩
  | some pc =>
      match vals pc with
      | .const c => ⟨.abs c, Function.update (fun i => some (vals i)) pc none⟩
      | .based c => ⟨.rel c, Function.update (fun i => some (vals i)) pc none⟩
      | .var _ => ⟨.dispatch, fun i => some (vals i)⟩

/-- `UpdateCallRet`, where `missing` are the values that have not been folded. -/
def updateCallRet (missing : Fin n → Name n) :
    Exit (Name n) W (Vals n) (Vals n) → Exit (Name n) W (CallArgs n) (Fin n → Operand (Name n))
  | .branch br => .branch br
  | .call vals after br => .call (callArgs F (fun i => (vals i).getD (.var (missing i)))) after br
  | .callRet vals after vals' =>
      .callRet (callArgs F (fun i => (vals i).getD (.var (missing i)))) after
        (fun i => (vals' i).getD (.var (missing i)))
  | .ret vals => .ret (fun i => (vals i).getD (.var (missing i)))
  | .tail vals => .tail (callArgs F (fun i => (vals i).getD (.var (missing i))))

/-! ## If `sptr` escapes -/

def createStores (get : Fin n → Name n) : List (Instr (Name n) W) :=
  (List.finRange n).map (fun i => .store (F.off i) (F.size i) (.var (get i)))

/-- The loads of `UpdateCallRet`. -/
def reloads (b : Nat) (vals : Vals n) : List (Instr (Name n) W) :=
  ((List.finRange n).filter (fun i => (vals i).isNone)).map
    (fun i => .load (.reload b i) (F.off i) (F.size i))

/-- The stores where a call comes back. -/
def storeBack (b : Nat) :
    Exit (Name n) W (Vals n) (Vals n) → Exit (Name n) W (Vals n) (Vals n)
  | .call vals after br => .call vals (createStores F (.res b) ++ after) br
  | .callRet vals after vals' => .callRet vals (createStores F (.res b) ++ after) vals'
  | .branch br => .branch br
  | .ret vals => .ret vals
  | .tail vals => .tail vals

/-- The loads before a return that follows a call. -/
def reloadAfter (b : Nat) :
    Exit (Name n) W (Vals n) (Vals n) → Exit (Name n) W (Vals n) (Vals n)
  | .callRet vals after vals' => .callRet vals (after ++ reloads F b vals') vals'
  | .call vals after br => .call vals after br
  | .branch br => .branch br
  | .ret vals => .ret vals
  | .tail vals => .tail vals

/-- What is folded before the first call or return of a block. -/
def exitVals : Exit (Name n) W (Vals n) (Vals n) → Option (Vals n)
  | .branch _ => none
  | .call vals _ _ | .callRet vals _ _ | .ret vals | .tail vals => some vals

def spill (b : Nat) (blk : Block (Name n) W (Vals n) (Vals n)) :
    Block (Name n) W (CallArgs n) (Fin n → Operand (Name n)) where
  phis := blk.phis
  body :=
    (if b = 0 then createStores F .arg else []) ++ blk.body ++
      (match exitVals blk.exit with
        | none => []
        | some vals => reloads F b vals)
  exit := updateCallRet F (.reload b) (reloadAfter F b (storeBack F b blk.exit))

/-! ## If it does not -/

section Wire

variable (f : FoldedFn n W)

def successors {N C R : Type} (blk : Block N W C R) : List Nat :=
  match blk.exit with
  | .branch br | .call _ _ br => br.succs
  | .callRet .. | .ret _ | .tail _ => []

def preds (b : Nat) : List Nat :=
  (List.range f.length).filter (fun p => (f[p]?.map successors).any (fun l => b ∈ l))

/-- There is a call or a tail call. -/
def hasCalls : Bool :=
  f.any (fun blk => match blk.exit with
    | .call .. | .callRet .. | .tail _ => true
    | .branch _ | .ret _ => false)

/-- There is a block with both a call and a return. -/
def hasCallRet {N C R : Type} (f : Fn N W C R) : Bool :=
  f.any (fun blk => match blk.exit with
    | .callRet .. => true
    | .branch _ | .call .. | .ret _ | .tail _ => false)

/-- The value of a field at the end of a block that is a producer: the entry block, where
it is the argument, or a block with a call. -/
def produced (p : Nat) (i : Fin n) : Option (Name n) :=
  if p = 0 then some (.arg i)
  else
    match f[p]?.map Block.exit with
    | some (.call ..) => some (.res p i)
    | _ => none

/-- The phis that calls and returns need themselves. -/
def phiSeeds : List (Nat × Fin n) :=
  (List.range f.length).flatMap (fun b =>
    ((List.finRange n).filter (fun i =>
      ((f[b]?.bind (fun blk => exitVals blk.exit)).map (fun vals => (vals i).isNone)).getD
        false)).map (fun i => (b, i)))

/-- The phis that the incoming values of a phi need. -/
def phiNeeds (x : Nat × Fin n) : List (Nat × Fin n) :=
  ((preds f x.1).filter (fun p => (produced f p x.2).isNone)).map (fun p => (p, x.2))

/-- The keys of `phimap` when the queue is empty. -/
def phimap : List (Nat × Fin n) :=
  if hasCalls f then Worklist.close (phiNeeds f) (f.length * n) (phiSeeds f) (phiSeeds f) else []

def newPhis (b : Nat) : List (Phi (Name n)) :=
  ((List.finRange n).filter (fun i => (b, i) ∈ phimap f)).map (fun i =>
    ⟨.phi b i, (preds f b).map (fun p => (p, .var ((produced f p i).getD (.phi p i))))⟩)

def wire (b : Nat) (blk : Block (Name n) W (Vals n) (Vals n)) :
    Block (Name n) W (CallArgs n) (Fin n → Operand (Name n)) where
  phis := newPhis f b ++ blk.phis
  body := blk.body
  exit := updateCallRet F (if hasCalls f then .phi b else .arg) blk.exit

end Wire

/-- `ChangeCallConv`; none if an assertion fails. -/
def changeCallConv (f : LiftedFn W) : Option (NewFn n W) := do
  let loaded := f.mapIdx (foldBlockLoads F)
  let folded ← loaded.mapM (foldBlockStores F)
  if loaded.any (fun blk => (instrs blk).any (escapes F)) ∨
      folded.any (fun blk => (instrs blk).any (storesField F)) then
    return folded.mapIdx (spill F)
  -- multiple producers in a block; the entry block is one already
  if (folded.head?.bind (fun blk => exitVals blk.exit)).isSome ∨ hasCallRet folded then
    none
  return folded.mapIdx (wire F folded)

end Pass

/-! ## Conventions -/

section Conventions

variable {n : Nat} {W : Type} (F : Fields n)

/-- The whole CPU struct is in memory. -/
def memoryConvention : Convention Nat W Unit Unit where
  file _ s := s.mem
  back _ file s := { s with mem := file }
  retFile _ s := s.mem

/-- The CPU struct with the given values in its fields. -/
def withFields (m : Mem) (vals : Fin n → Nat) : Mem := fun o =>
  match F.fieldAt o with
  | some i => ByteMem.byte (vals i) (o - F.off i)
  | none => m o

def Callee.pc (base : Nat) : Callee → Nat
  | .dispatch => 0
  | .abs c => c
  | .rel c => base + c

/-- The fields are in the parameters, and in the struct that is returned; an undefined
PC is the one the callee is named by. What memory has in place of them after the `k`-th
call is `junk k`. -/
def fieldsConvention (base : Nat) (junk : Nat → Mem) :
    Convention (Name n) W (CallArgs n) (Fin n → Operand (Name n)) where
  file c s := withFields F s.mem (fun i =>
    match c.params i with
    | some v => v.eval base s.env
    | none => c.callee.pc base)
  back b file s :=
    { s with
      env := fun x =>
        match x with
        | .res b' i => if b' = b then ByteMem.load file (F.off i) (F.size i) else s.env (.res b' i)
        | x => s.env x
      mem := fun o => if (F.fieldAt o).isSome then junk s.calls o else file o }
  retFile vals s := withFields F s.mem (fun i => (vals i).eval base s.env)

/-- Entry with the register file in memory. -/
def startMemory (R : Mem) (w : W) : State Nat W := ⟨fun _ => 0, R, w, 0⟩

/-- Entry with the fields of the register file in the arguments. -/
def startFields (R mem : Mem) (w : W) : State (Name n) W where
  env := fun x =>
    match x with
    | .arg i => ByteMem.load R (F.off i) (F.size i)
    | _ => 0
  mem := mem
  world := w
  calls := 0

end Conventions

end Instrew.Server
