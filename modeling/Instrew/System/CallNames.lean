import Instrew.Client.NameGrammar
import Instrew.Lib.Numeral
import Instrew.Server.ChangeCallConv

/-!
# The names of call targets

`FuncConstName` of `server/callconv.cc` names the target of a call by its constant PC, in octal:
`Z` and the PC, or `S` and its offset to `instrew_baseaddr`, which the client knows as the skew of
the object. `rtld_elf_decode_name` reads both back (`decode_of_funcConstName`), so two calls of one
kind have the same symbol exactly when they have the same target (`call_names_round_trip`).
-/

namespace Instrew.System

open Client Server
open Lib.Numeral (numeral value_numeral lt_of_mem_numeral)

/-- An `llvm::Value`, as far as `FuncConstName` tells them apart. -/
inductive PcValue : Type where
  | constantInt (c : Word)
  | addExpr (lhs rhs : PcValue)
  | ptrToIntExpr (v : PcValue)
  | otherExpr
  | globalVariable (name : List Byte)
  | other

/-- A letter and a number, printed with `std::oct`. -/
def octName (c : Byte) (v : Word) : List Byte := c :: (numeral 8 v.toNat).map octalChar

/-- `FuncConstName`. -/
def funcConstName : PcValue → Option (List Byte)
  | .constantInt c => some (octName 0x5a#8 c)
  | .addExpr (.ptrToIntExpr (.globalVariable name)) (.constantInt c) =>
      if name = chars "instrew_baseaddr" then some (octName 0x53#8 c) else none
  | _ => none

/-- The value of a constant, where `instrew_baseaddr` is at `skew`; `none` if it is not known
from that. -/
def PcValue.eval (skew : Word) : PcValue → Option Word
  | .constantInt c => some c
  | .addExpr lhs rhs => do some ((← lhs.eval skew) + (← rhs.eval skew))
  | .ptrToIntExpr v => v.eval skew
  | .globalVariable name => if name = chars "instrew_baseaddr" then some skew else none
  | .otherExpr | .other => none

/-- The PC that is `c` behind `instrew_baseaddr`. -/
def based (c : Word) : PcValue :=
  .addExpr (.ptrToIntExpr (.globalVariable (chars "instrew_baseaddr"))) (.constantInt c)

@[simp] theorem funcConstName_constantInt (c : Word) :
    funcConstName (.constantInt c) = some (octName 0x5a#8 c) := rfl

@[simp] theorem funcConstName_based (c : Word) :
    funcConstName (based c) = some (octName 0x53#8 c) := by
  rw [based, funcConstName, if_pos rfl]

@[simp] theorem eval_based (skew c : Word) : (based c).eval skew = some (skew + c) := by
  simp [based, PcValue.eval]

/-- Nothing else has a name. -/
theorem funcConstName_eq_some {v : PcValue} {name : List Byte} (h : funcConstName v = some name) :
    (∃ c, v = .constantInt c ∧ name = octName 0x5a#8 c) ∨
      ∃ c, v = based c ∧ name = octName 0x53#8 c := by
  unfold funcConstName at h
  split at h
  · exact .inl ⟨_, rfl, (Option.some.inj h).symm⟩
  · split_ifs at h with hname
    refine .inr ⟨_, ?_, (Option.some.inj h).symm⟩
    rw [hname]
    rfl
  · cases h

/-! ## Reading a name -/

theorem octName_nameOf {c : Byte} (hc : c = 0x5a#8 ∨ c = 0x53#8) (v : Word) {tail : List Byte}
    (htail : IsTail tail) : NameOf (octName c v ++ tail) c v := by
  have hvalue : octalValue (numeral 8 v.toNat) = v.toNat := value_numeral
  refine ⟨hc, numeral 8 v.toNat, tail, ?_, ?_, ?_, htail, rfl, ?_⟩
  · intro hnil
    rw [hnil] at hvalue
    -- only 0 could have no digits, and it has one
    have hzero : v.toNat = 0 := hvalue.symm
    rw [hzero] at hnil
    cases hnil
  · intro d hd
    exact lt_of_mem_numeral (by decide) hd
  · rw [hvalue]
    exact v.isLt
  · rw [hvalue, BitVec.ofNat_toNat, BitVec.setWidth_eq]

/-- The client reads the name of a constant as its value. -/
theorem decode_of_funcConstName {v : PcValue} {name : List Byte} (h : funcConstName v = some name)
    (skew out : Word) {tail : List Byte} (htail : IsTail tail) :
    ∃ pc, v.eval skew = some pc ∧ rtldElfDecodeName skew (name ++ tail) out = (.ok (), pc) := by
  rcases funcConstName_eq_some h with ⟨c, rfl, rfl⟩ | ⟨c, rfl, rfl⟩
  · refine ⟨c, rfl, ?_⟩
    rw [rtldElfDecodeName_of_nameOf (octName_nameOf (.inl rfl) c htail), if_neg (by decide)]
  · refine ⟨skew + c, eval_based skew c, ?_⟩
    rw [rtldElfDecodeName_of_nameOf (octName_nameOf (.inr rfl) c htail), if_pos rfl,
      BitVec.add_comm]

/-- Values of the same name are equal. -/
theorem eval_eq_of_funcConstName_eq {v w : PcValue} {name : List Byte}
    (hv : funcConstName v = some name) (hw : funcConstName w = some name) (skew : Word) :
    v.eval skew = w.eval skew := by
  obtain ⟨pc, hpc, hdec⟩ := decode_of_funcConstName hv skew 0#64 (.inl rfl)
  obtain ⟨pc', hpc', hdec'⟩ := decode_of_funcConstName hw skew 0#64 (.inl rfl)
  rw [hdec] at hdec'
  rw [hpc, hpc', (Prod.mk.inj hdec').2]

/-- The name of a constant is read as its value with any skew, that of an offset as the skew and
the offset; among the names of one kind, equal names are equal targets. -/
theorem call_names_round_trip (skew out : Word) (tail : List Byte) (htail : IsTail tail) :
    (∀ pc, funcConstName (.constantInt pc) = some (octName 0x5a#8 pc) ∧
      rtldElfDecodeName skew (octName 0x5a#8 pc ++ tail) out = (.ok (), pc)) ∧
    (∀ off, funcConstName (based off) = some (octName 0x53#8 off) ∧
      rtldElfDecodeName skew (octName 0x53#8 off ++ tail) out = (.ok (), skew + off)) ∧
    (∀ pc pc', funcConstName (.constantInt pc) = funcConstName (.constantInt pc') ↔ pc = pc') ∧
    ∀ off off', funcConstName (based off) = funcConstName (based off') ↔
      skew + off = skew + off' := by
  refine ⟨?_, ?_, ?_, ?_⟩
  · intro pc
    obtain ⟨_, ⟨⟩, hdec⟩ :=
      decode_of_funcConstName (funcConstName_constantInt pc) skew out htail
    exact ⟨rfl, hdec⟩
  · intro off
    obtain ⟨target, htarget, hdec⟩ :=
      decode_of_funcConstName (funcConstName_based off) skew out htail
    rw [eval_based] at htarget
    cases htarget
    exact ⟨funcConstName_based off, hdec⟩
  · intro pc pc'
    constructor
    · intro h
      exact Option.some.inj
        (eval_eq_of_funcConstName_eq h (funcConstName_constantInt pc') skew)
    · rintro rfl
      rfl
  · intro off off'
    constructor
    · intro h
      rw [funcConstName_based off'] at h
      have heval := eval_eq_of_funcConstName_eq h (funcConstName_based off') skew
      rw [eval_based, eval_based] at heval
      exact Option.some.inj heval
    · intro h
      rw [(BitVec.add_right_inj skew).mp h]

/-- A displacement of -16, with the suffix of a calling convention. -/
theorem negative_offset_round_trip :
    rtldElfDecodeName 0x401000#64 (octName 0x53#8 (-16#64) ++ chars "_hhvm") 0#64 =
      (.ok (), 0x400ff0#64) := by
  have h := call_names_round_trip 0x401000#64 0#64 (chars "_hhvm") (.inr rfl)
  exact (h.2.1 (-16#64)).2

/-! ## The calls of the pass -/

/-- The constant a call of `UpdateCallRet` gets its callee from. -/
def calleeValue : Callee → Option PcValue
  | .dispatch => none
  | .abs c => some (.constantInt (BitVec.ofNat 64 c))
  | .rel c => some (based (BitVec.ofNat 64 c))

/-- A call that is not to the dispatcher has a name, and the client reads it as the PC that the
call no longer passes. -/
theorem callee_name_decoded (callee : Callee) (hcallee : callee ≠ .dispatch) (base : Nat)
    (out : Word) {tail : List Byte} (htail : IsTail tail) :
    ∃ v name, calleeValue callee = some v ∧ funcConstName v = some name ∧
      rtldElfDecodeName (BitVec.ofNat 64 base) (name ++ tail) out =
        (.ok (), BitVec.ofNat 64 (callee.pc base)) := by
  cases callee with
  | dispatch => exact absurd rfl hcallee
  | abs c =>
      refine ⟨_, _, rfl, rfl, ?_⟩
      obtain ⟨_, ⟨⟩, hdec⟩ := decode_of_funcConstName
        (funcConstName_constantInt (BitVec.ofNat 64 c)) (BitVec.ofNat 64 base) out htail
      exact hdec
  | rel c =>
      refine ⟨_, _, rfl, funcConstName_based _, ?_⟩
      obtain ⟨target, htarget, hdec⟩ := decode_of_funcConstName
        (funcConstName_based (BitVec.ofNat 64 c)) (BitVec.ofNat 64 base) out htail
      rw [eval_based] at htarget
      rw [hdec, Callee.pc, BitVec.ofNat_add, Option.some.inj htarget]

end Instrew.System
