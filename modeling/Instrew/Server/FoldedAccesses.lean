import Instrew.Server.ChangeCallConv

/-!
# Folded loads and stores

What `foldLoads` and `foldStores` do to a list of instructions. The two lists are run side
by side, the old one with the register file in memory and the new one with some fields in
values. They agree on all values of the old function and on memory outside a set of bytes.
A folded load gets what the old one reads (`foldLoads_agree`); after folded stores, memory
is the same outside the stored fields, and the values passed on are theirs
(`foldStores_folded`).
-/

namespace Instrew.Server

open Instrew.Lib
open Instrew.Lib.Cfg
open Instrew.Lib.ByteMem (Mem)

/-! ## Fields -/

namespace Fields

variable {n : Nat} (F : Fields n)

/-- The byte is part of the field. -/
def Has (i : Fin n) (o : Nat) : Prop := F.off i ≤ o ∧ o < F.off i + F.size i

instance (i : Fin n) (o : Nat) : Decidable (F.Has i o) := inferInstanceAs (Decidable (_ ∧ _))

/-- The value of a field. -/
def value (m : Mem) (i : Fin n) : Nat := ByteMem.load m (F.off i) (F.size i)

/-- The byte is part of a field. -/
def Mapped (o : Nat) : Prop := (F.fieldAt o).isSome

variable {F}

theorem has_unique {i j : Fin n} {o : Nat} (hi : F.Has i o) (hj : F.Has j o) : i = j := by
  by_contra hne
  have hdis := F.disjoint i j hne
  unfold Has off size at hi hj
  omega

/-- Looking for the only index with a property. -/
private theorem find_finRange {p : Fin n → Bool} (huniq : ∀ i j, p i → p j → i = j) {i : Fin n} :
    (List.finRange n).find? p = some i ↔ p i := by
  constructor
  · exact fun h => List.find?_some h
  · intro hi
    cases hfind : (List.finRange n).find? p with
    | none => exact absurd hi (List.find?_eq_none.mp hfind i (List.mem_finRange i))
    | some j => rw [huniq j i (List.find?_some hfind) hi]

theorem fieldAt_eq_some {i : Fin n} {o : Nat} : F.fieldAt o = some i ↔ F.Has i o := by
  rw [fieldAt, find_finRange, decide_eq_true_iff, Has]
  exact fun i j hi hj => has_unique (of_decide_eq_true hi) (of_decide_eq_true hj)

theorem mapped_iff {o : Nat} : F.Mapped o ↔ ∃ i, F.Has i o := by
  rw [Mapped, Option.isSome_iff_exists]
  exact exists_congr (fun i => fieldAt_eq_some)

theorem has_off (F : Fields n) (i : Fin n) : F.Has i (F.off i) :=
  ⟨le_rfl, Nat.lt_add_of_pos_right (F.pos i)⟩

theorem fieldIdx_eq_some {i : Fin n} {off : Nat} : F.fieldIdx off = some i ↔ F.off i = off := by
  rw [fieldIdx, find_finRange, decide_eq_true_iff]
  intro i j hi hj
  have heq : F.off j = F.off i := (of_decide_eq_true hj).trans (of_decide_eq_true hi).symm
  exact has_unique (has_off F i) (heq ▸ has_off F j)

theorem fieldIdx_eq_none {off : Nat} : F.fieldIdx off = none ↔ ∀ i, F.off i ≠ off := by
  rw [Option.eq_none_iff_forall_ne_some]
  exact forall_congr' (fun i => not_congr fieldIdx_eq_some)

theorem touches_eq_false {off size : Nat} :
    F.touches off size = false ↔ ∀ o, off ≤ o → o < off + size → ¬ F.Mapped o := by
  rw [touches, List.any_eq_false]
  constructor
  · intro h o ho ho'
    have hj := h (o - off) (List.mem_range.mpr (by omega))
    rwa [Nat.add_sub_cancel' ho] at hj
  · intro h j hj
    exact h (off + j) (by omega) (by have := List.mem_range.mp hj; omega)

theorem value_congr {m m' : Mem} {i : Fin n} (h : ∀ o, F.Has i o → m o = m' o) :
    F.value m i = F.value m' i :=
  ByteMem.load_congr (fun o ho ho' => h o ⟨ho, ho'⟩)

end Fields

/-! ## What is assumed of a lifted function -/

section Assumptions

variable {n : Nat} {N W : Type}

def Instr.uses : Instr N W → List N
  | .op _ args _ _ | .helper _ args _ _ => args.filterMap operandVar
  | .cast _ _ v | .store _ _ v => (operandVar v).toList
  | .load .. => []
where
  operandVar : Operand N → Option N
    | .var x => some x
    | .const _ | .based _ => none

/-- SSA order in a block: what an instruction uses is not defined by it or later. -/
def Ordered : List (Instr N W) → Prop
  | [] => True
  | i :: l => (∀ x ∈ Instr.uses i, ∀ j ∈ i :: l, j.dst ≠ some x) ∧ Ordered l

instance decidableOrdered [DecidableEq N] : ∀ l : List (Instr N W), Decidable (Ordered l)
  | [] => isTrue trivial
  | i :: l =>
      have := decidableOrdered l
      inferInstanceAs (Decidable ((∀ x ∈ Instr.uses i, ∀ j ∈ i :: l, j.dst ≠ some x) ∧ Ordered l))

/-- The access covers one whole field, or no byte of a field. -/
def Fields.Whole (F : Fields n) (off size : Nat) : Prop :=
  (∃ i, F.off i = off ∧ F.size i = size) ∨
    0 < size ∧ ∀ o, off ≤ o → o < off + size → ¬ F.Mapped o

instance (F : Fields n) (off size : Nat) : Decidable (F.Whole off size) :=
  decidable_of_iff ((∃ i, F.off i = off ∧ F.size i = size) ∨ 0 < size ∧ F.touches off size = false)
    (by rw [Fields.Whole, Fields.touches_eq_false])

def WholeAccess (F : Fields n) : Instr N W → Prop
  | .load _ off size | .store off size _ => F.Whole off size
  | .op .. | .cast .. | .helper .. => True

instance (F : Fields n) : DecidablePred (WholeAccess F : Instr N W → Prop)
  | .load _ off size | .store off size _ => inferInstanceAs (Decidable (F.Whole off size))
  | .op .. | .cast .. | .helper .. => isTrue trivial

def storedField (F : Fields n) : Instr N W → Option (Fin n)
  | .store off _ _ => F.fieldIdx off
  | .op .. | .cast .. | .load .. | .helper .. => none

/-- The fields that are stored after the last read of the CPU struct, the last first. -/
def lastStored (F : Fields n) (body : List (Instr N W)) : List (Fin n) :=
  (body.reverse.takeWhile (fun i => !readsStruct i)).filterMap (storedField F)

/-- After the last read of the CPU struct, no field is stored twice. -/
def StoredOnce (F : Fields n) (body : List (Instr N W)) : Prop := (lastStored F body).Nodup

instance (F : Fields n) (body : List (Instr N W)) : Decidable (StoredOnce F body) :=
  inferInstanceAs (Decidable (List.Nodup _))

/-- An access at the offset of a field has its size. -/
theorem Fields.Whole.size_eq {F : Fields n} {off size : Nat} (h : F.Whole off size) {i : Fin n}
    (hi : F.fieldIdx off = some i) : F.size i = size := by
  rcases h with ⟨j, hoff, hsize⟩ | ⟨hpos, hfree⟩
  · obtain rfl : j = i := Option.some.inj ((fieldIdx_eq_some.mpr hoff).symm.trans hi)
    exact hsize
  · obtain rfl := fieldIdx_eq_some.mp hi
    exact absurd (mapped_iff.mpr ⟨i, has_off F i⟩) (hfree _ le_rfl (by omega))

/-- An access at another offset does not touch a field. -/
theorem Fields.Whole.free {F : Fields n} {off size : Nat} (h : F.Whole off size)
    (hi : F.fieldIdx off = none) : ∀ o, off ≤ o → o < off + size → ¬ F.Mapped o := by
  rcases h with ⟨j, hoff, -⟩ | ⟨-, hfree⟩
  · exact absurd hoff (fieldIdx_eq_none.mp hi j)
  · exact hfree

variable {F : Fields n}

theorem storedField_map {N' : Type} (rename : N → N') (i : Instr N W) :
    storedField F (i.map rename) = storedField F i := by
  cases i <;> rfl

theorem readsStruct_map {N' : Type} (rename : N → N') (i : Instr N W) :
    readsStruct (i.map rename) = readsStruct i := by
  cases i <;> rfl

theorem lastStored_map {N' : Type} (rename : N → N') (body : List (Instr N W)) :
    lastStored F (body.map (Instr.map rename)) = lastStored F body := by
  rw [lastStored, lastStored, ← List.map_reverse, List.takeWhile_map, List.filterMap_map]
  simp only [Function.comp_def, readsStruct_map, storedField_map]

/-- An instruction in front that stores no field makes no difference. -/
theorem lastStored_cons {i : Instr N W} (hi : storedField F i = none) (l : List (Instr N W)) :
    lastStored F (i :: l) = lastStored F l := by
  rw [lastStored, lastStored, List.reverse_cons, List.takeWhile_append]
  split_ifs with hall
  · rw [(List.takeWhile_prefix _).eq_of_length hall, List.filterMap_append, List.takeWhile_cons]
    split_ifs <;> simp [hi]
  · rfl

end Assumptions

/-! ## Folded loads -/

section Loads

variable {n : Nat} {W : Type} {F : Fields n} {D : Nat → Prop} {base : Nat}

theorem orig_injective : Function.Injective (Name.orig (n := n)) := fun _ _ h => Name.orig.inj h

/-- A value that the old function does not have. -/
def IsNew (x : Name n) : Prop := ∀ v, x ≠ .orig v

theorem isNew_arg (i : Fin n) : IsNew (.arg i) := fun _ h => nomatch h

theorem isNew_res (b : Nat) (i : Fin n) : IsNew (.res b i) := fun _ h => nomatch h

theorem isNew_phi (b : Nat) (i : Fin n) : IsNew (.phi b i) := fun _ h => nomatch h

/-- The new function has the value of each field under the name `get` gives it. -/
def Holds (F : Fields n) (get : Fin n → Name n) (s : State Nat W) (t : State (Name n) W) : Prop :=
  ∀ i, t.env (get i) = F.value s.mem i

theorem next_env_new {x : Name n} (hx : IsNew x) (i : Instr Nat W) (t : State (Name n) W) :
    ((i.map .orig).next base t).env x = t.env x := by
  refine Instr.next_env ?_ t
  rw [Instr.dst_map]
  cases i.dst with
  | none => exact fun h => nomatch h
  | some v => exact fun h => hx v (Option.some.inj h).symm

theorem Holds.next {get : Fin n → Name n} {s : State Nat W} {t : State (Name n) W}
    (h : Holds F get s t) (hget : ∀ i, IsNew (get i)) {i : Instr Nat W}
    (hi : i.mayWriteToMemory = false) :
    Holds F get (i.next base s) ((i.map .orig).next base t) := by
  intro f
  rw [next_env_new (hget f), h f]
  exact Fields.value_congr (fun o _ => (Instr.next_mem (i.keeps_of_not_mayWrite hi o) s).symm)

theorem foldLoad_eq (get : Fin n → Name n) (i : Instr (Name n) W) :
    foldLoad F get i = i ∨ ∃ dst off size f, i = .load dst off size ∧ F.fieldIdx off = some f ∧
      foldLoad F get i = .cast dst size (.var (get f)) := by
  cases i with
  | load dst off size =>
      cases hidx : F.fieldIdx off with
      | none => exact .inl (by simp only [foldLoad, hidx])
      | some f => exact .inr ⟨dst, off, size, f, rfl, hidx, by simp only [foldLoad, hidx]⟩
  | _ => exact .inl rfl

/-- A folded load gets the value of the field. -/
theorem foldLoad_next {get : Fin n → Name n} {i : Instr Nat W} (hwhole : WholeAccess F i)
    (s : State Nat W) {t : State (Name n) W} (hholds : Holds F get s t) {dst off size f}
    (hload : i.map .orig = .load dst off size) (hidx : F.fieldIdx off = some f) :
    (Instr.cast dst size (.var (get f)) : Instr (Name n) W).next base t =
      t.set dst (ByteMem.load s.mem off size) := by
  have hsize : F.size f = size := by
    cases i with
    | load =>
        cases hload
        exact Fields.Whole.size_eq hwhole hidx
    | _ => cases hload
  have hoff := Fields.fieldIdx_eq_some.mp hidx
  simp only [Instr.next, Operand.eval]
  rw [hholds f, Fields.value, hsize, hoff, ByteMem.load_mod]

/-- One instruction before the first write. -/
theorem foldLoad_agree (base : Nat) {get : Fin n → Name n} (hget : ∀ i, IsNew (get i)) {i : Instr Nat W}
    (hi : i.mayWriteToMemory = false) (hwhole : WholeAccess F i) {s : State Nat W}
    {t : State (Name n) W} (h : Agree .orig D s t) (hholds : Holds F get s t)
    (havoid : (foldLoad F get (i.map .orig)).Avoids D) :
    Agree .orig D (i.next base s) ((foldLoad F get (i.map .orig)).next base t) ∧
      Holds F get (i.next base s) ((foldLoad F get (i.map .orig)).next base t) ∧
      (foldLoad F get (i.map .orig)).event base t = i.event base s := by
  rcases foldLoad_eq (F := F) get (i.map .orig) with hsame | ⟨dst, off, size, f, hload, hidx, hcast⟩
  · rw [hsame] at havoid ⊢
    have hi' := (Instr.avoids_map D i).mp havoid
    exact ⟨h.next orig_injective hi', hholds.next hget hi, h.event hi'⟩
  · rw [hcast, foldLoad_next hwhole s hholds hload hidx]
    cases i with
    | load d =>
        cases hload
        refine ⟨⟨h.update orig_injective d _, h.mem, h.world, h.calls⟩, fun g => ?_, rfl⟩
        exact (Function.update_of_ne (hget g d) _ _).trans (hholds g)
    | _ => cases hload

theorem foldLoads_agree (base : Nat) {get : Fin n → Name n} (hget : ∀ i, IsNew (get i)) :
    ∀ {l : List (Instr Nat W)} {s : State Nat W} {t : State (Name n) W}, Agree .orig D s t →
      Holds F get s t → (∀ i ∈ l, WholeAccess F i) →
      (∀ i ∈ foldLoads F get (l.map (Instr.map .orig)), i.Avoids D) →
      Agree .orig D (execAll base l s)
          (execAll base (foldLoads F get (l.map (Instr.map .orig))) t) ∧
        events base (foldLoads F get (l.map (Instr.map .orig))) t = events base l s
  | [], _, _, h, _, _, _ => ⟨h, rfl⟩
  | i :: l, s, t, h, hholds, hwhole, havoid => by
      rw [List.map_cons, foldLoads, Instr.mayWriteToMemory_map] at havoid ⊢
      split_ifs at havoid ⊢ with hi
      · have havoid' : ∀ j ∈ i :: l, j.Avoids D := fun j hj =>
          (Instr.avoids_map D j).mp (havoid _ (List.mem_map.mpr ⟨j, hj, rfl⟩))
        rw [← List.map_cons]
        exact ⟨h.execAll orig_injective havoid', h.events orig_injective havoid'⟩
      · obtain ⟨hagree, hholds', hevent⟩ := foldLoad_agree base hget (by simpa using hi)
          (hwhole i List.mem_cons_self) h hholds (havoid _ List.mem_cons_self)
        obtain ⟨hrest, hevents⟩ := foldLoads_agree base hget hagree hholds'
          (fun j hj => hwhole j (List.mem_cons_of_mem i hj))
          (fun j hj => havoid j (List.mem_cons_of_mem _ hj))
        exact ⟨hrest, by rw [events, events, hevent, hevents]⟩

theorem mem_foldLoads (get : Fin n → Name n) : ∀ {l : List (Instr (Name n) W)} {i : Instr (Name n) W},
    i ∈ l → i ∈ foldLoads F get l ∨ ∃ dst off size, i = .load dst off size
  | j :: l, i, hi => by
      rw [foldLoads]
      split_ifs with hw
      · exact .inl hi
      · rcases List.mem_cons.mp hi with rfl | hi
        · rcases foldLoad_eq (F := F) get i with hsame | ⟨dst, off, size, _, hload, -⟩
          · exact .inl (by rw [hsame]; exact List.mem_cons_self)
          · exact .inr ⟨dst, off, size, hload⟩
        · exact (mem_foldLoads get hi).imp_left (List.mem_cons_of_mem _)

/-- What is left defines what was there. -/
theorem dst_foldLoads (get : Fin n → Name n) : ∀ {l : List (Instr (Name n) W)} {i : Instr (Name n) W},
    i ∈ foldLoads F get l → ∃ j ∈ l, i.dst = j.dst
  | j :: l, i, hi => by
      rw [foldLoads] at hi
      split_ifs at hi with hw
      · exact ⟨i, hi, rfl⟩
      · rcases List.mem_cons.mp hi with rfl | hi
        · refine ⟨j, List.mem_cons_self, ?_⟩
          rcases foldLoad_eq (F := F) get j with hsame | ⟨dst, off, size, f, rfl, -, hcast⟩
          · rw [hsame]
          · rw [hcast]
            rfl
        · obtain ⟨k, hk, hdst⟩ := dst_foldLoads get hi
          exact ⟨k, List.mem_cons_of_mem j hk, hdst⟩

/-- What is left was there, or has the value of a field. -/
theorem of_mem_foldLoads (get : Fin n → Name n) : ∀ {l : List (Instr (Name n) W)}
    {i : Instr (Name n) W}, i ∈ foldLoads F get l →
      i ∈ l ∨ ∃ dst size f, i = .cast dst size (.var (get f))
  | j :: l, i, hi => by
      rw [foldLoads] at hi
      split_ifs at hi with hw
      · exact .inl hi
      · rcases List.mem_cons.mp hi with rfl | hi
        · rcases foldLoad_eq (F := F) get j with hsame | ⟨dst, off, size, f, rfl, -, hcast⟩
          · exact .inl (by rw [hsame]; exact List.mem_cons_self)
          · exact .inr ⟨dst, size, f, hcast⟩
        · exact (of_mem_foldLoads get hi).imp_left (List.mem_cons_of_mem _)

theorem wholeAccess_foldLoads {get : Fin n → Name n} {l : List (Instr Nat W)}
    (h : ∀ i ∈ l, WholeAccess F i) :
    ∀ i ∈ foldLoads F get (l.map (Instr.map .orig)), WholeAccess F i := by
  intro i hi
  rcases of_mem_foldLoads get hi with hi | ⟨dst, size, f, rfl⟩
  · obtain ⟨j, hj, rfl⟩ := List.mem_map.mp hi
    have hwhole := h j hj
    cases j <;> exact hwhole
  · trivial

theorem Instr.uses_map {N N' : Type} (rename : N → N') (i : Instr N W) :
    Instr.uses (i.map rename) = (Instr.uses i).map rename := by
  have hoperand : ∀ v : Operand N,
      Instr.uses.operandVar (v.map rename) = (Instr.uses.operandVar v).map rename := by
    intro v
    cases v <;> rfl
  cases i with
  | load => rfl
  | cast _ _ v | store _ _ v => cases v <;> rfl
  | op | helper =>
      simp only [Instr.map, Instr.uses, List.filterMap_map, List.map_filterMap]
      congr 1
      funext v
      exact hoperand v

theorem Ordered.map {N N' : Type} {rename : N → N'} (hinj : Function.Injective rename) :
    ∀ {l : List (Instr N W)}, Ordered l → Ordered (l.map (Instr.map rename))
  | [], _ => trivial
  | i :: l, h => by
      refine ⟨?_, Ordered.map hinj h.2⟩
      intro x hx j hj heq
      rw [Instr.uses_map] at hx
      obtain ⟨y, hy, rfl⟩ := List.mem_map.mp hx
      rw [← List.map_cons] at hj
      obtain ⟨k, hk, rfl⟩ := List.mem_map.mp hj
      rw [Instr.dst_map] at heq
      obtain ⟨z, hz, hzy⟩ := Option.map_eq_some_iff.mp heq
      exact h.1 y hy k hk (hinj hzy ▸ hz)

/-- Folded loads use names that nothing in the block defines. -/
theorem Ordered.foldLoads {get : Fin n → Name n} : ∀ {l : List (Instr (Name n) W)},
    (∀ i ∈ l, ∀ f, i.dst ≠ some (get f)) → Ordered l → Ordered (Server.foldLoads F get l)
  | [], _, _ => trivial
  | i :: l, hget, h => by
      rw [Server.foldLoads]
      split_ifs with hw
      · exact h
      · refine ⟨?_, Ordered.foldLoads (fun j hj => hget j (List.mem_cons_of_mem i hj)) h.2⟩
        intro x hx j hj
        have hmem : j ∈ Server.foldLoads F get (i :: l) := by rwa [Server.foldLoads, if_neg hw]
        obtain ⟨k, hk, hdst⟩ := dst_foldLoads get hmem
        rw [hdst]
        rcases foldLoad_eq (F := F) get i with hsame | ⟨dst, off, size, f, rfl, -, hcast⟩
        · rw [hsame] at hx
          exact h.1 x hx k hk
        · rw [hcast] at hx
          obtain rfl := List.mem_singleton.mp hx
          exact hget k hk f

theorem storedField_foldLoad (get : Fin n → Name n) {i : Instr (Name n) W}
    (hi : i.mayWriteToMemory = false) :
    storedField F i = none ∧ storedField F (foldLoad F get i) = none := by
  cases i with
  | op | cast | helper => exact ⟨rfl, rfl⟩
  | store => cases hi
  | load dst off size =>
      refine ⟨rfl, ?_⟩
      rw [foldLoad]
      split <;> rfl

/-- The loads that are folded come before every store. -/
theorem lastStored_foldLoads (get : Fin n → Name n) (l : List (Instr (Name n) W)) :
    lastStored F (foldLoads F get l) = lastStored F l := by
  induction l with
  | nil => rfl
  | cons i l ih =>
      rw [foldLoads]
      split_ifs with hwrite
      · rfl
      · obtain ⟨hi, hi'⟩ := storedField_foldLoad (F := F) get (Bool.eq_false_iff.mpr hwrite)
        rw [lastStored_cons hi', lastStored_cons hi, ih]

end Loads

/-! ## Folded stores -/

section Stores

variable {n : Nat} {N W : Type} {F : Fields n} {D : Nat → Prop} {base : Nat}
variable {rename : N → Name n} {s : State N W} {t : State (Name n) W} {new : Vals n}

/-- In SSA order the last instruction defines nothing that an earlier one uses. -/
theorem Ordered.last_ne {i : Instr N W} : ∀ {l : List (Instr N W)}, Ordered (l ++ [i]) →
    ∀ j ∈ l, ∀ x ∈ Instr.uses j, i.dst ≠ some x
  | k :: l, h, j, hj, x, hx => by
      rcases List.mem_cons.mp hj with rfl | hj
      · exact h.1 x hx i (List.mem_cons_of_mem _ (List.mem_append_right _ List.mem_cons_self))
      · exact Ordered.last_ne h.2 j hj x hx

theorem Ordered.left : ∀ {l l' : List (Instr N W)}, Ordered (l ++ l') → Ordered l
  | [], _, _ => trivial
  | _ :: _, l', h =>
      ⟨fun x hx j hj => h.1 x hx j (List.mem_append_left l' hj), Ordered.left h.2⟩

theorem Ordered.right : ∀ {l l' : List (Instr N W)}, Ordered (l ++ l') → Ordered l'
  | [], _, h => h
  | _ :: _, _, h => Ordered.right h.2

/-- What one instruction makes of the loop of `FoldStores`: it stops there, the store is
folded, or the instruction is kept. -/
theorem foldStoresFrom_cons {i : Instr (Name n) W} {l l' : List (Instr (Name n) W)}
    {acc vals : Vals n} (h : foldStoresFrom F (i :: l) acc = some (l', vals)) :
    (l' = i :: l ∧ vals = acc) ∨
    (∃ off size v f, i = .store off size v ∧ F.fieldIdx off = some f ∧ acc f = none ∧
      foldStoresFrom F l (Function.update acc f (some v)) = some (l', vals)) ∨
    ∃ l'', l' = i :: l'' ∧ foldStoresFrom F l acc = some (l'', vals) ∧
      (∀ D : Nat → Prop, i.Avoids D) ∧
      (∀ off size v, i = .store off size v → F.fieldIdx off = none) := by
  have hkept : (foldStoresFrom F l acc).map (fun r => (i :: r.1, r.2)) = some (l', vals) →
      ∃ l'', l' = i :: l'' ∧ foldStoresFrom F l acc = some (l'', vals) := by
    intro hmap
    obtain ⟨⟨l'', vals'⟩, hrest, heq⟩ := Option.map_eq_some_iff.mp hmap
    cases heq
    exact ⟨l'', rfl, hrest⟩
  cases i with
  | helper | load =>
      cases h
      exact .inl ⟨rfl, rfl⟩
  | op | cast =>
      obtain ⟨l'', hl', hrest⟩ := hkept h
      exact .inr (.inr ⟨l'', hl', hrest, fun _ => trivial, fun _ _ _ heq => by cases heq⟩)
  | store off size v =>
      cases hidx : F.fieldIdx off with
      | none =>
          simp only [foldStoresFrom, hidx] at h
          obtain ⟨l'', hl', hrest⟩ := hkept h
          refine .inr (.inr ⟨l'', hl', hrest, fun _ => trivial, ?_⟩)
          intro off' size' v' heq
          cases heq
          exact hidx
      | some f =>
          simp only [foldStoresFrom, hidx] at h
          split_ifs at h with hsome
          exact .inr (.inl ⟨off, size, v, f, rfl, hidx, by simpa using hsome, h⟩)

/-- A value once folded stays. -/
theorem foldStoresFrom_mono : ∀ {l l' : List (Instr (Name n) W)} {acc vals : Vals n},
    foldStoresFrom F l acc = some (l', vals) → ∀ {f v}, acc f = some v → vals f = some v
  | [], _, _, _, h, f, v, hf => by
      cases h
      exact hf
  | i :: l, l', acc, vals, h, f, v, hf => by
      rcases foldStoresFrom_cons h with ⟨-, rfl⟩ | ⟨off, size, u, g, -, -, hg, hrest⟩ |
        ⟨l'', -, hrest, -⟩
      · exact hf
      · refine foldStoresFrom_mono hrest ?_
        have hne : f ≠ g := by
          rintro rfl
          rw [hg] at hf
          cases hf
        rwa [Function.update_of_ne hne]
      · exact foldStoresFrom_mono hrest hf

/-- A folded value comes from a store. -/
theorem foldStoresFrom_value : ∀ {l l' : List (Instr (Name n) W)} {acc vals : Vals n},
    foldStoresFrom F l acc = some (l', vals) → ∀ {f v}, vals f = some v →
      acc f = some v ∨ ∃ off size, .store off size v ∈ l
  | [], _, _, _, h, f, v, hf => by
      cases h
      exact .inl hf
  | i :: l, l', acc, vals, h, f, v, hf => by
      rcases foldStoresFrom_cons h with ⟨-, rfl⟩ | ⟨off, size, u, g, rfl, -, -, hrest⟩ |
        ⟨l'', -, hrest, -⟩
      · exact .inl hf
      · rcases foldStoresFrom_value hrest hf with hacc | ⟨off', size', hmem⟩
        · by_cases hfg : f = g
          · subst hfg
            rw [Function.update_self] at hacc
            cases hacc
            exact .inr ⟨off, size, List.mem_cons_self⟩
          · rw [Function.update_of_ne hfg] at hacc
            exact .inl hacc
        · exact .inr ⟨off', size', List.mem_cons_of_mem _ hmem⟩
      · rcases foldStoresFrom_value hrest hf with hacc | ⟨off', size', hmem⟩
        · exact .inl hacc
        · exact .inr ⟨off', size', List.mem_cons_of_mem _ hmem⟩

/-- An instruction that is gone is a store to a field that has a value. -/
theorem foldStoresFrom_mem : ∀ {l l' : List (Instr (Name n) W)} {acc vals : Vals n},
    foldStoresFrom F l acc = some (l', vals) → ∀ {i}, i ∈ l → i ∈ l' ∨
      ∃ off size v f, i = .store off size v ∧ F.fieldIdx off = some f ∧ (vals f).isSome
  | j :: l, l', acc, vals, h, i, hi => by
      rcases foldStoresFrom_cons h with ⟨rfl, -⟩ | ⟨off, size, v, f, rfl, hidx, -, hrest⟩ |
        ⟨l'', rfl, hrest, -⟩
      · exact .inl hi
      · rcases List.mem_cons.mp hi with rfl | hi
        · have hval : vals f = some v := foldStoresFrom_mono hrest (Function.update_self _ _ _)
          exact .inr ⟨off, size, v, f, rfl, hidx, by rw [hval]; rfl⟩
        · exact foldStoresFrom_mem hrest hi
      · rcases List.mem_cons.mp hi with rfl | hi
        · exact .inl List.mem_cons_self
        · exact (foldStoresFrom_mem hrest hi).imp_left (List.mem_cons_of_mem _)

/-- Nothing is added. -/
theorem mem_of_foldStoresFrom : ∀ {l l' : List (Instr (Name n) W)} {acc vals : Vals n},
    foldStoresFrom F l acc = some (l', vals) → ∀ {i}, i ∈ l' → i ∈ l
  | [], _, _, _, h, i, hi => by
      cases h
      exact hi
  | j :: l, l', acc, vals, h, i, hi => by
      rcases foldStoresFrom_cons h with ⟨rfl, -⟩ | ⟨off, size, v, f, rfl, hidx, -, hrest⟩ |
        ⟨l'', rfl, hrest, -⟩
      · exact hi
      · exact List.mem_cons_of_mem _ (mem_of_foldStoresFrom hrest hi)
      · rcases List.mem_cons.mp hi with rfl | hi
        · exact List.mem_cons_self
        · exact List.mem_cons_of_mem _ (mem_of_foldStoresFrom hrest hi)

/-- A store of the new function is one of the old function. -/
theorem store_mem_map {l : List (Instr N W)} {off size : Nat} {v : Operand (Name n)}
    (h : Instr.store off size v ∈ l.map (Instr.map rename)) :
    ∃ u, Instr.store off size u ∈ l ∧ v = u.map rename := by
  obtain ⟨i, hi, heq⟩ := List.mem_map.mp h
  cases i with
  | store off' size' u =>
      cases heq
      exact ⟨u, hi, rfl⟩
  | _ => cases heq

/-- What an earlier store stores is still there after the last instruction. -/
theorem Ordered.eval_last (hinj : Function.Injective rename) {l : List (Instr N W)}
    {i : Instr N W} (h : Ordered (l ++ [i])) {off size : Nat} {u : Operand N}
    (hu : Instr.store off size u ∈ l) (t : State (Name n) W) :
    (u.map rename).eval base ((i.map rename).next base t).env = (u.map rename).eval base t.env := by
  cases u with
  | const | based => rfl
  | var x =>
      have hne : i.dst ≠ some x := h.last_ne _ hu x List.mem_cons_self
      refine Instr.next_env ?_ t
      rw [Instr.dst_map]
      intro heq
      obtain ⟨y, hy, hyx⟩ := Option.map_eq_some_iff.mp heq
      exact hne (hinj hyx ▸ hy)

/-- Other than a helper, only a store to a field writes a byte of it. -/
theorem keeps_of_store {i : Instr N W} (hwhole : WholeAccess F i)
    (hhelper : ∀ dst args mayWrite g, i ≠ .helper dst args mayWrite g) {o : Nat}
    (hstore : ∀ off size v, i = .store off size v → ∀ f, F.fieldIdx off = some f → ¬ F.Has f o)
    (ho : F.Mapped o) : i.Keeps o := by
  cases i with
  | op | cast | load => trivial
  | helper => exact absurd rfl (hhelper _ _ _ _)
  | store off size v =>
      rintro ⟨hle, hlt⟩
      cases hidx : F.fieldIdx off with
      | none => exact hwhole.free hidx o hle hlt ho
      | some f =>
          refine hstore off size v rfl f hidx ?_
          have hsize := hwhole.size_eq hidx
          have hoff := Fields.fieldIdx_eq_some.mp hidx
          exact ⟨hoff ▸ hle, by rw [hoff, hsize]; exact hlt⟩

/-- The stores of the fields in `new` have been made by the old function only; the new
function has their values. -/
structure StoresFolded (F : Fields n) (base : Nat) (rename : N → Name n) (D : Nat → Prop)
    (new : Vals n) (s : State N W) (t : State (Name n) W) : Prop where
  agree : Agree rename (fun o => D o ∨ ∃ f, (new f).isSome ∧ F.Has f o) s t
  value : ∀ f v, new f = some v → F.value s.mem f = v.eval base t.env % 256 ^ F.size f

theorem Agree.storesFolded (h : Agree rename D s t) :
    StoresFolded F base rename D (fun _ => none) s t :=
  ⟨h.mono (fun _ ho => .inl ho), fun _ _ h => nomatch h⟩

/-- The stores that are folded come after loads that were. -/
theorem StoresFolded.trans {u : State (Name n) W} (h : Agree rename (fun _ => False) s u)
    (hfolded : StoresFolded F base id (fun _ => False) new u t) :
    StoresFolded F base rename (fun _ => False) new s t where
  agree := by
    refine ⟨fun x => (hfolded.agree.env (rename x)).trans (h.env x), fun o ho => ?_,
      hfolded.agree.world.trans h.world, hfolded.agree.calls.trans h.calls⟩
    exact (hfolded.agree.mem o ho).trans (h.mem o (fun hF => hF))
  value := by
    intro f v hv
    rw [← hfolded.value f v hv, h.mem_eq (fun _ hF => hF)]

variable [DecidableEq N]

/-- A store that is folded. -/
theorem StoresFolded.store (h : StoresFolded F base rename D new s t) {f : Fin n} (v : Operand N) :
    StoresFolded F base rename D (Function.update new f (some (v.map rename)))
      ((Instr.store (F.off f) (F.size f) v).next base s) t where
  agree := by
    refine ⟨h.agree.env, fun o ho => ?_, h.agree.world, h.agree.calls⟩
    have hnot : ¬ F.Has f o := fun hf => ho (.inr ⟨f, by rw [Function.update_self]; rfl, hf⟩)
    refine (h.agree.mem o ?_).trans (ByteMem.store_of_not_mem hnot).symm
    rintro (hD | ⟨g, hg, hgo⟩)
    · exact ho (.inl hD)
    · have hne : g ≠ f := fun heq => hnot (heq ▸ hgo)
      exact ho (.inr ⟨g, by rwa [Function.update_of_ne hne], hgo⟩)
  value := by
    intro g u hu
    by_cases hg : g = f
    · subst hg
      rw [Function.update_self] at hu
      obtain rfl := Option.some.inj hu
      rw [h.agree.eval]
      exact ByteMem.load_store _ _ _ _
    · rw [Function.update_of_ne hg] at hu
      rw [← h.value g u hu]
      refine Fields.value_congr (fun o ho => ByteMem.store_of_not_mem (fun hf => hg ?_))
      exact Fields.has_unique ho hf

/-- An instruction that is not a read, nor a store to a field in `new`, stays. -/
theorem StoresFolded.next (hinj : Function.Injective rename)
    (h : StoresFolded F base rename D new s t) {i : Instr N W}
    (havoid : ∀ D : Nat → Prop, i.Avoids D)
    (hkeeps : ∀ f, (new f).isSome → ∀ o, F.Has f o → i.Keeps o)
    (hssa : ∀ f v, new f = some v →
      v.eval base ((i.map rename).next base t).env = v.eval base t.env) :
    StoresFolded F base rename D new (i.next base s) ((i.map rename).next base t) where
  agree := h.agree.next hinj (havoid _)
  value := by
    intro f v hv
    rw [hssa f v hv, ← h.value f v hv]
    exact Fields.value_congr (fun o ho => Instr.next_mem (hkeeps f (by rw [hv]; rfl) o ho) s)

/-- What has been folded on the way from `acc` to `vals`. -/
def foldedSince (acc vals : Vals n) : Vals n := fun f => if (acc f).isSome then none else vals f

theorem foldedSince_self (vals : Vals n) : foldedSince vals vals = fun _ => none := by
  funext f
  unfold foldedSince
  cases vals f <;> rfl

theorem foldedSince_update {acc vals : Vals n} {f : Fin n} {v : Operand (Name n)} (hacc : acc f = none)
    (hvals : vals f = some v) :
    foldedSince acc vals =
      Function.update (foldedSince (Function.update acc f (some v)) vals) f (some v) := by
  funext g
  unfold foldedSince
  by_cases hg : g = f
  · subst hg
    rw [Function.update_self, hacc]
    exact hvals
  · rw [Function.update_of_ne hg, Function.update_of_ne hg]

theorem foldedSince_eq_some {acc vals : Vals n} {f : Fin n} {v : Operand (Name n)}
    (h : foldedSince acc vals f = some v) : acc f = none ∧ vals f = some v := by
  unfold foldedSince at h
  split_ifs at h with hacc
  exact ⟨by simpa using hacc, h⟩

/-- An instruction that `FoldStores` goes past, after the earlier ones. -/
theorem StoresFolded.past (hinj : Function.Injective rename) {l : List (Instr N W)} {i : Instr N W}
    {l' : List (Instr (Name n) W)} {acc vals : Vals n}
    (hfold : foldStoresFrom F (l.map (Instr.map rename)) acc = some (l', vals))
    (h : StoresFolded F base rename D (foldedSince acc vals) s t) (hord : Ordered (l.reverse ++ [i]))
    (hwhole : WholeAccess F i) (havoid : ∀ D : Nat → Prop, i.Avoids D)
    (hstore : ∀ off size v, i = .store off size v → F.fieldIdx off = none) :
    StoresFolded F base rename D (foldedSince acc vals) (i.next base s) ((i.map rename).next base t) := by
  refine h.next hinj havoid (fun f _ o ho => keeps_of_store hwhole ?_ ?_
    (Fields.mapped_iff.mpr ⟨f, ho⟩)) (fun f v hv => ?_)
  · rintro dst args mayWrite g rfl
    exact havoid (fun _ => True) 0 trivial
  · intro off size v hi f hf
    rw [hstore off size v hi] at hf
    cases hf
  · -- the value comes from an earlier store, so this instruction does not define it
    obtain ⟨hacc, hvals⟩ := foldedSince_eq_some hv
    rcases foldStoresFrom_value hfold hvals with hacc' | ⟨off, size, hmem⟩
    · rw [hacc] at hacc'
      cases hacc'
    · obtain ⟨u, hu, rfl⟩ := store_mem_map hmem
      exact hord.eval_last hinj (List.mem_reverse.mpr hu) t

/-- The loop of `FoldStores`, run from the beginning of the block: the list is the block in
reverse, and the induction takes its instructions from the end. What `acc` has already are
stores that come later. -/
theorem foldStoresFrom_folded (hinj : Function.Injective rename) :
    ∀ {l : List (Instr N W)} {l' : List (Instr (Name n) W)}
      {acc vals : Vals n}, foldStoresFrom F (l.map (Instr.map rename)) acc = some (l', vals) →
      Ordered l.reverse → (∀ i ∈ l, WholeAccess F i) → (∀ i ∈ l, i.Avoids D) →
      ∀ {s : State N W} {t : State (Name n) W}, Agree rename D s t →
        events base l'.reverse t = events base l.reverse s ∧
          StoresFolded F base rename D (foldedSince acc vals)
            (execAll base l.reverse s) (execAll base l'.reverse t)
  | [], l', acc, vals, h, _, _, _, s, t, hagree => by
      cases h
      rw [foldedSince_self]
      exact ⟨rfl, Agree.storesFolded hagree⟩
  | i :: l, l', acc, vals, h, hord, hwhole, havoid, s, t, hagree => by
      have hord' : Ordered (l.reverse ++ [i]) := List.reverse_cons ▸ hord
      have hwhole' : ∀ j ∈ l, WholeAccess F j := fun j hj => hwhole j (List.mem_cons_of_mem i hj)
      have havoid' : ∀ j ∈ l, j.Avoids D := fun j hj => havoid j (List.mem_cons_of_mem i hj)
      rcases foldStoresFrom_cons h with ⟨rfl, rfl⟩ | ⟨off, size, v, f, hstore, hidx, hf, hrest⟩ |
        ⟨l'', rfl, hrest, hi, hkept⟩
      · -- the walk stops: the rest of the block is as it was
        have havoidAll : ∀ j ∈ (i :: l).reverse, j.Avoids D :=
          fun j hj => havoid j (List.mem_reverse.mp hj)
        rw [← List.map_cons, ← List.map_reverse, foldedSince_self]
        exact ⟨hagree.events hinj havoidAll,
          Agree.storesFolded (hagree.execAll hinj havoidAll)⟩
      · obtain ⟨hevents, hfolded⟩ := foldStoresFrom_folded hinj hrest hord'.left hwhole' havoid' hagree
        rw [List.reverse_cons, execAll_append, events_append]
        cases i with
        | store off' size' u =>
            cases hstore
            have hoff := Fields.fieldIdx_eq_some.mp hidx
            have hsize := Fields.Whole.size_eq (hwhole _ List.mem_cons_self) hidx
            subst hoff hsize
            refine ⟨by rw [hevents]; exact (List.append_nil _).symm, ?_⟩
            rw [foldedSince_update hf (foldStoresFrom_mono hrest (Function.update_self _ _ _))]
            exact hfolded.store u
        | _ => cases hstore
      · obtain ⟨hevents, hfolded⟩ := foldStoresFrom_folded hinj hrest hord'.left hwhole' havoid' hagree
        have hi' : ∀ D : Nat → Prop, i.Avoids D := fun D => (Instr.avoids_map D i).mp (hi D)
        rw [List.reverse_cons, List.reverse_cons, execAll_append, events_append, execAll_append,
          events_append, hevents]
        refine ⟨?_, hfolded.past hinj hrest hord' (hwhole i List.mem_cons_self) hi' ?_⟩
        · rw [events, events, hfolded.agree.event (hi' _)]
          rfl
        · rintro off size v rfl
          exact hkept off size _ rfl

/-- **Memory and the folded values after the stores before a call or return.** -/
theorem foldStores_folded (hinj : Function.Injective rename) {body : List (Instr N W)}
    {body' : List (Instr (Name n) W)} {vals : Vals n}
    (h : foldStores F (body.map (Instr.map rename)) = some (body', vals))
    (hord : Ordered body) (hwhole : ∀ i ∈ body, WholeAccess F i) (havoid : ∀ i ∈ body, i.Avoids D)
    (hagree : Agree rename D s t) :
    events base body' t = events base body s ∧
      StoresFolded F base rename D vals (execAll base body s) (execAll base body' t) := by
  obtain ⟨l, rfl⟩ : ∃ l, body = l.reverse := ⟨body.reverse, body.reverse_reverse.symm⟩
  rw [foldStores, ← List.map_reverse, List.reverse_reverse] at h
  obtain ⟨⟨l', vals'⟩, hfold, heq⟩ := Option.map_eq_some_iff.mp h
  cases heq
  exact foldStoresFrom_folded hinj hfold hord (fun i hi => hwhole i (List.mem_reverse.mpr hi))
    (fun i hi => havoid i (List.mem_reverse.mpr hi)) hagree

/-- No assertion of `FoldStores` fails. -/
theorem foldStoresFrom_isSome : ∀ (l : List (Instr (Name n) W)) (acc : Vals n),
    ((l.takeWhile (fun i => !readsStruct i)).filterMap (storedField F)).Nodup →
      (∀ f ∈ (l.takeWhile (fun i => !readsStruct i)).filterMap (storedField F), acc f = none) →
      (foldStoresFrom F l acc).isSome
  | [], _, _, _ => rfl
  | i :: l, acc, hnodup, hnone => by
      cases i with
      | helper | load => rfl
      | op | cast =>
          rw [foldStoresFrom, Option.isSome_map]
          exact foldStoresFrom_isSome l acc hnodup hnone
      | store off size v =>
          rw [foldStoresFrom]
          cases hidx : F.fieldIdx off with
          | none =>
              simp only [List.takeWhile_cons, readsStruct, Bool.not_false, if_true,
                List.filterMap_cons, storedField, hidx] at hnodup hnone
              rw [Option.isSome_map]
              exact foldStoresFrom_isSome l acc hnodup hnone
          | some f =>
              simp only [List.takeWhile_cons, readsStruct, Bool.not_false, if_true,
                List.filterMap_cons, storedField, hidx, List.nodup_cons] at hnodup hnone
              dsimp only
              rw [hnone f List.mem_cons_self]
              refine foldStoresFrom_isSome l _ hnodup.2 (fun g hg => ?_)
              have hne : g ≠ f := fun heq => hnodup.1 (heq ▸ hg)
              rw [Function.update_of_ne hne]
              exact hnone g (List.mem_cons_of_mem f hg)

theorem foldStores_isSome {body : List (Instr (Name n) W)} (h : StoredOnce F body) :
    (foldStores F body).isSome := by
  rw [foldStores, Option.isSome_map]
  exact foldStoresFrom_isSome body.reverse _ h (fun _ _ => rfl)

theorem foldStores_value {body body' : List (Instr (Name n) W)} {vals : Vals n}
    (h : foldStores F body = some (body', vals)) {f : Fin n} {v : Operand (Name n)}
    (hv : vals f = some v) : ∃ off size, .store off size v ∈ body := by
  obtain ⟨⟨l', vals'⟩, hfold, heq⟩ := Option.map_eq_some_iff.mp h
  cases heq
  rcases foldStoresFrom_value hfold hv with hacc | ⟨off, size, hmem⟩
  · cases hacc
  · exact ⟨off, size, List.mem_reverse.mp hmem⟩

theorem foldStores_mem {body body' : List (Instr (Name n) W)} {vals : Vals n}
    (h : foldStores F body = some (body', vals)) {i : Instr (Name n) W} (hi : i ∈ body) :
    i ∈ body' ∨ ∃ off size v f, i = .store off size v ∧ F.fieldIdx off = some f ∧ (vals f).isSome := by
  obtain ⟨⟨l', vals'⟩, hfold, heq⟩ := Option.map_eq_some_iff.mp h
  cases heq
  exact (foldStoresFrom_mem hfold (List.mem_reverse.mpr hi)).imp_left List.mem_reverse.mpr

theorem mem_of_foldStores {body body' : List (Instr (Name n) W)} {vals : Vals n}
    (h : foldStores F body = some (body', vals)) {i : Instr (Name n) W} (hi : i ∈ body') :
    i ∈ body := by
  obtain ⟨⟨l', vals'⟩, hfold, heq⟩ := Option.map_eq_some_iff.mp h
  cases heq
  exact List.mem_reverse.mp (mem_of_foldStoresFrom hfold (List.mem_reverse.mp hi))

end Stores

end Instrew.Server
