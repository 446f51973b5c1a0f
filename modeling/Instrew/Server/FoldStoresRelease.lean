import Instrew.Server.SpilledFields

/-!
# Folding stores without assertions

`FoldStores` of `callconv.cc` as a release build has it, where the assertion against a
second store to a field is compiled out. The loop goes backwards and takes the value of every
store at the offset of a field, so what is passed on is the first one of the block, whatever
its size, and a store at another offset that writes a part of the field is not noticed. The
headline is `foldStoresRelease_iff`: the shapes of blocks that are folded right.
-/

namespace Instrew.Server

open Instrew.Lib
open Instrew.Lib.Cfg
open Instrew.Lib.ByteMem (Mem)

/-! ## `FoldStores` in a release build -/

/-- `FoldedStores`, with the size of each value. -/
abbrev SizedVals (n : Nat) : Type := Fin n → Option (Nat × Operand (Name n))

/-- What `GetFieldIdx` says of a store: it is at the offset of a field, it has an index that
no field has, or it is not folded. -/
inductive Slot (n : Nat) : Type where
  | field (f : Fin n)
  | outOfRange
  | other

section Pass

variable {n : Nat} {W : Type} (F : Fields n) (charSigned : Bool)

/-- The map of `CreateSptrMap` has chars, and -1 for the other bytes of a field. Where `char`
is unsigned, this is 255, and no convention has that many fields. -/
def Fields.slotAt (off : Nat) : Slot n :=
  match F.fieldIdx off with
  | some f => .field f
  | none => if (F.fieldAt off).isSome ∧ charSigned = false then .outOfRange else .other

/-- The loop of `FoldStores`; none if `vals` is accessed outside its bounds. -/
def foldStoresReleaseFrom : List (Instr (Name n) W) → SizedVals n →
    Option (List (Instr (Name n) W) × SizedVals n)
  | [], vals => some ([], vals)
  | i :: l, vals =>
      match i with
      | .helper .. | .load .. => some (i :: l, vals)
      | .store off size v =>
          match F.slotAt charSigned off with
          | .field f => foldStoresReleaseFrom l (Function.update vals f (some (size, v)))
          | .outOfRange => none
          | .other => (foldStoresReleaseFrom l vals).map (fun r => (i :: r.1, r.2))
      | .op .. | .cast .. => (foldStoresReleaseFrom l vals).map (fun r => (i :: r.1, r.2))

def foldStoresRelease (body : List (Instr (Name n) W)) :
    Option (List (Instr (Name n) W) × SizedVals n) :=
  (foldStoresReleaseFrom F charSigned body.reverse (fun _ => none)).map
    (fun r => (r.1.reverse, r.2))

end Pass

/-- The values without their sizes. -/
def SizedVals.vals {n : Nat} (sized : SizedVals n) : Vals n := fun f => (sized f).map Prod.snd

/-- **What folding is for.** Before the call or return of block `b`, the values folded or
loaded by `UpdateCallRet` are the fields the old block leaves in memory, and the rest of
memory is the same. A value of another size than its field has no valid cast. -/
structure FoldedRight {n : Nat} {W : Type} (F : Fields n) (base b : Nat) (s : State Nat W)
    (body' : List (Instr (Name n) W)) (sized : SizedVals n) (t : State (Name n) W) : Prop where
  typed : ∀ f p, sized f = some p → p.1 = F.size f
  value : ∀ f, ((sized.vals f).getD (.var (.reload b f))).eval base
      (execAll base (body' ++ reloads F b sized.vals) t).env % 256 ^ F.size f = F.value s.mem f
  mem : ∀ o, ¬ F.Mapped o →
    (execAll base (body' ++ reloads F b sized.vals) t).mem o = s.mem o

/-- Folding the block is right from every state. -/
def FoldsRight {n : Nat} {W : Type} (F : Fields n) (charSigned : Bool)
    (body : List (Instr Nat W)) : Prop :=
  ∃ body' sized, foldStoresRelease F charSigned (body.map (Instr.map .orig)) = some (body', sized) ∧
    ∀ base b (s : State Nat W) (t : State (Name n) W), Agree .orig (fun _ => False) s t →
      FoldedRight F base b (execAll base body s) body' sized t

/-! ## Shapes -/

/-- The offset and size of a store. -/
def storeShape {N W : Type} : Instr N W → Option (Nat × Nat)
  | .store off size _ => some (off, size)
  | .op .. | .cast .. | .load .. | .helper .. => none

/-- The stores of a block, without their values. -/
def shape {N W : Type} (body : List (Instr N W)) : List (Nat × Nat) := body.filterMap storeShape

/-- The store writes the byte. -/
def Writes (x : Nat × Nat) (o : Nat) : Prop := x.1 ≤ o ∧ o < x.1 + x.2

/-- The shapes that are folded right: the first store at the offset of a field has its size,
and later stores do not write it; where `char` is unsigned, no store begins in the middle of
a field. -/
structure Foldable {n : Nat} (F : Fields n) (charSigned : Bool) (sh : List (Nat × Nat)) : Prop where
  first : ∀ f pre size post, sh = pre ++ (F.off f, size) :: post → (∀ x ∈ pre, x.1 ≠ F.off f) →
    size = F.size f ∧ ∀ x ∈ post, ∀ o, F.Has f o → ¬ Writes x o
  inner : charSigned = false → ∀ x ∈ sh, F.Mapped x.1 → ∃ f, F.off f = x.1

/-! ## What is folded -/

section Folded

variable {n : Nat} {N N' W : Type} {F : Fields n} {charSigned : Bool}

/-- The value of a store at the offset of the field. -/
def storeAt (F : Fields n) (f : Fin n) : Instr N W → Option (Nat × Operand N)
  | .store off size v => if F.off f = off then some (size, v) else none
  | .op .. | .cast .. | .load .. | .helper .. => none

theorem storeAt_eq_some {f : Fin n} {i : Instr N W} {p : Nat × Operand N} :
    storeAt F f i = some p ↔ i = .store (F.off f) p.1 p.2 := by
  cases i with
  | store off size v =>
      simp only [storeAt, Instr.store.injEq]
      constructor
      · intro h
        split_ifs at h with hoff
        cases h
        exact ⟨hoff.symm, rfl, rfl⟩
      · rintro ⟨rfl, rfl, rfl⟩
        exact if_pos rfl
  | _ => simp [storeAt]

/-- Fields have different offsets. -/
theorem storeAt_off (f g : Fin n) (size : Nat) (v : Operand N) :
    storeAt F f (.store (F.off g) size v : Instr N W) = if f = g then some (size, v) else none := by
  have hinj : F.off f = F.off g ↔ f = g :=
    ⟨fun heq => Fields.has_unique (Fields.has_off F f) (heq ▸ Fields.has_off F g), fun h => h ▸ rfl⟩
  rw [storeAt, if_congr hinj rfl rfl]

theorem storeAt_map (rename : N → N') (f : Fin n) (i : Instr N W) :
    storeAt F f (i.map rename) = (storeAt F f i).map (Prod.map id (Operand.map rename)) := by
  cases i with
  | store off size v =>
      simp only [Instr.map, storeAt]
      split_ifs <;> rfl
  | _ => rfl

theorem slotAt_field {off : Nat} {f : Fin n} (h : F.fieldIdx off = some f) :
    F.slotAt charSigned off = .field f := by
  simp only [Fields.slotAt, h]

theorem slotAt_not_field {off : Nat} (h : F.fieldIdx off = none) :
    F.slotAt charSigned off =
      if (F.fieldAt off).isSome ∧ charSigned = false then .outOfRange else .other := by
  simp only [Fields.slotAt, h]

theorem slotAt_ne_outOfRange {off : Nat} : F.slotAt charSigned off ≠ .outOfRange ↔
    (charSigned = false → F.Mapped off → ∃ f, F.off f = off) := by
  cases hidx : F.fieldIdx off with
  | some f =>
      rw [slotAt_field hidx]
      exact ⟨fun _ _ _ => ⟨f, Fields.fieldIdx_eq_some.mp hidx⟩, fun _ h => nomatch h⟩
  | none =>
      rw [slotAt_not_field hidx]
      split_ifs with h
      · refine ⟨fun hne => absurd rfl hne, fun himp => ?_⟩
        obtain ⟨f, hf⟩ := himp h.2 h.1
        exact absurd hf (Fields.fieldIdx_eq_none.mp hidx f)
      · exact ⟨fun _ hsigned hmapped => absurd ⟨hmapped, hsigned⟩ h, fun _ h => nomatch h⟩

/-- One round of the loop, on an instruction that does not read the CPU struct. -/
theorem foldStoresReleaseFrom_cons {i : Instr (Name n) W} (hread : readsStruct i = false)
    (hrange : ∀ x ∈ storeShape i, F.slotAt charSigned x.1 ≠ .outOfRange)
    (l : List (Instr (Name n) W)) (acc : SizedVals n) :
    foldStoresReleaseFrom F charSigned (i :: l) acc =
      (foldStoresReleaseFrom F charSigned l (fun f => (storeAt F f i).or (acc f))).map
        (fun r => (if storesField F i then r.1 else i :: r.1, r.2)) := by
  cases i with
  | helper | load => cases hread
  | op | cast => rfl
  | store off size v =>
      have hslot := hrange (off, size) rfl
      cases hidx : F.fieldIdx off with
      | some f =>
          have hvals : (fun g => (storeAt F g (.store off size v : Instr (Name n) W)).or (acc g)) =
              Function.update acc f (some (size, v)) := by
            funext g
            by_cases hg : g = f
            · rw [hg, Function.update_self, storeAt, if_pos (Fields.fieldIdx_eq_some.mp hidx)]
              rfl
            · have hne : F.off g ≠ off := fun h =>
                hg (Option.some.inj ((Fields.fieldIdx_eq_some.mpr h).symm.trans hidx))
              rw [Function.update_of_ne hg, storeAt, if_neg hne]
              rfl
          simp only [foldStoresReleaseFrom, slotAt_field hidx, hvals, storesField, hidx,
            Option.isSome_some, if_true, Option.map_id']
      | none =>
          have hvals : (fun g => (storeAt F g (.store off size v : Instr (Name n) W)).or (acc g)) =
              acc := by
            funext g
            rw [storeAt, if_neg (Fields.fieldIdx_eq_none.mp hidx g)]
            rfl
          have hother : F.slotAt charSigned off = .other := by
            rw [slotAt_not_field hidx] at hslot ⊢
            split_ifs at hslot ⊢
            · exact absurd rfl hslot
            · rfl
          simp only [foldStoresReleaseFrom, hother, hvals, storesField, hidx, Option.isSome_none,
            Bool.false_eq_true, if_false]

/-- **What a release build folds.** The stores at the offsets of fields are gone, and the value
of a field is that of the first one. -/
theorem foldStoresRelease_eq {body : List (Instr (Name n) W)}
    (hread : ∀ i ∈ body, readsStruct i = false)
    (hrange : ∀ x ∈ shape body, F.slotAt charSigned x.1 ≠ .outOfRange) :
    foldStoresRelease F charSigned body =
      some (body.filter (fun i => !storesField F i), fun f => body.findSome? (storeAt F f)) := by
  -- backwards, with the values of later stores
  have hloop : ∀ (l : List (Instr (Name n) W)) (acc : SizedVals n),
      (∀ i ∈ l, readsStruct i = false) →
      (∀ i ∈ l, ∀ x ∈ storeShape i, F.slotAt charSigned x.1 ≠ .outOfRange) →
      foldStoresReleaseFrom F charSigned l acc = some (l.filter (fun i => !storesField F i),
        fun f => (l.reverse.findSome? (storeAt F f)).or (acc f)) := by
    intro l
    induction l with
    | nil => exact fun acc _ _ => rfl
    | cons i l ih =>
        intro acc hread hrange
        rw [foldStoresReleaseFrom_cons (hread i List.mem_cons_self) (hrange i List.mem_cons_self),
          ih _ (fun j hj => hread j (List.mem_cons_of_mem i hj))
            (fun j hj => hrange j (List.mem_cons_of_mem i hj)), List.filter_cons]
        simp only [Option.map_some, List.reverse_cons, List.findSome?_append, Option.or_assoc,
          List.findSome?_singleton]
        cases storesField F i <;> rfl
  have hbody := hloop body.reverse (fun _ => none)
    (fun i hi => hread i (List.mem_reverse.mp hi))
    (fun i hi x hx => hrange x (List.mem_filterMap.mpr ⟨i, List.mem_reverse.mp hi, hx⟩))
  rw [foldStoresRelease, hbody]
  simp only [Option.map_some, List.reverse_reverse, List.filter_reverse, Option.or_none]

/-- A release build that folds a block has found no index out of range. -/
theorem range_of_foldStoresRelease {body : List (Instr (Name n) W)}
    (hread : ∀ i ∈ body, readsStruct i = false)
    (h : (foldStoresRelease F charSigned body).isSome) :
    ∀ x ∈ shape body, F.slotAt charSigned x.1 ≠ .outOfRange := by
  have hloop : ∀ (l : List (Instr (Name n) W)) (acc : SizedVals n),
      (∀ i ∈ l, readsStruct i = false) → (foldStoresReleaseFrom F charSigned l acc).isSome →
      ∀ i ∈ l, ∀ x ∈ storeShape i, F.slotAt charSigned x.1 ≠ .outOfRange := by
    intro l
    induction l with
    | nil => exact fun _ _ _ i hi => absurd hi List.not_mem_nil
    | cons i l ih =>
        intro acc hread hsome
        have hi : ∀ x ∈ storeShape i, F.slotAt charSigned x.1 ≠ .outOfRange := by
          intro x hx hout
          cases i with
          | store off size v =>
              cases hx
              simp only [foldStoresReleaseFrom, hout] at hsome
              cases hsome
          | _ => cases hx
        rw [foldStoresReleaseFrom_cons (hread i List.mem_cons_self) hi, Option.isSome_map] at hsome
        intro j hj
        rcases List.mem_cons.mp hj with rfl | hj
        · exact hi
        · exact ih _ (fun j hj => hread j (List.mem_cons_of_mem i hj)) hsome j hj
  rw [foldStoresRelease, Option.isSome_map] at h
  intro x hx
  obtain ⟨i, hi, hx⟩ := List.mem_filterMap.mp hx
  exact hloop body.reverse _ (fun i hi => hread i (List.mem_reverse.mp hi)) h i
    (List.mem_reverse.mpr hi) x hx

/-- Where no assertion fails, the release build folds the same, with signed chars. -/
theorem foldStores_release {body body' : List (Instr (Name n) W)} {vals : Vals n}
    (h : foldStores F body = some (body', vals)) :
    ∃ sized, foldStoresRelease F true body = some (body', sized) ∧ sized.vals = vals := by
  have hloop : ∀ (l l' : List (Instr (Name n) W)) (acc : SizedVals n) (vals : Vals n),
      foldStoresFrom F l acc.vals = some (l', vals) →
      ∃ sized, foldStoresReleaseFrom F true l acc = some (l', sized) ∧ sized.vals = vals := by
    intro l
    induction l with
    | nil =>
        intro l' acc vals h
        cases h
        exact ⟨acc, rfl, rfl⟩
    | cons i l ih =>
        intro l' acc vals h
        have hkept : (foldStoresFrom F l acc.vals).map (fun r => (i :: r.1, r.2)) = some (l', vals) →
            ∃ sized, (foldStoresReleaseFrom F true l acc).map (fun r => (i :: r.1, r.2)) =
              some (l', sized) ∧ sized.vals = vals := by
          intro hmap
          obtain ⟨⟨l'', vals'⟩, hrest, heq⟩ := Option.map_eq_some_iff.mp hmap
          cases heq
          obtain ⟨sized, hsized, hvals⟩ := ih l'' acc vals' hrest
          exact ⟨sized, by rw [hsized]; rfl, hvals⟩
        cases i with
        | helper | load =>
            cases h
            exact ⟨acc, rfl, rfl⟩
        | op | cast => exact hkept h
        | store off size v =>
            cases hidx : F.fieldIdx off with
            | none =>
                have hother : F.slotAt true off = .other := by
                  rw [slotAt_not_field hidx]
                  exact if_neg (fun h => nomatch h.2)
                simp only [foldStoresFrom, hidx] at h
                simp only [foldStoresReleaseFrom, hother]
                exact hkept h
            | some f =>
                simp only [foldStoresFrom, hidx] at h
                simp only [foldStoresReleaseFrom, slotAt_field hidx]
                split_ifs at h
                refine ih l' _ vals ?_
                rw [← h]
                congr 1
                funext g
                by_cases hg : g = f
                · simp [SizedVals.vals, hg]
                · simp [SizedVals.vals, hg]
  rw [foldStores] at h
  obtain ⟨⟨l', vals'⟩, hfold, heq⟩ := Option.map_eq_some_iff.mp h
  cases heq
  obtain ⟨sized, hsized, hvals⟩ := hloop _ l' (fun _ => none) vals' hfold
  exact ⟨sized, by rw [foldStoresRelease, hsized]; rfl, hvals⟩

end Folded

/-! ## The first store to a field -/

section First

variable {n : Nat} {N W : Type} {F : Fields n} {charSigned : Bool} {f : Fin n}

@[simp] theorem shape_append (l l' : List (Instr N W)) : shape (l ++ l') = shape l ++ shape l' :=
  List.filterMap_append

@[simp] theorem shape_store_cons (off size : Nat) (v : Operand N) (l : List (Instr N W)) :
    shape (.store off size v :: l) = (off, size) :: shape l := rfl

theorem shape_map {N' : Type} (rename : N → N') (l : List (Instr N W)) :
    shape (l.map (Instr.map rename)) = shape l := by
  rw [shape, List.filterMap_map]
  congr 1
  funext i
  cases i <;> rfl

/-- A block around the first store to a field. -/
theorem exists_first_store {body : List (Instr N W)} {p : Nat × Operand N}
    (h : body.findSome? (storeAt F f) = some p) :
    ∃ pre post, body = pre ++ .store (F.off f) p.1 p.2 :: post ∧ ∀ x ∈ shape pre, x.1 ≠ F.off f := by
  obtain ⟨pre, i, post, rfl, hi, hpre⟩ := List.findSome?_eq_some_iff.mp h
  refine ⟨pre, post, by rw [← storeAt_eq_some.mp hi], fun x hx hoff => ?_⟩
  obtain ⟨j, hj, hshape⟩ := List.mem_filterMap.mp hx
  have hnone := hpre j hj
  cases j with
  | store off size v =>
      cases hshape
      rw [storeAt, if_pos hoff.symm] at hnone
      cases hnone
  | _ => cases hshape

theorem findSome?_storeAt_map {N' : Type} (rename : N → N') (body : List (Instr N W)) :
    (body.map (Instr.map rename)).findSome? (storeAt F f) =
      (body.findSome? (storeAt F f)).map (Prod.map id (Operand.map rename)) := by
  rw [List.findSome?_map, List.map_findSome?]
  congr 1
  funext i
  exact storeAt_map rename f i

namespace Foldable

theorem left {sh sh' : List (Nat × Nat)} (h : Foldable F charSigned (sh ++ sh')) :
    Foldable F charSigned sh where
  first := by
    rintro f pre size post rfl hpre
    obtain ⟨hsize, hpost⟩ := h.first f pre size (post ++ sh') (by simp) hpre
    exact ⟨hsize, fun x hx => hpost x (List.mem_append_left sh' hx)⟩
  inner := fun hsigned x hx => h.inner hsigned x (List.mem_append_left sh' hx)

theorem size_eq {body : List (Instr N W)} (h : Foldable F charSigned (shape body))
    {p : Nat × Operand N} (hp : body.findSome? (storeAt F f) = some p) : p.1 = F.size f := by
  obtain ⟨pre, post, rfl, hpre⟩ := exists_first_store hp
  exact (h.first f (shape pre) p.1 (shape post) (by simp) hpre).1

/-- A store after the first one to a field does not write the field. -/
theorem not_writes {body : List (Instr N W)} {off size : Nat} {v : Operand N}
    (h : Foldable F charSigned (shape (body ++ [.store off size v])))
    (hf : (body.findSome? (storeAt F f)).isSome) {o : Nat} (ho : F.Has f o) :
    ¬ Writes (off, size) o := by
  obtain ⟨p, hp⟩ := Option.isSome_iff_exists.mp hf
  obtain ⟨pre, post, rfl, hpre⟩ := exists_first_store hp
  refine (h.first f (shape pre) p.1 (shape post ++ [(off, size)]) ?_ hpre).2 (off, size) ?_ o ho
  · simp [shape, storeShape]
  · exact List.mem_append_right _ List.mem_cons_self

end Foldable

end First

/-! ## Foldable blocks are folded right -/

section Right

variable {n : Nat} {W : Type} {F : Fields n} {charSigned : Bool} {base : Nat}

/-- The values that are folded. -/
def firstVals (F : Fields n) (body : List (Instr Nat W)) : Vals n :=
  fun f => (body.findSome? (storeAt F f)).map (fun p => p.2.map .orig)

theorem store_zero (m : Mem) (off v : Nat) : ByteMem.store m off 0 v = m := by
  funext o
  exact ByteMem.store_of_not_mem (by omega)

theorem firstVals_append (body : List (Instr Nat W)) (i : Instr Nat W) (f : Fin n) :
    firstVals F (body ++ [i]) f =
      (firstVals F body f).or ((storeAt F f i).map (fun p => p.2.map .orig)) := by
  rw [firstVals, firstVals, List.findSome?_append, List.findSome?_singleton]
  cases body.findSome? (storeAt F f) <;> rfl

/-- An instruction that is not at the offset of a field folds nothing. -/
theorem firstVals_of_storeAt_none (body : List (Instr Nat W)) {i : Instr Nat W}
    (h : ∀ f, storeAt F f i = none) : firstVals F (body ++ [i]) = firstVals F body := by
  funext f
  rw [firstVals_append, h f, Option.map_none, Option.or_none]

theorem firstVals_isSome {body : List (Instr Nat W)} {f : Fin n} :
    (firstVals F body f).isSome = (body.findSome? (storeAt F f)).isSome := Option.isSome_map

/-- A folded value is not computed again. -/
theorem firstVals_eval {body : List (Instr Nat W)} {i : Instr Nat W} (hord : Ordered (body ++ [i]))
    {f : Fin n} {v : Operand (Name n)} (hv : firstVals F body f = some v) (t : State (Name n) W) :
    v.eval base ((i.map .orig).next base t).env = v.eval base t.env := by
  obtain ⟨p, hp, rfl⟩ := Option.map_eq_some_iff.mp hv
  obtain ⟨pre, post, rfl, -⟩ := exists_first_store hp
  exact hord.eval_last orig_injective
    (List.mem_append_right pre List.mem_cons_self) t

theorem storesField_orig (i : Instr Nat W) :
    storesField F (i.map .orig) = (storedField F i).isSome := by
  cases i <;> rfl

theorem storedField_eq_some {i : Instr Nat W} {g : Fin n} (h : storedField F i = some g) :
    ∃ size u, i = .store (F.off g) size u := by
  cases i with
  | store off size u => exact ⟨size, u, by rw [Fields.fieldIdx_eq_some.mp h]⟩
  | _ => cases h

theorem storeAt_of_storedField_none {i : Instr Nat W} (h : storedField F i = none) (f : Fin n) :
    storeAt F f i = none := by
  cases i with
  | store off size u => exact if_neg (Fields.fieldIdx_eq_none.mp h f)
  | _ => rfl

theorem avoids_of_not_reads {i : Instr Nat W} (h : readsStruct i = false) (D : Nat → Prop) :
    i.Avoids D := by
  cases i with
  | helper | load => cases h
  | op | cast | store => trivial

/-- The values after one more store to a field. -/
theorem firstVals_store (body : List (Instr Nat W)) (g : Fin n) (size : Nat) (u : Operand Nat) :
    firstVals F (body ++ [.store (F.off g) size u]) =
      if (firstVals F body g).isSome then firstVals F body
      else Function.update (firstVals F body) g (some (u.map .orig)) := by
  funext f
  rw [firstVals_append, storeAt_off]
  by_cases hf : f = g
  · subst hf
    cases hfirst : firstVals F body f with
    | none => simp
    | some v => simp [hfirst]
  · split_ifs <;> simp [hf]

/-- **The old block and the folded one, side by side.** The induction goes over the block from
its beginning; a store to a field that has a value already is one of no bytes. -/
theorem Foldable.storesFolded {body : List (Instr Nat W)}
    (h : Foldable F charSigned (shape body)) (base : Nat) (hread : ∀ i ∈ body, readsStruct i = false)
    (hord : Ordered body) {s : State Nat W} {t : State (Name n) W}
    (hagree : Agree .orig (fun _ => False) s t) :
    StoresFolded F base .orig (fun _ => False) (firstVals F body) (execAll base body s)
      (execAll base ((body.map (Instr.map .orig)).filter (fun i => !storesField F i)) t) := by
  induction body using List.reverseRecOn with
  | nil => exact Agree.storesFolded hagree
  | append_singleton body i ih =>
      have hbody := ih (shape_append body [i] ▸ h).left
        (fun j hj => hread j (List.mem_append_left [i] hj)) hord.left
      rw [List.map_append, List.filter_append, execAll_append, execAll_append, List.map_singleton,
        List.filter_singleton, storesField_orig]
      cases hstored : storedField F i with
      | none =>
          rw [firstVals_of_storeAt_none body (storeAt_of_storedField_none hstored)]
          have hi := avoids_of_not_reads (hread i (List.mem_append_right body List.mem_cons_self))
          refine hbody.next orig_injective hi (fun f hf o ho => ?_)
            (fun f v hv => firstVals_eval hord hv _)
          cases i with
          | op | cast | load => trivial
          | helper => exact absurd trivial (hi (fun _ => True) o)
          | store off size u => exact h.not_writes (firstVals_isSome ▸ hf) ho
      | some g =>
          obtain ⟨size, u, rfl⟩ := storedField_eq_some hstored
          rw [firstVals_store]
          split_ifs with hg
          · -- the store writes no byte of the field, and it is at its offset
            have hnot := h.not_writes (firstVals_isSome ▸ hg) (Fields.has_off F g)
            have hsize : size = 0 := by
              simp only [Writes] at hnot
              omega
            rw [hsize]
            simp only [execAll, Instr.next, store_zero]
            exact hbody
          · have hfirst : (body ++ [Instr.store (F.off g) size u]).findSome? (storeAt F g) =
                some (size, u) := by
              rw [firstVals_isSome, Option.not_isSome_iff_eq_none] at hg
              rw [List.findSome?_append, hg, List.findSome?_singleton, storeAt_off, if_pos rfl]
              rfl
            obtain rfl : size = F.size g := h.size_eq hfirst
            exact hbody.store u

theorem SizedVals.vals_orig (body : List (Instr Nat W)) :
    SizedVals.vals (fun f => (body.map (Instr.map .orig)).findSome? (storeAt F f)) =
      firstVals F body := by
  funext f
  rw [SizedVals.vals, findSome?_storeAt_map, Option.map_map]
  rfl

theorem reads_orig {body : List (Instr Nat W)} (h : ∀ i ∈ body, readsStruct i = false) :
    ∀ i ∈ body.map (Instr.map (Name.orig (n := n))), readsStruct i = false := by
  intro i hi
  obtain ⟨j, hj, rfl⟩ := List.mem_map.mp hi
  have hread := h j hj
  cases j <;> exact hread

/-- A block of a foldable shape is folded right. -/
theorem Foldable.foldsRight {body : List (Instr Nat W)} (h : Foldable F charSigned (shape body))
    (hread : ∀ i ∈ body, readsStruct i = false) (hord : Ordered body) :
    FoldsRight F charSigned body := by
  refine ⟨_, _, foldStoresRelease_eq (reads_orig hread) ?_, fun base b s t hagree => ?_⟩
  · intro x hx
    rw [shape_map] at hx
    exact slotAt_ne_outOfRange.mpr (fun hsigned => h.inner hsigned x hx)
  · have hfolded := h.storesFolded base hread hord hagree
    have hvals : ∀ f v, firstVals F body f = some v → ∃ u, v = Operand.map .orig u := by
      intro f v hv
      obtain ⟨p, -, rfl⟩ := Option.map_eq_some_iff.mp hv
      exact ⟨p.2, rfl⟩
    obtain ⟨hreloads, hmissing⟩ := reloads_folded hvals b hfolded
    constructor
    case typed =>
      intro f p hp
      rw [findSome?_storeAt_map] at hp
      obtain ⟨q, hq, rfl⟩ := Option.map_eq_some_iff.mp hp
      exact h.size_eq hq
    case value =>
      intro f
      rw [SizedVals.vals_orig, execAll_append]
      cases hf : firstVals F body f with
      | none =>
          rw [Option.getD_none, Operand.eval, hmissing f hf]
          exact ByteMem.load_mod _ _ _
      | some v => exact (hreloads.value f v hf).symm
    case mem =>
      intro o ho
      rw [SizedVals.vals_orig, execAll_append]
      refine hreloads.agree.mem o ?_
      rintro (hF | ⟨f, -, hf⟩)
      · exact hF
      · exact ho (Fields.mapped_iff.mpr ⟨f, hf⟩)

end Right

/-! ## Other shapes are not -/

section Wrong

variable {n : Nat} {F : Fields n} {charSigned : Bool}

/-- Stores of ones. -/
def onesStores (sh : List (Nat × Nat)) : List (Instr Nat Unit) :=
  sh.map (fun x => .store x.1 x.2 (.const (2 ^ (8 * x.2) - 1)))

theorem shape_onesStores (sh : List (Nat × Nat)) : shape (onesStores sh) = sh := by
  rw [shape, onesStores, List.filterMap_map]
  exact List.filterMap_some

theorem byte_ones {size j : Nat} (hj : j < size) : ByteMem.byte (2 ^ (8 * size) - 1) j = 255#8 := by
  apply BitVec.eq_of_getLsbD_eq
  intro i hi
  have hones : ∀ k : Fin 8, (255#8).getLsbD k = true := by decide
  rw [ByteMem.getLsbD_byte _ _ hi, Nat.testBit_two_pow_sub_one, hones ⟨i, hi⟩,
    decide_eq_true_iff]
  omega

/-- Every byte they write is 255. -/
theorem onesStores_mem (base : Nat) {o : Nat} : ∀ (sh : List (Nat × Nat)) (s : State Nat Unit),
    (∃ x ∈ sh, Writes x o) ∨ s.mem o = 255#8 → (execAll base (onesStores sh) s).mem o = 255#8
  | [], s, h => by
      rcases h with ⟨x, hx, -⟩ | h
      · cases hx
      · exact h
  | x :: sh, s, h => by
      refine onesStores_mem base sh _ ?_
      by_cases hx : Writes x o
      · right
        refine (ByteMem.store_of_mem hx).trans (byte_ones ?_)
        simp only [Writes] at hx
        omega
      · rcases h with ⟨y, hy, hwrites⟩ | h
        · rcases List.mem_cons.mp hy with rfl | hy
          · exact absurd hwrites hx
          · exact .inl ⟨y, hy, hwrites⟩
        · exact .inr ((ByteMem.store_of_not_mem hx).trans h)

/-- A block of stores of ones, and of 0 in one place. -/
def oneZero (pre : List (Nat × Nat)) (off size : Nat) (post : List (Nat × Nat)) :
    List (Instr Nat Unit) :=
  onesStores pre ++ .store off size (.const 0) :: onesStores post

theorem shape_oneZero (pre : List (Nat × Nat)) (off size : Nat) (post : List (Nat × Nat)) :
    shape (oneZero pre off size post) = pre ++ (off, size) :: post := by
  rw [oneZero, shape_append, shape_store_cons, shape_onesStores, shape_onesStores]

/-- Stores of constants are in SSA order, whatever they are. -/
theorem ordered_constStores {W : Type} : ∀ {l : List (Instr Nat W)},
    (∀ i ∈ l, ∃ off size c, i = .store off size (.const c)) → Ordered l
  | [], _ => trivial
  | i :: l, h => by
      obtain ⟨off, size, c, rfl⟩ := h i List.mem_cons_self
      exact ⟨fun x hx => absurd hx List.not_mem_nil,
        ordered_constStores (fun j hj => h j (List.mem_cons_of_mem _ hj))⟩

theorem mem_onesStores {sh : List (Nat × Nat)} {i : Instr Nat Unit} (hi : i ∈ onesStores sh) :
    ∃ off size c, i = .store off size (.const c) := by
  obtain ⟨x, -, rfl⟩ := List.mem_map.mp hi
  exact ⟨_, _, _, rfl⟩

theorem mem_oneZero {pre post : List (Nat × Nat)} {off size : Nat} {i : Instr Nat Unit}
    (hi : i ∈ oneZero pre off size post) : ∃ off size c, i = .store off size (.const c) := by
  rcases List.mem_append.mp hi with hi | hi
  · exact mem_onesStores hi
  · rcases List.mem_cons.mp hi with rfl | hi
    · exact ⟨_, _, _, rfl⟩
    · exact mem_onesStores hi

/-- The zero is what is folded. -/
theorem findSome?_oneZero {f : Fin n} {pre : List (Nat × Nat)} (hpre : ∀ x ∈ pre, x.1 ≠ F.off f)
    (size : Nat) (post : List (Nat × Nat)) :
    (oneZero pre (F.off f) size post).findSome? (storeAt F f) = some (size, .const 0) := by
  have hnone : (onesStores pre).findSome? (storeAt F f) = none := by
    rw [List.findSome?_eq_none_iff]
    intro i hi
    obtain ⟨x, hx, rfl⟩ := List.mem_map.mp hi
    exact if_neg (hpre x hx).symm
  rw [oneZero, List.findSome?_append, hnone, List.findSome?_cons, storeAt_off, if_pos rfl]
  rfl

/-- A block that is folded right is folded as `foldStoresRelease_eq` says. -/
theorem FoldsRight.folded {W : Type} {body : List (Instr Nat W)}
    (h : FoldsRight F charSigned body) (hread : ∀ i ∈ body, readsStruct i = false) :
    (∀ x ∈ shape body, charSigned = false → F.Mapped x.1 → ∃ f, F.off f = x.1) ∧
    ∀ base b (s : State Nat W) (t : State (Name n) W), Agree .orig (fun _ => False) s t →
      FoldedRight F base b (execAll base body s)
        ((body.map (Instr.map .orig)).filter (fun i => !storesField F i))
        (fun f => (body.map (Instr.map .orig)).findSome? (storeAt F f)) t := by
  obtain ⟨body', sized, hfold, hall⟩ := h
  have hrange := range_of_foldStoresRelease (reads_orig hread) (by rw [hfold]; rfl)
  refine ⟨fun x hx => slotAt_ne_outOfRange.mp (hrange x (by rwa [shape_map])), ?_⟩
  rw [foldStoresRelease_eq (reads_orig hread) hrange] at hfold
  cases hfold
  exact hall

/-- A store of 0, folded right, has the size of the field, and nothing writes the field after
it. -/
theorem FoldsRight.zero_first {f : Fin n} {pre : List (Nat × Nat)} {size : Nat}
    {post : List (Nat × Nat)} (hpre : ∀ x ∈ pre, x.1 ≠ F.off f)
    (h : FoldsRight F charSigned (oneZero pre (F.off f) size post)) :
    size = F.size f ∧ ∀ x ∈ post, ∀ o, F.Has f o → ¬ Writes x o := by
  have hread : ∀ i ∈ oneZero pre (F.off f) size post, readsStruct i = false := by
    intro i hi
    obtain ⟨_, _, _, rfl⟩ := mem_oneZero hi
    rfl
  obtain ⟨htyped, hvalue, -⟩ := (h.folded hread).2 0 0 ⟨fun _ => 0, fun _ => 0#8, (), 0⟩
    ⟨fun _ => 0, fun _ => 0#8, (), 0⟩ ⟨fun _ => rfl, fun _ _ => rfl, rfl, rfl⟩
  have hfirst : ((oneZero pre (F.off f) size post).map (Instr.map (Name.orig (n := n)))).findSome?
      (storeAt F f) = some (size, .const 0) := by
    rw [findSome?_storeAt_map, findSome?_oneZero hpre]
    rfl
  refine ⟨htyped f _ hfirst, fun x hx o ho hwrites => ?_⟩
  have hzero := hvalue f
  simp only [SizedVals.vals, hfirst, Option.map_some, Option.getD_some, Operand.eval,
    Nat.zero_mod] at hzero
  -- the byte is 0 in the value that is passed, and 255 in memory
  have hbyte := ByteMem.byte_load o ho.1 ho.2 (m := (execAll 0 (oneZero pre (F.off f) size post)
    (⟨fun _ => 0, fun _ => 0#8, (), 0⟩ : State Nat Unit)).mem)
  rw [Fields.value] at hzero
  rw [← hzero, oneZero, execAll_append, execAll,
    onesStores_mem 0 post _ (.inl ⟨x, hx, hwrites⟩), ByteMem.byte, Nat.zero_div] at hbyte
  cases hbyte

end Wrong

/-- **Which shapes of blocks are folded right.** Whatever the values of the stores, a block is
folded right exactly when the first store at the offset of each field has the size of the
field and later stores do not write the field, and, where `char` is unsigned, no store begins
in the middle of a field. -/
theorem foldStoresRelease_iff {n : Nat} (F : Fields n) (charSigned : Bool)
    (sh : List (Nat × Nat)) :
    (∀ (W : Type) (body : List (Instr Nat W)), shape body = sh →
      (∀ i ∈ body, readsStruct i = false) → Ordered body → FoldsRight F charSigned body) ↔
    Foldable F charSigned sh := by
  constructor
  · intro hall
    constructor
    case first =>
      rintro f pre size post rfl hpre
      refine (hall Unit (oneZero pre (F.off f) size post) (shape_oneZero _ _ _ _) ?_ ?_).zero_first hpre
      · intro i hi
        obtain ⟨_, _, _, rfl⟩ := mem_oneZero hi
        rfl
      · exact ordered_constStores (fun i hi => mem_oneZero hi)
    case inner =>
      intro hsigned x hx
      have hread : ∀ i ∈ onesStores sh, readsStruct i = false := by
        intro i hi
        obtain ⟨_, _, _, rfl⟩ := mem_onesStores hi
        rfl
      have hright := hall Unit (onesStores sh) (shape_onesStores sh) hread
        (ordered_constStores (fun i hi => mem_onesStores hi))
      exact (hright.folded hread).1 x (by rwa [shape_onesStores]) hsigned
  · rintro h W body rfl hread hord
    exact h.foldsRight hread hord

/-- A block that stores the PC twice. -/
def pcStoredTwice : List (Instr Nat Unit) := [.store 0 8 (.const 1), .store 0 8 (.const 2)]

/-- The first PC is passed on. -/
theorem pcStoredTwice_misfolded : Ordered pcStoredTwice ∧
    (∀ i ∈ pcStoredTwice, readsStruct i = false) ∧
    ∀ charSigned, ¬ FoldsRight CallConv.rv64Rv64Lp64.sptrFields charSigned pcStoredTwice := by
  have hread : ∀ i ∈ pcStoredTwice, readsStruct i = false := by
    intro i hi
    simp only [pcStoredTwice, List.mem_cons, List.not_mem_nil, or_false] at hi
    rcases hi with rfl | rfl <;> rfl
  refine ⟨?_, hread, fun charSigned h => ?_⟩
  · refine ordered_constStores (fun i hi => ?_)
    simp only [pcStoredTwice, List.mem_cons, List.not_mem_nil, or_false] at hi
    rcases hi with rfl | rfl <;> exact ⟨_, _, _, rfl⟩
  · have hvalue := ((h.folded hread).2 0 0 ⟨fun _ => 0, fun _ => 0#8, (), 0⟩
      ⟨fun _ => 0, fun _ => 0#8, (), 0⟩ ⟨fun _ => rfl, fun _ _ => rfl, rfl, rfl⟩).value
      ⟨0, by decide⟩
    revert hvalue
    decide

end Instrew.Server
