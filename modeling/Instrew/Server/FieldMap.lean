import Instrew.Client.Reloc
import Instrew.Server.FoldStoresRelease

/-!
# The map of field offsets

`CreateSptrMap` of `callconv.cc` and its three uses. The map has a `char` for each byte of the
CPU struct: the number of the field that begins there, -1 inside of a field, and 0 elsewhere.
The users ask for the sign. Where `char` is unsigned, the -1 is read as 255: a byte inside of a
field is taken for the beginning of field 254.

`fieldMap_classified_iff` says where the map is right. `slotAt_eq` connects it with the model of
`FoldStores`.
-/

namespace Instrew.Server

open Client (Host)

def sptrMaxCnt : Nat := 16
def sptrMaxOff : Nat := 0x1a0

/-! ## The map -/

/-- `for (unsigned j = ...; j < field.offset + field.size; j++) res[j] = -1`, by the number of
rounds. -/
def markInside (res : Nat → Byte) (j : Nat) : Nat → Nat → Byte
  | 0 => res
  | rounds + 1 => markInside (Function.update res j (-1)) (j + 1) rounds

def markField (res : Nat → Byte) (i : Nat) (field : SptrField) : Nat → Byte :=
  markInside (Function.update res field.offset (BitVec.ofNat 8 (i + 1))) (field.offset + 1)
    (field.size - 1)

/-- `CreateSptrMap` -/
def createSptrMap (fields : List SptrField) : Nat → Byte :=
  fields.zipIdx.foldl (fun res p => markField res p.2 p.1) fun _ => 0#8

/-- Plain `char` on the hosts of the server. -/
def charSigned : Host → Bool
  | .x86_64 => true
  | .aarch64 | .riscv => false

def charValue (host : Host) (c : Byte) : Int := if charSigned host then c.toInt else c.toNat

/-- `GetFieldIdx` -/
def getFieldIdx (host : Host) (fieldmap : Nat → Byte) (idx : Nat) : Int :=
  if idx < sptrMaxOff then charValue host (fieldmap idx) else 0

/-! ## Its users -/

/-- The element of `fields` for a load in `FoldLoads`. -/
def foldLoadsIdx (host : Host) (fieldmap : Nat → Byte) (off : Nat) : Option Nat :=
  if getFieldIdx host fieldmap off ≤ 0 then none
  else some (charValue host (fieldmap off) - 1).toNat

/-- The element of `vals` for a store in `FoldStores`. -/
def foldStoresIdx (host : Host) (fieldmap : Nat → Byte) (off : Nat) : Option Nat :=
  let fieldidx := getFieldIdx host fieldmap off
  if 0 < fieldidx then some (fieldidx - 1).toNat else none

/-- The element of `fields` for a store in the escape analysis. -/
def escapeIdx (host : Host) (fieldmap : Nat → Byte) (off : Nat) : Option Nat :=
  if sptrMaxOff ≤ off then none
  else
    let fieldidx := getFieldIdx host fieldmap off
    if fieldidx ≤ 0 then none else some (fieldidx - 1).toNat

/-! ## What it is for -/

namespace Fields

variable {n : Nat} (F : Fields n)

def map : Nat → Byte := createSptrMap (List.ofFn F.field)

/-- The byte is in a field, but not its first one. -/
def Inside (i : Fin n) (o : Nat) : Prop := F.off i < o ∧ o < F.off i + F.size i

instance (i : Fin n) (o : Nat) : Decidable (F.Inside i o) := inferInstanceAs (Decidable (_ ∧ _))

/-- **What is demanded of the map at an offset**, and of the indices that are used. -/
structure Classified (host : Host) (off : Nat) : Prop where
  start : 0 < getFieldIdx host F.map off ↔ ∃ i, F.off i = off
  index : ∀ i, F.off i = off → getFieldIdx host F.map off = i + 1
  inside : getFieldIdx host F.map off < 0 ↔ ∃ i, F.Inside i off
  outside : getFieldIdx host F.map off = 0 ↔ ¬ F.Mapped off
  loads : ∀ k, foldLoadsIdx host F.map off = some k → k < n
  stores : ∀ k, foldStoresIdx host F.map off = some k → k < n
  escapes : ∀ k, escapeIdx host F.map off = some k → k < n

end Fields

/-! ## Filling the map -/

/-- The byte at `o` is part of the field. -/
def Covers (field : SptrField) (o : Nat) : Prop :=
  field.offset ≤ o ∧ o < field.offset + field.size

/-- What is stored for the field with number `i`. -/
def entry (field : SptrField) (i o : Nat) : Byte :=
  if o = field.offset then BitVec.ofNat 8 (i + 1) else -1

theorem markInside_apply (rounds : Nat) : ∀ (res : Nat → Byte) (j o : Nat),
    markInside res j rounds o = if j ≤ o ∧ o < j + rounds then -1 else res o := by
  induction rounds with
  | zero =>
      intro res j o
      rw [if_neg (by omega)]
      rfl
  | succ rounds ih =>
      intro res j o
      rw [markInside, ih, Function.update_apply]
      rcases eq_or_ne o j with rfl | hne
      · rw [if_neg (by omega), if_pos rfl, if_pos (by omega)]
      · rw [if_neg hne]
        exact if_congr (by omega) rfl rfl

section Field

variable {res : Nat → Byte} {i o : Nat} {field : SptrField}

theorem markField_of_covers (h : Covers field o) : markField res i field o = entry field i o := by
  unfold Covers at h
  rw [markField, markInside_apply, Function.update_apply, entry]
  by_cases ho : o = field.offset
  · rw [if_neg (by omega), if_pos ho, if_pos ho]
  · rw [if_pos (by omega), if_neg ho]

theorem markField_of_not_covers (hpos : 0 < field.size) (h : ¬ Covers field o) :
    markField res i field o = res o := by
  unfold Covers at h
  rw [markField, markInside_apply, Function.update_apply, if_neg (by omega), if_neg (by omega)]

end Field

theorem createSptrMap_append (fields : List SptrField) (field : SptrField) :
    createSptrMap (fields ++ [field]) = markField (createSptrMap fields) fields.length field := by
  unfold createSptrMap
  rw [List.zipIdx_append, List.foldl_append, Nat.zero_add]
  rfl

theorem createSptrMap_of_not_covers {fields : List SptrField} {o : Nat}
    (hpos : ∀ field ∈ fields, 0 < field.size) (h : ∀ field ∈ fields, ¬ Covers field o) :
    createSptrMap fields o = 0#8 := by
  induction fields using List.reverseRecOn with
  | nil => rfl
  | append_singleton fields last ih =>
      have hlast : last ∈ fields ++ [last] := List.mem_append_right _ List.mem_cons_self
      rw [createSptrMap_append, markField_of_not_covers (hpos last hlast) (h last hlast)]
      apply ih
      · exact fun field hmem => hpos field (List.mem_append_left _ hmem)
      · exact fun field hmem => h field (List.mem_append_left _ hmem)

/-- A later field does not overwrite the entries of an earlier one. -/
theorem createSptrMap_of_covers {fields : List SptrField} {o : Nat}
    (hpos : ∀ field ∈ fields, 0 < field.size)
    (hapart : fields.Pairwise fun f g => ∀ o, Covers f o → ¬ Covers g o) :
    ∀ {k : Nat} {field : SptrField}, fields[k]? = some field → Covers field o →
      createSptrMap fields o = entry field k o := by
  induction fields using List.reverseRecOn with
  | nil =>
      intro k field hk
      rw [List.getElem?_nil] at hk
      cases hk
  | append_singleton fields last ih =>
      intro k field hk hcovers
      obtain ⟨hinit, -, hlast⟩ := List.pairwise_append.mp hapart
      rw [createSptrMap_append]
      rcases Nat.lt_or_ge k fields.length with hlt | hge
      · rw [List.getElem?_append_left hlt] at hk
        have hmem : field ∈ fields := List.mem_of_getElem? hk
        rw [markField_of_not_covers (hpos last (List.mem_append_right _ List.mem_cons_self))]
        · exact ih (fun f hf => hpos f (List.mem_append_left _ hf)) hinit hk hcovers
        · exact hlast field hmem last List.mem_cons_self o hcovers
      · rw [List.getElem?_append_right hge] at hk
        obtain rfl : k = fields.length := by
          have hsingle := (List.getElem?_eq_some_iff.mp hk).1
          rw [List.length_singleton] at hsingle
          omega
        rw [Nat.sub_self] at hk
        cases hk
        exact markField_of_covers hcovers

/-! ## The entries of a convention's fields -/

namespace Fields

variable {n : Nat} {F : Fields n} {host : Host} {i : Fin n} {o : Nat}

theorem map_of_has (h : F.Has i o) : F.map o = entry (F.field i) i o := by
  apply createSptrMap_of_covers
  · intro field hmem
    obtain ⟨j, rfl⟩ := List.mem_ofFn.mp hmem
    exact F.pos j
  · rw [List.pairwise_ofFn]
    intro j k hjk o hj hk
    have hdisjoint := F.disjoint j k hjk.ne
    unfold Covers at hj hk
    omega
  · rw [List.getElem?_ofFn, dif_pos i.isLt]
  · exact h

theorem map_of_not_mapped (h : ¬ F.Mapped o) : F.map o = 0#8 := by
  apply createSptrMap_of_not_covers
  · intro field hmem
    obtain ⟨j, rfl⟩ := List.mem_ofFn.mp hmem
    exact F.pos j
  · intro field hmem hcovers
    obtain ⟨j, rfl⟩ := List.mem_ofFn.mp hmem
    exact h (mapped_iff.mpr ⟨j, hcovers⟩)

theorem Inside.has (h : F.Inside i o) : F.Has i o := ⟨h.1.le, h.2⟩

theorem not_inside_of_off {j : Fin n} (h : F.off i = o) : ¬ F.Inside j o := by
  intro hin
  obtain rfl : i = j := has_unique (h ▸ has_off F i) hin.has
  exact absurd hin.1 (by omega)

/-- A byte begins a field, or is inside of one, or is in none. -/
theorem start_or_inside_or_outside (F : Fields n) (o : Nat) :
    (∃ i, F.off i = o) ∨ (∃ i, F.Inside i o) ∨ ¬ F.Mapped o := by
  by_cases hmapped : F.Mapped o
  · obtain ⟨i, hle, hlt⟩ := mapped_iff.mp hmapped
    rcases hle.eq_or_lt with heq | hgt
    · exact .inl ⟨i, heq⟩
    · exact .inr (.inl ⟨i, hgt, hlt⟩)
  · exact .inr (.inr hmapped)

section Bounds

variable (hn : n ≤ sptrMaxCnt) (hin : ∀ i, F.off i + F.size i ≤ sptrMaxOff)

include hin

theorem getFieldIdx_of_has (h : F.Has i o) :
    getFieldIdx host F.map o = charValue host (entry (F.field i) i o) := by
  have hlt : o < sptrMaxOff := h.2.trans_le (hin i)
  rw [getFieldIdx, if_pos hlt, map_of_has h]

include hn in
theorem getFieldIdx_of_off (h : F.off i = o) : getFieldIdx host F.map o = i + 1 := by
  subst h
  have hi : (i : Nat) + 1 < 128 := by
    have := i.isLt
    unfold sptrMaxCnt at hn
    omega
  rw [getFieldIdx_of_has hin (has_off F i), entry,
    if_pos (show F.off i = (F.field i).offset from rfl), charValue]
  have hnat : (BitVec.ofNat 8 (i + 1)).toNat = i + 1 := by
    rw [BitVec.toNat_ofNat]
    omega
  split_ifs
  · rw [BitVec.toInt_eq_toNat_of_lt (by omega), hnat]
    rfl
  · rw [hnat]
    rfl

theorem getFieldIdx_of_inside (h : F.Inside i o) :
    getFieldIdx host F.map o = if charSigned host then -1 else 255 := by
  have hne : o ≠ (F.field i).offset := h.1.ne'
  rw [getFieldIdx_of_has hin h.has, entry, if_neg hne, charValue]
  split_ifs <;> rfl

end Bounds

theorem getFieldIdx_of_not_mapped (h : ¬ F.Mapped o) : getFieldIdx host F.map o = 0 := by
  rw [getFieldIdx, map_of_not_mapped h, charValue]
  split_ifs <;> rfl

/-! ## The users -/

theorem foldLoadsIdx_eq_foldStoresIdx (fieldmap : Nat → Byte) (off : Nat) :
    foldLoadsIdx host fieldmap off = foldStoresIdx host fieldmap off := by
  unfold foldLoadsIdx foldStoresIdx
  dsimp only
  by_cases hpos : 0 < getFieldIdx host fieldmap off
  · have hlt : off < sptrMaxOff := by
      by_contra hge
      rw [getFieldIdx, if_neg hge] at hpos
      exact lt_irrefl _ hpos
    have hidx : getFieldIdx host fieldmap off = charValue host (fieldmap off) := if_pos hlt
    rw [if_neg (not_le.mpr hpos), if_pos hpos, hidx]
  · rw [if_pos (not_lt.mp hpos), if_neg hpos]

theorem escapeIdx_eq_foldStoresIdx (fieldmap : Nat → Byte) (off : Nat) :
    escapeIdx host fieldmap off = foldStoresIdx host fieldmap off := by
  unfold escapeIdx foldStoresIdx
  by_cases hle : sptrMaxOff ≤ off
  · rw [if_pos hle, getFieldIdx, if_neg (not_lt.mpr hle)]
    rfl
  · rw [if_neg hle]
    dsimp only
    by_cases hpos : 0 < getFieldIdx host fieldmap off
    · rw [if_neg (not_le.mpr hpos), if_pos hpos]
    · rw [if_pos (not_lt.mp hpos), if_neg hpos]

/-- The three users take the same element. -/
theorem classified_of {off : Nat}
    (hstart : 0 < getFieldIdx host F.map off ↔ ∃ i, F.off i = off)
    (hindex : ∀ i, F.off i = off → getFieldIdx host F.map off = i + 1)
    (hinside : getFieldIdx host F.map off < 0 ↔ ∃ i, F.Inside i off)
    (houtside : getFieldIdx host F.map off = 0 ↔ ¬ F.Mapped off) : F.Classified host off := by
  have hstores : ∀ k, foldStoresIdx host F.map off = some k → k < n := by
    intro k hk
    unfold foldStoresIdx at hk
    dsimp only at hk
    split_ifs at hk with hpos
    obtain ⟨i, hi⟩ := hstart.mp hpos
    rw [hindex i hi] at hk
    have hlt := i.isLt
    cases hk
    omega
  refine ⟨hstart, hindex, hinside, houtside, ?_, hstores, ?_⟩
  · rw [foldLoadsIdx_eq_foldStoresIdx]
    exact hstores
  · rw [escapeIdx_eq_foldStoresIdx]
    exact hstores

/-- **The map classifies an offset** on every host if `char` is signed, and on the others exactly
if the offset is not inside of a field. -/
theorem fieldMap_classified_iff (host : Host) (F : Fields n) (hn : n ≤ sptrMaxCnt)
    (hin : ∀ i, F.off i + F.size i ≤ sptrMaxOff) (off : Nat) :
    F.Classified host off ↔ charSigned host = true ∨ ¬ ∃ i, F.Inside i off := by
  constructor
  · intro h
    by_contra hnot
    push Not at hnot
    obtain ⟨hunsigned, i, hi⟩ := hnot
    have hneg := h.inside.mpr ⟨i, hi⟩
    rw [getFieldIdx_of_inside hin hi, if_neg hunsigned] at hneg
    exact absurd hneg (by decide)
  · intro h
    rcases F.start_or_inside_or_outside off with ⟨i, hi⟩ | ⟨i, hi⟩ | hout
    · have hidx : getFieldIdx host F.map off = i + 1 := getFieldIdx_of_off hn hin hi
      have hmapped : F.Mapped off := mapped_iff.mpr ⟨i, hi ▸ has_off F i⟩
      apply classified_of
      · exact iff_of_true (by omega) ⟨i, hi⟩
      · exact fun j hj => getFieldIdx_of_off hn hin hj
      · exact iff_of_false (by omega) fun ⟨_, hj⟩ => not_inside_of_off hi hj
      · exact iff_of_false (by omega) (not_not.mpr hmapped)
    · have hsigned := h.resolve_right (not_not.mpr ⟨i, hi⟩)
      have hidx : getFieldIdx host F.map off = -1 := by
        rw [getFieldIdx_of_inside hin hi, if_pos hsigned]
      have hmapped : F.Mapped off := mapped_iff.mpr ⟨i, hi.has⟩
      have hnostart (j : Fin n) (hj : F.off j = off) : False := not_inside_of_off hj hi
      apply classified_of
      · exact iff_of_false (by omega) fun ⟨j, hj⟩ => hnostart j hj
      · exact fun j hj => (hnostart j hj).elim
      · exact iff_of_true (by omega) ⟨i, hi⟩
      · exact iff_of_false (by omega) (not_not.mpr hmapped)
    · have hidx : getFieldIdx host F.map off = 0 := getFieldIdx_of_not_mapped hout
      have hnohas (j : Fin n) (hj : F.Has j off) : False := hout (mapped_iff.mpr ⟨j, hj⟩)
      have hnostart (j : Fin n) (hj : F.off j = off) : False := hnohas j (hj ▸ has_off F j)
      apply classified_of
      · exact iff_of_false (by omega) fun ⟨j, hj⟩ => hnostart j hj
      · exact fun j hj => (hnostart j hj).elim
      · exact iff_of_false (by omega) fun ⟨j, hj⟩ => hnohas j hj.has
      · exact iff_of_true hidx hout

/-- On an x86-64 server, an offset inside of the PC. -/
theorem x86_host_classified :
    charSigned .x86_64 = true ∧ (CallConv.sptrFields .x86X86Regcall).Classified .x86_64 4 :=
  ⟨rfl, (fieldMap_classified_iff .x86_64 (CallConv.sptrFields .x86X86Regcall) (by decide) (by decide)
    4).mpr (.inl rfl)⟩

/-- On an AArch64 server, the fifth byte of the PC is taken for field 254 of eight. -/
theorem pc_byte_misclassified :
    getFieldIdx .aarch64 (CallConv.sptrFields .x86Aarch64X).map 4 = 255 ∧
      foldLoadsIdx .aarch64 (CallConv.sptrFields .x86Aarch64X).map 4 = some 254 ∧
      (fields .x86Aarch64X).length = 8 ∧
      ¬ (CallConv.sptrFields .x86Aarch64X).Classified .aarch64 4 := by
  have hidx : getFieldIdx .aarch64 (CallConv.sptrFields .x86Aarch64X).map 4 = 255 := by decide
  refine ⟨hidx, by decide, rfl, fun h => ?_⟩
  have hinside : (CallConv.sptrFields .x86Aarch64X).Inside ⟨0, by decide⟩ 4 := by decide
  have hneg := h.inside.mpr ⟨_, hinside⟩
  rw [hidx] at hneg
  exact absurd hneg (by decide)

/-! ## Which stores are folded -/

/-- The abstract answer that `FoldStores` is modelled with is the one of the map. -/
theorem slotAt_eq (host : Host) (F : Fields n) (hn : n ≤ sptrMaxCnt)
    (hin : ∀ i, F.off i + F.size i ≤ sptrMaxOff) (off : Nat) :
    F.slotAt (charSigned host) off =
      match foldStoresIdx host F.map off with
      | some k => if h : k < n then .field ⟨k, h⟩ else .outOfRange
      | none => .other := by
  unfold foldStoresIdx slotAt
  rcases F.start_or_inside_or_outside off with ⟨i, hi⟩ | ⟨i, hi⟩ | hout
  · have hidx : getFieldIdx host F.map off = i + 1 := getFieldIdx_of_off hn hin hi
    have hpos : (0 : Int) < i + 1 := by omega
    rw [fieldIdx_eq_some.mpr hi, hidx]
    dsimp only
    rw [if_pos hpos, show ((i : Int) + 1 - 1).toNat = i by omega]
    dsimp only
    rw [dif_pos i.isLt]
  · have hnone : F.fieldIdx off = none := fieldIdx_eq_none.mpr fun j hj => not_inside_of_off hj hi
    have hmapped : (F.fieldAt off).isSome = true := mapped_iff.mpr ⟨i, hi.has⟩
    rw [hnone, getFieldIdx_of_inside hin hi]
    dsimp only
    cases charSigned host with
    | true =>
        rw [if_neg fun h => Bool.noConfusion h.2]
        rfl
    | false =>
        unfold sptrMaxCnt at hn
        have hrange : ¬ 254 < n := by omega
        rw [if_pos ⟨hmapped, rfl⟩]
        change _ = if h : 254 < n then Slot.field ⟨254, h⟩ else .outOfRange
        rw [dif_neg hrange]
  · have hnone : F.fieldIdx off = none :=
      fieldIdx_eq_none.mpr fun j hj => hout (mapped_iff.mpr ⟨j, hj ▸ has_off F j⟩)
    rw [hnone, getFieldIdx_of_not_mapped hout]
    dsimp only
    rw [if_neg fun h => hout h.1]
    rfl

end Fields

end Instrew.Server
