import Instrew.Basic
import Instrew.Lib.LinearProbe

/-!
# The code-cache index of the client

`rtld_set` and `rtld_resolve` of `client/rtld.c`: a hash table of 2^17 slots
from guest addresses to translated entry points, with linear probing and the
address 0 marking an empty slot.

Both loops are the scan of `Lib.LinearProbe` (`rtldSetFrom_eq`,
`rtldResolveFrom_eq`) on the table's view as optional entries, so the table
represents a finite map over any sequence of calls (`rtldSets_rep`). The
headline is `rtld_index_refines_map`.
-/

namespace Instrew.Client

open Lib.LinearProbe

/-! ## The table and its two operations -/

def rtldHashBits : Nat := 17

/-- `RTLD_HASH_MASK + 1`. -/
def rtldSlots : Nat := 2 ^ rtldHashBits

instance : NeZero rtldSlots := ⟨by decide⟩

/-- `RTLD_HASH`. -/
def rtldHash (addr : Word) : Nat := (addr >>> 2).toNat % rtldSlots

structure RtldObject : Type where
  addr : Word
  entry : Word
  base : Word
  size : Word
deriving DecidableEq

/-- The `objects` array. Slot `(hash + i) & RTLD_HASH_MASK` is
`slot rtldSlots hash i`. -/
abbrev Objects : Type := Fin rtldSlots → RtldObject

/-- The zero-initialised array of `rtld_init`. -/
def rtldEmpty : Objects := fun _ => ⟨0#64, 0#64, 0#64, 0#64⟩

/-- The loop of `rtld_set` with `m` iterations left, at iteration `i`. -/
def rtldSetFrom (objects : Objects) (hash : Nat) (new : RtldObject) :
    Nat → Nat → Except Errno Unit × Objects
  | 0, _ => (.error .ENOSPC, objects)
  | m + 1, i =>
      let obj := objects (slot rtldSlots hash i)
      if obj.addr = new.addr then (.error .EEXIST, objects)
      else if obj.addr = 0#64 then
        (.ok (), Function.update objects (slot rtldSlots hash i) new)
      else rtldSetFrom objects hash new m (i + 1)

/-- `rtld_set`: the returned code, and the array afterwards. -/
def rtldSet (objects : Objects) (new : RtldObject) : Except Errno Unit × Objects :=
  -- 0 is reserved for "empty"
  if new.addr = 0#64 then (.error .EINVAL, objects)
  else rtldSetFrom objects (rtldHash new.addr) new rtldSlots 0

/-- The loop of `rtld_resolve` with `m` iterations left, at iteration `i`. -/
def rtldResolveFrom (objects : Objects) (hash : Nat) (addr : Word) :
    Nat → Nat → Except Errno Word
  | 0, _ => .error .ENOENT
  | m + 1, i =>
      let obj := objects (slot rtldSlots hash i)
      if obj.addr = 0#64 then .error .ENOENT
      else if obj.addr = addr then .ok obj.entry
      else rtldResolveFrom objects hash addr m (i + 1)

def rtldResolve (objects : Objects) (addr : Word) : Except Errno Word :=
  if addr = 0#64 then .error .ENOENT
  else rtldResolveFrom objects (rtldHash addr) addr rtldSlots 0

/-! ## Both loops are one scan -/

/-- The array as a table of optional entries: address 0 is no entry. -/
def view (objects : Objects) : Table Word RtldObject rtldSlots := fun s =>
  if (objects s).addr = 0#64 then none else some ((objects s).addr, objects s)

theorem view_empty : view rtldEmpty = fun _ => none := by
  funext s
  simp [view, rtldEmpty]

theorem view_update {objects : Objects} {s : Fin rtldSlots} {new : RtldObject}
    (h : new.addr ≠ 0#64) :
    view (Function.update objects s new) =
      Function.update (view objects) s (some (new.addr, new)) := by
  funext s'
  by_cases hs : s' = s
  · subst hs
    simp [view, h]
  · simp [view, Function.update_of_ne hs]

theorem rtldSetFrom_eq {objects : Objects} {hash : Nat} {new : RtldObject}
    (h : new.addr ≠ 0#64) : ∀ (m i : Nat),
    rtldSetFrom objects hash new m i =
      match scan (view objects) new.addr hash m i with
      | .hit _ => (.error .EEXIST, objects)
      | .vacant s => (.ok (), Function.update objects s new)
      | .full => (.error .ENOSPC, objects)
  | 0, _ => rfl
  | m + 1, i => by
      rw [rtldSetFrom, scan]
      by_cases h0 : (objects (slot rtldSlots hash i)).addr = 0#64
      · simp [view, h0, Ne.symm h]
      · by_cases hk : (objects (slot rtldSlots hash i)).addr = new.addr
        · simp [view, hk, h]
        · simp only [view, h0, hk, if_false]
          exact rtldSetFrom_eq h m (i + 1)

theorem rtldResolveFrom_eq {objects : Objects} {hash : Nat} {addr : Word} :
    ∀ (m i : Nat),
    rtldResolveFrom objects hash addr m i =
      match scan (view objects) addr hash m i with
      | .hit obj => .ok obj.entry
      | .vacant _ => .error .ENOENT
      | .full => .error .ENOENT
  | 0, _ => rfl
  | m + 1, i => by
      rw [rtldResolveFrom, scan]
      by_cases h0 : (objects (slot rtldSlots hash i)).addr = 0#64
      · simp [view, h0]
      · by_cases hk : (objects (slot rtldSlots hash i)).addr = addr
        · subst hk
          simp [view, h0]
        · simp only [view, h0, hk, if_false]
          exact rtldResolveFrom_eq m (i + 1)

/-! ## The represented map

`CodeMap` is what the index is for: the registered addresses with their
objects, in the order they were registered. -/

abbrev CodeMap : Type := List (Word × RtldObject)

/-- The entry point registered for `addr`. -/
def CodeMap.objectAt? (l : CodeMap) (addr : Word) : Option Word :=
  (l.lookup addr).map RtldObject.entry

/-- The array represents the map `l`. -/
structure IndexRep (objects : Objects) (l : CodeMap) : Prop where
  rep : Rep rtldHash (view objects) l
  nonzero : 0#64 ∉ l.map Prod.fst

theorem indexRep_empty : IndexRep rtldEmpty [] where
  rep := by
    rw [view_empty]
    exact rep_empty rtldHash
  nonzero := by simp

theorem lookup_eq_some_of_mem {l : CodeMap} {a : Word} {o : RtldObject}
    (hnd : (l.map Prod.fst).Nodup) (h : (a, o) ∈ l) : l.lookup a = some o := by
  induction l with
  | nil => simp at h
  | cons p l ih =>
      obtain ⟨b, o'⟩ := p
      rw [List.map_cons, List.nodup_cons] at hnd
      rcases List.mem_cons.mp h with heq | hmem
      · cases heq
        simp
      · have hne : a ≠ b := by
          rintro rfl
          exact hnd.1 (List.mem_map.mpr ⟨(a, o), hmem, rfl⟩)
        have hbeq : (a == b) = false := by simpa using hne
        rw [List.lookup_cons, hbeq]
        exact ih hnd.2 hmem

theorem lookup_eq_none_of_not_mem {l : CodeMap} {a : Word}
    (h : a ∉ l.map Prod.fst) : l.lookup a = none := by
  rw [List.lookup_eq_none_iff]
  intro p hp
  have hne : a ≠ p.1 := by
    rintro rfl
    exact h (List.mem_map.mpr ⟨p, hp, rfl⟩)
  simpa using hne

/-- `rtld_resolve` reads the map. -/
theorem IndexRep.resolve {objects : Objects} {l : CodeMap} (h : IndexRep objects l)
    (addr : Word) :
    rtldResolve objects addr =
      match l.objectAt? addr with
      | some e => .ok e
      | none => .error .ENOENT := by
  rw [rtldResolve]
  by_cases h0 : addr = 0#64
  · subst h0
    simp [CodeMap.objectAt?, lookup_eq_none_of_not_mem h.nonzero]
  · rw [if_neg h0, rtldResolveFrom_eq]
    cases hs : scan (view objects) addr (rtldHash addr) rtldSlots 0 with
    | hit obj =>
        have hmem := h.rep.scan_hit hs
        simp [CodeMap.objectAt?, lookup_eq_some_of_mem h.rep.nodup hmem]
    | vacant s =>
        have habs := (h.rep.scan_vacant hs).1
        simp [CodeMap.objectAt?, lookup_eq_none_of_not_mem habs]
    | full =>
        have habs := (h.rep.scan_full hs).1
        simp [CodeMap.objectAt?, lookup_eq_none_of_not_mem habs]

/-- The map's own registration: the four outcomes of `rtld_set`. -/
def CodeMap.set (l : CodeMap) (new : RtldObject) : Except Errno Unit × CodeMap :=
  if new.addr = 0#64 then (.error .EINVAL, l)
  else if new.addr ∈ l.map Prod.fst then (.error .EEXIST, l)
  else if l.length = rtldSlots then (.error .ENOSPC, l)
  else (.ok (), l ++ [(new.addr, new)])

/-- **One `rtld_set` is one registration in the map**: same code, and the
arrays stay in step. -/
theorem IndexRep.set {objects : Objects} {l : CodeMap} (h : IndexRep objects l)
    (new : RtldObject) :
    (rtldSet objects new).1 = (l.set new).1 ∧
      IndexRep (rtldSet objects new).2 (l.set new).2 := by
  rw [rtldSet, CodeMap.set]
  by_cases h0 : new.addr = 0#64
  · rw [if_pos h0, if_pos h0]
    exact ⟨rfl, h⟩
  · rw [if_neg h0, if_neg h0, rtldSetFrom_eq h0]
    cases hs : scan (view objects) new.addr (rtldHash new.addr) rtldSlots 0 with
    | hit obj =>
        have hmem : new.addr ∈ l.map Prod.fst :=
          List.mem_map.mpr ⟨_, h.rep.scan_hit hs, rfl⟩
        rw [if_pos hmem]
        exact ⟨rfl, h⟩
    | vacant s =>
        obtain ⟨habs, hlt, hstore⟩ := h.rep.scan_vacant hs
        rw [if_neg habs, if_neg (by omega)]
        refine ⟨rfl, ?_, ?_⟩
        · show Rep rtldHash (view (Function.update objects s new)) _
          rw [view_update h0]
          exact hstore new
        · simp only [List.map_append, List.map_cons, List.map_nil, List.mem_append,
            List.mem_singleton, not_or]
          exact ⟨h.nonzero, Ne.symm h0⟩
    | full =>
        obtain ⟨habs, hlen⟩ := h.rep.scan_full hs
        rw [if_neg habs, if_pos hlen]
        exact ⟨rfl, h⟩

/-! ## Sequences of calls -/

/-- The array after a sequence of `rtld_set` calls. -/
def rtldSets (objects : Objects) (calls : List RtldObject) : Objects :=
  calls.foldl (fun o c => (rtldSet o c).2) objects

/-- The calls of a sequence, each with the code it returned. -/
def rtldLog (objects : Objects) : List RtldObject → List (RtldObject × Except Errno Unit)
  | [] => []
  | c :: cs => (c, (rtldSet objects c).1) :: rtldLog (rtldSet objects c).2 cs

/-- The calls that returned 0, as a map. -/
def okCalls (log : List (RtldObject × Except Errno Unit)) : CodeMap :=
  (log.filter (fun p => p.2.isOk)).map (fun p => (p.1.addr, p.1))

/-- The entry of the first call for `addr` that returned 0. -/
def firstSet (log : List (RtldObject × Except Errno Unit)) (addr : Word) : Option Word :=
  (log.find? (fun p => p.2.isOk && p.1.addr == addr)).map (fun p => p.1.entry)

/-- The addresses of the calls that returned 0. -/
def mapped (log : List (RtldObject × Except Errno Unit)) : Finset Word :=
  ((okCalls log).map Prod.fst).toFinset

theorem firstSet_eq_objectAt? (log : List (RtldObject × Except Errno Unit)) (addr : Word) :
    firstSet log addr = (okCalls log).objectAt? addr := by
  induction log with
  | nil => rfl
  | cons p log ih =>
      obtain ⟨c, r⟩ := p
      unfold firstSet okCalls CodeMap.objectAt? at ih ⊢
      cases r with
      | error e => simpa [List.find?_cons, Except.isOk, Except.toBool] using ih
      | ok u =>
          by_cases hc : c.addr = addr
          · subst hc
            simp [Except.isOk, Except.toBool]
          · have hbeq : (addr == c.addr) = false := by simpa using Ne.symm hc
            simpa [List.find?_cons, Except.isOk, Except.toBool, hc, hbeq,
              List.lookup_cons] using ih

/-- A registration either succeeds and appends, or fails and changes nothing. -/
theorem CodeMap.set_cases (l : CodeMap) (new : RtldObject) :
    ((l.set new).1 = .ok () ∧ (l.set new).2 = l ++ [(new.addr, new)]) ∨
      (∃ e, (l.set new).1 = .error e ∧ (l.set new).2 = l) := by
  unfold CodeMap.set
  split_ifs
  · exact Or.inr ⟨_, rfl, rfl⟩
  · exact Or.inr ⟨_, rfl, rfl⟩
  · exact Or.inr ⟨_, rfl, rfl⟩
  · exact Or.inl ⟨rfl, rfl⟩

theorem CodeMap.set_eq_einval (l : CodeMap) (new : RtldObject) :
    (l.set new).1 = .error .EINVAL ↔ new.addr = 0#64 := by
  unfold CodeMap.set
  split_ifs with h0 h1 h2 <;> simp [h0]

theorem CodeMap.set_eq_eexist {l : CodeMap} (hzero : 0#64 ∉ l.map Prod.fst) (new : RtldObject) :
    (l.set new).1 = .error .EEXIST ↔ new.addr ∈ l.map Prod.fst := by
  unfold CodeMap.set
  split_ifs with h0 h1 h2
  · rw [h0]
    simpa using hzero
  · simpa using h1
  · simpa using h1
  · simpa using h1

theorem CodeMap.set_eq_enospc (l : CodeMap) (new : RtldObject) :
    (l.set new).1 = .error .ENOSPC ↔
      new.addr ≠ 0#64 ∧ new.addr ∉ l.map Prod.fst ∧ l.length = rtldSlots := by
  unfold CodeMap.set
  split_ifs with h0 h1 h2
  · simp [h0]
  · exact iff_of_false (fun h => nomatch h) (fun h => h.2.1 h1)
  · exact iff_of_true rfl ⟨h0, h1, h2⟩
  · exact iff_of_false (fun h => nomatch h) (fun h => h2 h.2.2)

theorem CodeMap.set_eq_ok (l : CodeMap) (new : RtldObject) :
    (l.set new).1 = .ok () ↔
      new.addr ≠ 0#64 ∧ new.addr ∉ l.map Prod.fst ∧ l.length ≠ rtldSlots := by
  unfold CodeMap.set
  split_ifs with h0 h1 h2
  · exact iff_of_false (fun h => nomatch h) (fun h => h.1 h0)
  · exact iff_of_false (fun h => nomatch h) (fun h => h.2.1 h1)
  · exact iff_of_false (fun h => nomatch h) (fun h => h.2.2 h2)
  · exact iff_of_true rfl ⟨h0, h1, h2⟩

/-- Over a sequence of calls the array represents the map it started with,
extended by the calls that returned 0. -/
theorem rtldSets_rep (calls : List RtldObject) : ∀ {objects : Objects} {l : CodeMap},
    IndexRep objects l →
    IndexRep (rtldSets objects calls) (l ++ okCalls (rtldLog objects calls)) := by
  induction calls with
  | nil =>
      intro objects l h
      simpa [rtldSets, rtldLog, okCalls] using h
  | cons c cs ih =>
      intro objects l h
      obtain ⟨hcode, hrep⟩ := h.set c
      have hrest := ih hrep
      rw [rtldSets, List.foldl_cons, ← rtldSets, rtldLog, hcode]
      rcases l.set_cases c with ⟨hok, hl⟩ | ⟨e, herr, hl⟩
      · rw [hok]
        rw [hl] at hrest
        simpa [okCalls, Except.isOk, Except.toBool] using hrest
      · rw [herr]
        rw [hl] at hrest
        simpa [okCalls, Except.isOk, Except.toBool] using hrest

theorem rtldSet_error_unchanged (objects : Objects) (new : RtldObject)
    (h : (rtldSet objects new).1 ≠ .ok ()) : (rtldSet objects new).2 = objects := by
  unfold rtldSet at h ⊢
  split_ifs at h ⊢ with h0
  · rfl
  · rw [rtldSetFrom_eq h0] at h ⊢
    cases hs : scan (view objects) new.addr (rtldHash new.addr) rtldSlots 0 with
    | hit obj => rfl
    | vacant s =>
        rw [hs] at h
        exact absurd rfl h
    | full => rfl

/-- **The code-cache index is a finite map.** After any sequence of `rtld_set`
calls on the zero-initialised table, `rtld_resolve` answers with the entry of
the first call for the address that returned 0 and `-ENOENT` when there was
none. A further call returns 0 exactly for a non-zero address that is not
mapped while fewer than 2^17 addresses are, so that the first call for it is
always registered. It fails with `-EINVAL` exactly for address 0, with
`-EEXIST` exactly for a mapped address, with `-ENOSPC` exactly for an unmapped
one when 2^17 addresses are mapped, and a failing call changes nothing. Both
loops are recursions over the iterations left, so they end on every table. -/
theorem rtld_index_refines_map (calls : List RtldObject) (new : RtldObject)
    (addr : Word) :
    let objects := rtldSets rtldEmpty calls
    let log := rtldLog rtldEmpty calls
    (rtldResolve objects addr =
      match firstSet log addr with
      | some e => .ok e
      | none => .error .ENOENT) ∧
    ((rtldSet objects new).1 = .ok () ↔
      new.addr ≠ 0#64 ∧ new.addr ∉ mapped log ∧ (mapped log).card < 2 ^ 17) ∧
    ((rtldSet objects new).1 = .error .EINVAL ↔ new.addr = 0#64) ∧
    ((rtldSet objects new).1 = .error .EEXIST ↔ new.addr ∈ mapped log) ∧
    ((rtldSet objects new).1 = .error .ENOSPC ↔
      new.addr ≠ 0#64 ∧ new.addr ∉ mapped log ∧ (mapped log).card = 2 ^ 17) ∧
    ((rtldSet objects new).1 ≠ .ok () → (rtldSet objects new).2 = objects) := by
  intro objects log
  have hrep : IndexRep objects (okCalls log) := by
    have h := rtldSets_rep calls indexRep_empty
    rwa [List.nil_append] at h
  have hmem : new.addr ∈ mapped log ↔ new.addr ∈ (okCalls log).map Prod.fst := by
    rw [mapped, List.mem_toFinset]
  have hcard : (mapped log).card = (okCalls log).length := by
    rw [mapped, List.toFinset_card_of_nodup hrep.rep.nodup, List.length_map]
  have hle : (okCalls log).length ≤ rtldSlots := hrep.rep.length_le
  rw [(hrep.set new).1, hmem, hcard]
  refine ⟨?_, ?_, CodeMap.set_eq_einval _ new, CodeMap.set_eq_eexist hrep.nonzero new,
    CodeMap.set_eq_enospc _ new, ?_⟩
  · rw [firstSet_eq_objectAt?]
    exact hrep.resolve addr
  · rw [CodeMap.set_eq_ok, ← hle.lt_iff_ne]
    rfl
  · rw [← (hrep.set new).1]
    exact rtldSet_error_unchanged objects new

end Instrew.Client
