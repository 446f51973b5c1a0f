import Instrew.Client.CodeIndex
import Instrew.Lib.Threads

/-!
# The code-cache index under concurrent readers

The note at the head of `rtld_set` in `client/rtld.c`: a slot is found, populated, and only
then published by the release store of its address, "so that concurrent readers only ever
see valid data"; two calls that add entries at the same time may write to the same spot.

Here both loops run in single loads and stores, and the threads interleave in any way. A
plain store is seen by the other threads at any time after it was made and in any order
with the other plain stores of the call; the release store waits for them. One thread may
add entries, any number may look them up.

Every call that returned is then the call of the sequential index (`CodeMap`) at one point
between its start and its end (`Linearizes`, `index_linearizable`).
-/

namespace Instrew.Client.IndexReaders

open Lib.LinearProbe Lib.Threads

/-! ## The loops in single steps -/

/-- The members of an `RtldObject` that are not atomic. -/
inductive Field : Type where
  | entry
  | base
  | size
  deriving DecidableEq

def Field.of (o : RtldObject) : Field → Word
  | .entry => o.entry
  | .base => o.base
  | .size => o.size

def Field.put (o : RtldObject) (v : Word) : Field → RtldObject
  | .entry => { o with entry := v }
  | .base => { o with base := v }
  | .size => { o with size := v }

inductive Pc : Type where
  | idle
  /-- In `rtld_set`, before the load of `obj->addr` of iteration `i`. -/
  | setProbe (new : RtldObject) (i : Nat)
  /-- In `rtld_set` at an empty slot: the plain stores still to be made, and those made
  that the other threads do not see yet. -/
  | setFill (new : RtldObject) (s : Fin rtldSlots) (todo pending : List Field)
  /-- In `rtld_resolve`, before the load of `obj->addr` of iteration `i`. -/
  | getProbe (addr : Word) (i : Nat)
  /-- In `rtld_resolve`, before the load of `obj->entry`. -/
  | getEntry (addr : Word) (s : Fin rtldSlots)

structure Thread : Type where
  mayWrite : Bool
  pc : Pc
  /-- The number of published entries when the current call was made. -/
  since : Nat

/-- A call with what it returned. -/
inductive Call : Type where
  | set (new : RtldObject) (code : Except Errno Unit)
  | resolve (addr : Word) (res : Except Errno Word)

/-- A call that has returned, with the number of published entries at its start and at its
end. -/
structure Ret : Type where
  call : Call
  since : Nat
  upto : Nat

/-- The array as the threads see it. What has been published and what has returned is kept
for the statement only: no step depends on it. -/
structure Shared : Type where
  mem : Objects
  published : CodeMap
  returned : List Ret

inductive Action : Type where
  | callSet (new : RtldObject)
  | callResolve (addr : Word)
  /-- The next step of the call. -/
  | next
  /-- A plain store becomes visible. -/
  | commit (f : Field)

/-- The call returns. -/
def finish (s : Shared) (t : Thread) (call : Call) : Shared × Thread :=
  ({ s with returned := s.returned ++ [⟨call, t.since, s.published.length⟩] },
    { t with pc := .idle })

def Thread.goto (t : Thread) (pc : Pc) : Thread := { t with pc := pc }

/-- One iteration of the loop of `rtld_set` up to the stores. -/
def setStep (s : Shared) (t : Thread) (new : RtldObject) (i : Nat) : Shared × Thread :=
  if i < rtldSlots then
    let slot := slot rtldSlots (rtldHash new.addr) i
    if (s.mem slot).addr = new.addr then finish s t (.set new (.error .EEXIST))
    else if (s.mem slot).addr = 0#64 then (s, t.goto (.setFill new slot [.entry, .base, .size] []))
    else (s, t.goto (.setProbe new (i + 1)))
  else finish s t (.set new (.error .ENOSPC))

/-- The release store, and the return of `rtld_set`. -/
def publish (s : Shared) (t : Thread) (new : RtldObject) (slot : Fin rtldSlots) :
    Shared × Thread :=
  finish { s with
    mem := Function.update s.mem slot { s.mem slot with addr := new.addr }
    published := s.published ++ [(new.addr, new)] } t (.set new (.ok ()))

/-- One iteration of the loop of `rtld_resolve` up to the load of the entry. -/
def getStep (s : Shared) (t : Thread) (addr : Word) (i : Nat) : Shared × Thread :=
  if i < rtldSlots then
    let slot := slot rtldSlots (rtldHash addr) i
    if (s.mem slot).addr = 0#64 then finish s t (.resolve addr (.error .ENOENT))
    else if (s.mem slot).addr = addr then (s, t.goto (.getEntry addr slot))
    else (s, t.goto (.getProbe addr (i + 1)))
  else finish s t (.resolve addr (.error .ENOENT))

/-- One step of a thread: the calls of `rtld_set` and `rtld_resolve` check for address 0
before their loops. -/
def step (s : Shared) (t : Thread) : Action → Option (Shared × Thread)
  | .callSet new =>
      match t.pc with
      | .idle =>
          if t.mayWrite then
            let t := { t with since := s.published.length }
            if new.addr = 0#64 then some (finish s t (.set new (.error .EINVAL)))
            else some (s, t.goto (.setProbe new 0))
          else none
      | _ => none
  | .callResolve addr =>
      match t.pc with
      | .idle =>
          let t := { t with since := s.published.length }
          if addr = 0#64 then some (finish s t (.resolve addr (.error .ENOENT)))
          else some (s, t.goto (.getProbe addr 0))
      | _ => none
  | .next =>
      match t.pc with
      | .idle => none
      | .setProbe new i => some (setStep s t new i)
      | .setFill new slot (f :: todo) pending => some (s, t.goto (.setFill new slot todo (f :: pending)))
      | .setFill new slot [] [] => some (publish s t new slot)
      -- the release store comes after the stores before it
      | .setFill _ _ [] (_ :: _) => none
      | .getProbe addr i => some (getStep s t addr i)
      | .getEntry addr slot => some (finish s t (.resolve addr (.ok (s.mem slot).entry)))
  | .commit f =>
      match t.pc with
      | .setFill new slot todo pending =>
          if f ∈ pending then
            some ({ s with mem := Function.update s.mem slot (f.put (s.mem slot) (f.of new)) },
              t.goto (.setFill new slot todo (pending.erase f)))
          else none
      | _ => none

/-! ## The sequential index -/

/-- What `rtld_resolve` answers on the map. -/
def answer (l : CodeMap) (addr : Word) : Except Errno Word :=
  match l.objectAt? addr with
  | some e => .ok e
  | none => .error .ENOENT

/-- A call that returned, against the entries in the order they were published. A look-up
is answered from the map as it was at some point between its start and its end. An addition
is the addition to the map as it was at its start, which nothing else changed meanwhile. -/
def Linearizes (l : CodeMap) (r : Ret) : Prop :=
  r.since ≤ r.upto ∧ r.upto ≤ l.length ∧
    match r.call with
    | .set new code =>
        code = (CodeMap.set (l.take r.since) new).1 ∧
          l.take r.upto = (CodeMap.set (l.take r.since) new).2
    | .resolve addr res => ∃ k, r.since ≤ k ∧ k ≤ r.upto ∧ res = answer (l.take k) addr

theorem Linearizes.mono {l l' : CodeMap} (hl : l <+: l') {r : Ret} (h : Linearizes l r) :
    Linearizes l' r := by
  obtain ⟨tail, rfl⟩ := hl
  obtain ⟨hle, hupto, hcall⟩ := h
  have htake : ∀ k ≤ l.length, (l ++ tail).take k = l.take k := by
    intro k hk
    rw [List.take_append_of_le_length hk]
  refine ⟨hle, ?_, ?_⟩
  · rw [List.length_append]
    omega
  · rcases r with ⟨call, since, upto⟩
    cases call with
    | set new code =>
        simp only at hle hupto hcall ⊢
        rw [htake since (by omega), htake upto hupto]
        exact hcall
    | resolve addr res =>
        obtain ⟨k, hsince, hk, hres⟩ := hcall
        simp only at hk hupto
        exact ⟨k, hsince, hk, by rw [htake k (by omega)]; exact hres⟩

section Answers

variable {objects : Objects} {l : CodeMap} {k : Word}

theorem answer_of_absent (h : k ∉ l.map Prod.fst) : answer l k = .error .ENOENT := by
  unfold answer CodeMap.objectAt?
  rw [lookup_eq_none_of_not_mem h]
  rfl

theorem answer_of_slot (h : IndexRep objects l) {s : Fin rtldSlots} {o : RtldObject}
    (hs : view objects s = some (k, o)) : answer l k = .ok o.entry := by
  have hmem : (k, o) ∈ l := (h.rep.mem_iff k o).mpr ⟨s, hs⟩
  unfold answer CodeMap.objectAt?
  rw [lookup_eq_some_of_mem h.rep.nodup hmem]
  rfl

/-- An empty slot after slots taken by others: the key is not there. -/
theorem absent_of_vacant (h : IndexRep objects l) {i : Nat}
    (hvacant : view objects (slot rtldSlots (rtldHash k) i) = none)
    (htaken : ∀ c < i, TakenByOther (view objects) k (slot rtldSlots (rtldHash k) c)) :
    k ∉ l.map Prod.fst :=
  h.rep.absent (h.rep.inv.absent_of_vacant hvacant htaken)

/-- All slots are taken by others: the key is not there, and there is no room for it. -/
theorem absent_of_full (h : IndexRep objects l)
    (htaken : ∀ c < rtldSlots, TakenByOther (view objects) k (slot rtldSlots (rtldHash k) c)) :
    k ∉ l.map Prod.fst ∧ l.length = rtldSlots := by
  have hall : ∀ s, TakenByOther (view objects) k s := by
    intro s
    obtain ⟨d, hd, rfl⟩ := exists_slot (rtldHash k) s
    exact htaken d hd
  constructor
  · apply h.rep.absent
    intro s v hs
    obtain ⟨k', v', hk, hne⟩ := hall s
    rw [hs] at hk
    cases hk
    exact hne rfl
  · rw [h.rep.length_eq_iff]
    intro s
    obtain ⟨k', v', hk, -⟩ := hall s
    rw [hk]
    rfl

end Answers

/-! ## What one step may do -/

/-- What other threads' steps may do to the memory that a reader works on: entries are only
added. -/
structure Grows (s s' : Shared) : Prop where
  entries : ∀ slot p, view s.mem slot = some p → view s'.mem slot = some p
  published : s.published <+: s'.published

theorem Grows.taken {s s' : Shared} (h : Grows s s') {k : Word} {slot : Fin rtldSlots}
    (ht : TakenByOther (view s.mem) k slot) : TakenByOther (view s'.mem) k slot := by
  obtain ⟨k', v, hs, hne⟩ := ht
  exact ⟨k', v, h.entries slot _ hs, hne⟩

theorem Grows.length_le {s s' : Shared} (h : Grows s s') :
    s.published.length ≤ s'.published.length := h.published.length_le

/-- The memory and the published entries are the same. -/
def SameIndex (s s' : Shared) : Prop := s'.mem = s.mem ∧ s'.published = s.published

theorem SameIndex.grows {s s' : Shared} (h : SameIndex s s') : Grows s s' where
  entries := by
    rw [h.1]
    exact fun _ _ hp => hp
  published := by rw [h.2]

theorem sameIndex_setStep (s : Shared) (t : Thread) (new : RtldObject) (i : Nat) :
    SameIndex s (setStep s t new i).1 := by
  unfold setStep
  simp only
  split_ifs <;> exact ⟨rfl, rfl⟩

theorem sameIndex_getStep (s : Shared) (t : Thread) (addr : Word) (i : Nat) :
    SameIndex s (getStep s t addr i).1 := by
  unfold getStep
  simp only
  split_ifs <;> exact ⟨rfl, rfl⟩

/-- A member of an empty slot is stored to: no entry changes. -/
theorem view_put {objects : Objects} {slot : Fin rtldSlots} (h : (objects slot).addr = 0#64)
    (f : Field) (v : Word) :
    view (Function.update objects slot (f.put (objects slot) v)) = view objects := by
  funext s
  by_cases hs : s = slot
  · subst hs
    have haddr : (f.put (objects s) v).addr = 0#64 := by cases f <;> exact h
    simp [view, haddr, h]
  · simp [view, Function.update_of_ne hs]

theorem view_of_addr {objects : Objects} {slot : Fin rtldSlots} (h : (objects slot).addr ≠ 0#64) :
    view objects slot = some ((objects slot).addr, objects slot) := if_neg h

theorem view_eq_none {objects : Objects} {slot : Fin rtldSlots}
    (h : (objects slot).addr = 0#64) : view objects slot = none := if_pos h

/-! ## The invariant -/

/-- The fact about the memory: it represents what has been published, and every call that
returned was right. -/
structure SharedOk (s : Shared) : Prop where
  rep : IndexRep s.mem s.published
  returned : ∀ r ∈ s.returned, Linearizes s.published r

/-- The fact about a thread. A call that adds entries knows that nothing has been published
since it began; its slot is the first empty one on the way of the address and holds every
member whose store is visible. -/
def ThreadOk (s : Shared) (t : Thread) : Prop :=
  match t.pc with
  | .idle => True
  | .setProbe new i =>
      t.mayWrite = true ∧ new.addr ≠ 0#64 ∧ t.since = s.published.length ∧
        ∀ c < i, TakenByOther (view s.mem) new.addr (slot rtldSlots (rtldHash new.addr) c)
  | .setFill new s' todo pending =>
      t.mayWrite = true ∧ new.addr ≠ 0#64 ∧ t.since = s.published.length ∧
        (s.mem s').addr = 0#64 ∧
        (∃ i < rtldSlots, s' = slot rtldSlots (rtldHash new.addr) i ∧
          ∀ c < i, TakenByOther (view s.mem) new.addr (slot rtldSlots (rtldHash new.addr) c)) ∧
        ∀ f : Field, f ∉ todo → f ∉ pending → f.of (s.mem s') = f.of new
  | .getProbe addr i =>
      addr ≠ 0#64 ∧ t.since ≤ s.published.length ∧
        ∀ c < i, TakenByOther (view s.mem) addr (slot rtldSlots (rtldHash addr) c)
  | .getEntry addr s' => t.since ≤ s.published.length ∧ view s.mem s' = some (addr, s.mem s')

/-- The fact about two threads: one of them only reads. -/
def OneWriter (t t' : Thread) : Prop := ¬ (t.mayWrite = true ∧ t'.mayWrite = true)

theorem ThreadOk.of_same {s s' : Shared} {t : Thread} (h : ThreadOk s t) (hs : SameIndex s s') :
    ThreadOk s' t := by
  unfold ThreadOk at h ⊢
  rw [hs.1, hs.2]
  exact h

theorem mem_of_view {objects : Objects} {slot : Fin rtldSlots} {k : Word} {o : RtldObject}
    (h : view objects slot = some (k, o)) : o = objects slot := by
  unfold view at h
  split_ifs at h with h0
  cases h
  rfl

/-- A thread that only reads keeps its fact when entries are added. -/
theorem ThreadOk.of_grows {s s' : Shared} {t : Thread} (h : ThreadOk s t)
    (hread : t.mayWrite = false) (hs : Grows s s') : ThreadOk s' t := by
  have hlen := hs.length_le
  unfold ThreadOk at h ⊢
  split at h
  · trivial
  · rw [hread] at h
    exact absurd h.1 (by decide)
  · rw [hread] at h
    exact absurd h.1 (by decide)
  · obtain ⟨hne, hsince, htaken⟩ := h
    exact ⟨hne, by omega, fun c hc => hs.taken (htaken c hc)⟩
  · obtain ⟨hsince, hview⟩ := h
    have hview' := hs.entries _ _ hview
    refine ⟨by omega, ?_⟩
    rwa [← mem_of_view hview']

theorem SharedOk.finish {s : Shared} {t : Thread} {call : Call} (h : SharedOk s)
    (hcall : Linearizes s.published ⟨call, t.since, s.published.length⟩) :
    SharedOk (finish s t call).1 where
  rep := h.rep
  returned := by
    intro r hr
    rcases List.mem_append.mp hr with hold | hnew
    · exact h.returned r hold
    · rw [List.mem_singleton.mp hnew]
      exact hcall

/-! ## The steps keep it -/

section Own

variable {s s' : Shared} {t t' : Thread}

/-- A look-up that ends now is answered from the map as it is now. -/
theorem linearizes_resolve_now {addr : Word} {res : Except Errno Word}
    (hsince : t.since ≤ s.published.length) (hres : res = answer s.published addr) :
    Linearizes s.published ⟨.resolve addr res, t.since, s.published.length⟩ := by
  refine ⟨hsince, le_rfl, s.published.length, hsince, le_rfl, ?_⟩
  rw [List.take_length]
  exact hres

/-- An addition that fails now fails on the map, which is what it was at the start. -/
theorem linearizes_set_fails {new : RtldObject} {e : Errno}
    (hsince : t.since = s.published.length) (hset : s.published.set new = (.error e, s.published)) :
    Linearizes s.published ⟨.set new (.error e), t.since, s.published.length⟩ := by
  rw [hsince]
  refine ⟨le_rfl, le_rfl, ?_⟩
  simp only [List.take_length, hset, and_self]

theorem own_setStep {new : RtldObject} {i : Nat} (hS : SharedOk s) (hpc : t.pc = .setProbe new i)
    (hT : ThreadOk s t) :
    SharedOk (setStep s t new i).1 ∧ ThreadOk (setStep s t new i).1 (setStep s t new i).2 := by
  simp only [ThreadOk, hpc] at hT
  obtain ⟨hwrite, hne, hsince, htaken⟩ := hT
  unfold setStep
  simp only
  split_ifs with hi hsame hzero
  · -- the address is there already
    refine ⟨hS.finish (linearizes_set_fails hsince ?_), trivial⟩
    have hview := view_of_addr (fun hzero => hne (hsame.symm.trans hzero))
    rw [hsame] at hview
    have hmem : new.addr ∈ s.published.map Prod.fst :=
      List.mem_map.mpr ⟨_, (hS.rep.rep.mem_iff _ _).mpr ⟨_, hview⟩, rfl⟩
    rw [CodeMap.set, if_neg hne, if_pos hmem]
  · refine ⟨hS, hwrite, hne, hsince, hzero, ⟨i, hi, rfl, htaken⟩, ?_⟩
    intro f hf
    cases f <;> exact absurd (by decide) hf
  · refine ⟨hS, hwrite, hne, hsince, fun c hc => ?_⟩
    rcases Nat.lt_succ_iff_lt_or_eq.mp hc with hlt | rfl
    · exact htaken c hlt
    · exact ⟨_, _, view_of_addr hzero, hsame⟩
  · refine ⟨hS.finish (linearizes_set_fails hsince ?_), trivial⟩
    obtain ⟨habsent, hfull⟩ := absent_of_full hS.rep (fun c hc => htaken c (by omega))
    rw [CodeMap.set, if_neg hne, if_neg habsent, if_pos hfull]

theorem own_getStep {addr : Word} {i : Nat} (hS : SharedOk s) (hpc : t.pc = .getProbe addr i)
    (hT : ThreadOk s t) :
    SharedOk (getStep s t addr i).1 ∧ ThreadOk (getStep s t addr i).1 (getStep s t addr i).2 := by
  simp only [ThreadOk, hpc] at hT
  obtain ⟨hne, hsince, htaken⟩ := hT
  unfold getStep
  simp only
  split_ifs with hi hzero hsame
  · refine ⟨hS.finish (linearizes_resolve_now hsince ?_), trivial⟩
    rw [answer_of_absent (absent_of_vacant hS.rep (view_eq_none hzero) htaken)]
  · refine ⟨hS, hsince, ?_⟩
    have hview := view_of_addr hzero
    rwa [hsame] at hview
  · refine ⟨hS, hne, hsince, fun c hc => ?_⟩
    rcases Nat.lt_succ_iff_lt_or_eq.mp hc with hlt | rfl
    · exact htaken c hlt
    · exact ⟨_, _, view_of_addr hzero, hsame⟩
  · refine ⟨hS.finish (linearizes_resolve_now hsince ?_), trivial⟩
    rw [answer_of_absent (absent_of_full hS.rep (fun c hc => htaken c (by omega))).1]

/-- A slot whose members are all stored becomes the new object with the release store. -/
theorem filled_eq {o new : RtldObject} (h : ∀ f : Field, f.of o = f.of new) :
    { o with addr := new.addr } = new := by
  have hentry := h .entry
  have hbase := h .base
  have hsize := h .size
  cases o
  cases new
  simp only [Field.of] at hentry hbase hsize
  simp only [hentry, hbase, hsize]

/-- **Publishing.** With every plain store visible, the release store adds the entry to the
map, and the call returns 0 as it does on the map. -/
theorem own_publish {new : RtldObject} {slot : Fin rtldSlots} (hS : SharedOk s)
    (hpc : t.pc = .setFill new slot [] []) (hT : ThreadOk s t) :
    SharedOk (publish s t new slot).1 ∧ Grows s (publish s t new slot).1 := by
  simp only [ThreadOk, hpc] at hT
  obtain ⟨-, hne, hsince, hzero, ⟨i, hi, hslot, htaken⟩, hfilled⟩ := hT
  have hvacant : view s.mem slot = none := view_eq_none hzero
  have hnew : { s.mem slot with addr := new.addr } = new :=
    filled_eq (fun f => hfilled f List.not_mem_nil List.not_mem_nil)
  have hview : view (Function.update s.mem slot { s.mem slot with addr := new.addr }) =
      Function.update (view s.mem) slot (some (new.addr, new)) := by
    rw [hnew, view_update hne]
  have habsent : new.addr ∉ s.published.map Prod.fst :=
    absent_of_vacant hS.rep (by rw [← hslot]; exact hvacant) htaken
  have hroom : s.published.length ≠ rtldSlots := by
    intro hfull
    have hsome := (hS.rep.rep.length_eq_iff.mp hfull) slot
    rw [hvacant] at hsome
    cases hsome
  have hset : s.published.set new = (.ok (), s.published ++ [(new.addr, new)]) := by
    rw [CodeMap.set, if_neg hne, if_neg habsent, if_neg hroom]
  have hstore : Rep rtldHash (view (Function.update s.mem slot { s.mem slot with addr := new.addr }))
      (s.published ++ [(new.addr, new)]) := by
    rw [hview, hslot]
    exact hS.rep.rep.store hi (by rw [← hslot]; exact hvacant) htaken
  have hzeros : 0#64 ∉ (s.published ++ [(new.addr, new)]).map Prod.fst := by
    rw [List.map_append, List.mem_append, not_or]
    refine ⟨hS.rep.nonzero, ?_⟩
    rw [List.map_singleton, List.mem_singleton]
    exact Ne.symm hne
  have hgrown : s.published <+: s.published ++ [(new.addr, new)] := List.prefix_append _ _
  constructor
  · refine SharedOk.finish ⟨⟨hstore, hzeros⟩, ?_⟩ ?_
    · exact fun r hr => (hS.returned r hr).mono hgrown
    · rw [hsince]
      refine ⟨hgrown.length_le, le_rfl, ?_⟩
      simp only [List.take_left, List.take_length, hset, and_self]
  · refine ⟨?_, hgrown⟩
    intro s₀ p hp
    show view (Function.update s.mem slot _) s₀ = some p
    rw [hview, Function.update_of_ne]
    · exact hp
    · rintro rfl
      rw [hvacant] at hp
      cases hp

/-- A plain store to the slot that is being filled. -/
theorem own_commit {new : RtldObject} {slot : Fin rtldSlots} {todo pending : List Field}
    (hS : SharedOk s) (hpc : t.pc = .setFill new slot todo pending) (hT : ThreadOk s t) (f : Field) :
    let s' := { s with mem := Function.update s.mem slot (f.put (s.mem slot) (f.of new)) }
    SharedOk s' ∧ ThreadOk s' (t.goto (.setFill new slot todo (pending.erase f))) ∧ Grows s s' := by
  simp only [ThreadOk, hpc] at hT
  obtain ⟨hwrite, hne, hsince, hzero, hway, hfilled⟩ := hT
  have hview := view_put hzero f (f.of new)
  refine ⟨⟨⟨?_, hS.rep.nonzero⟩, hS.returned⟩, ?_, ?_⟩
  · rw [hview]
    exact hS.rep.rep
  · refine ⟨hwrite, hne, hsince, ?_, ?_, ?_⟩
    · show (Function.update s.mem slot _ slot).addr = 0#64
      rw [Function.update_self]
      cases f <;> exact hzero
    · rw [hview]
      exact hway
    · intro g hg hpending
      show g.of (Function.update s.mem slot _ slot) = g.of new
      rw [Function.update_self]
      by_cases hgf : g = f
      · subst hgf
        cases g <;> rfl
      · have hold := hfilled g hg (fun hmem => hpending ((List.mem_erase_of_ne hgf).mpr hmem))
        cases f <;> cases g <;> first | exact absurd rfl hgf | exact hold
  · refine ⟨?_, List.prefix_refl _⟩
    rw [hview]
    exact fun _ _ hp => hp

/-- What one step of a thread does: it keeps the facts about the memory and about itself,
only adds entries, and changes nothing that others read unless it may write. -/
theorem step_ok {a : Action} (hS : SharedOk s) (hT : ThreadOk s t)
    (hstep : step s t a = some (s', t')) :
    SharedOk s' ∧ ThreadOk s' t' ∧ Grows s s' ∧ t'.mayWrite = t.mayWrite ∧
      (t.mayWrite = false → SameIndex s s') := by
  have hsame : ∀ {u : Shared} {v : Thread}, SharedOk u ∧ ThreadOk u v → SameIndex s u →
      v.mayWrite = t.mayWrite → SharedOk u ∧ ThreadOk u v ∧ Grows s u ∧
        v.mayWrite = t.mayWrite ∧ (t.mayWrite = false → SameIndex s u) :=
    fun hok hu hv => ⟨hok.1, hok.2, hu.grows, hv, fun _ => hu⟩
  cases a with
  | callSet new =>
      unfold step at hstep
      simp only at hstep
      split at hstep
      · split_ifs at hstep with hwrite hzero
        · cases hstep
          refine hsame ⟨hS.finish (linearizes_set_fails rfl ?_), trivial⟩ ⟨rfl, rfl⟩ rfl
          rw [CodeMap.set, if_pos hzero]
        · cases hstep
          exact hsame ⟨hS, hwrite, hzero, rfl, fun c hc => absurd hc (Nat.not_lt_zero c)⟩
            ⟨rfl, rfl⟩ rfl
      · cases hstep
  | callResolve addr =>
      unfold step at hstep
      simp only at hstep
      split at hstep
      · split_ifs at hstep with hzero
        · cases hstep
          refine hsame ⟨hS.finish (linearizes_resolve_now le_rfl ?_), trivial⟩ ⟨rfl, rfl⟩ rfl
          rw [hzero, answer_of_absent hS.rep.nonzero]
        · cases hstep
          exact hsame ⟨hS, hzero, le_rfl, fun c hc => absurd hc (Nat.not_lt_zero c)⟩ ⟨rfl, rfl⟩ rfl
      · cases hstep
  | next =>
      unfold step at hstep
      simp only at hstep
      split at hstep
      · cases hstep
      · rename_i new i hpc
        obtain rfl : s' = (setStep s t new i).1 := (congrArg Prod.fst (Option.some.inj hstep)).symm
        obtain rfl : t' = (setStep s t new i).2 := (congrArg Prod.snd (Option.some.inj hstep)).symm
        refine hsame (own_setStep hS hpc hT) (sameIndex_setStep s t new i) ?_
        unfold setStep
        simp only
        split_ifs <;> rfl
      · rename_i new slot f todo pending hpc
        cases hstep
        simp only [ThreadOk, hpc] at hT
        obtain ⟨hwrite, hne, hsince, hzero, hway, hfilled⟩ := hT
        refine hsame ⟨hS, hwrite, hne, hsince, hzero, hway, ?_⟩ ⟨rfl, rfl⟩ rfl
        intro g hg hpending
        rw [List.mem_cons, not_or] at hpending
        refine hfilled g ?_ hpending.2
        rw [List.mem_cons, not_or]
        exact ⟨hpending.1, hg⟩
      · rename_i new slot hpc
        cases hstep
        obtain ⟨hok, hgrows⟩ := own_publish hS hpc hT
        refine ⟨hok, trivial, hgrows, rfl, fun hread => ?_⟩
        simp only [ThreadOk, hpc] at hT
        rw [hread] at hT
        exact absurd hT.1 (by decide)
      · cases hstep
      · rename_i addr i hpc
        obtain rfl : s' = (getStep s t addr i).1 := (congrArg Prod.fst (Option.some.inj hstep)).symm
        obtain rfl : t' = (getStep s t addr i).2 := (congrArg Prod.snd (Option.some.inj hstep)).symm
        refine hsame (own_getStep hS hpc hT) (sameIndex_getStep s t addr i) ?_
        unfold getStep
        simp only
        split_ifs <;> rfl
      · rename_i addr slot hpc
        cases hstep
        simp only [ThreadOk, hpc] at hT
        obtain ⟨hsince, hview⟩ := hT
        refine hsame ⟨hS.finish (linearizes_resolve_now hsince ?_), trivial⟩ ⟨rfl, rfl⟩ rfl
        rw [answer_of_slot hS.rep hview]
  | commit f =>
      unfold step at hstep
      simp only at hstep
      split at hstep
      · rename_i new slot todo pending hpc
        split_ifs at hstep with hf
        cases hstep
        obtain ⟨hok, hthread, hgrows⟩ := own_commit hS hpc hT f
        refine ⟨hok, hthread, hgrows, rfl, fun hread => ?_⟩
        simp only [ThreadOk, hpc] at hT
        rw [hread] at hT
        exact absurd hT.1 (by decide)
      · cases hstep

end Own

/-- The rule for interleavings, for one writer and any readers. -/
theorem step_interference :
    Interference step (fun _ _ _ => True) SharedOk ThreadOk OneWriter where
  symm := fun t t' h hboth => h ⟨hboth.2, hboth.1⟩
  own := fun s t a s' t' hS hT _ hstep => by
    obtain ⟨hS', hT', -⟩ := step_ok hS hT hstep
    exact ⟨hS', hT'⟩
  other := fun s t a s' t' t₀ hS hT hT₀ hone _ hstep => by
    obtain ⟨-, -, hgrows, hrole, hread⟩ := step_ok hS hT hstep
    refine ⟨?_, ?_⟩
    · by_cases hw : t.mayWrite = true
      · -- the other thread is a reader
        have hr : t₀.mayWrite = false := by
          rw [← Bool.not_eq_true]
          exact fun h => hone ⟨hw, h⟩
        exact hT₀.of_grows hr hgrows
      · exact hT₀.of_same (hread (Bool.not_eq_true _ ▸ hw))
    · unfold OneWriter
      rw [hrole]
      exact hone

/-! ## Whole runs -/

/-- The zero-initialised table, with every thread idle. -/
def start {ι : Type} (mayWrite : ι → Bool) : State ι Shared Thread :=
  ⟨⟨rtldEmpty, [], []⟩, fun t => ⟨mayWrite t, .idle, 0⟩⟩

theorem start_ok {ι : Type} {mayWrite : ι → Bool}
    (hone : ∀ t t', t ≠ t' → ¬ (mayWrite t = true ∧ mayWrite t' = true)) :
    Holds SharedOk ThreadOk OneWriter (start mayWrite) where
  shared := ⟨indexRep_empty, fun _ hr => absurd hr List.not_mem_nil⟩
  thread := fun _ => trivial
  apart := hone

/-- **Readers need no lock.** Any number of threads run `rtld_resolve` and at most one runs
`rtld_set`, in any interleaving of their loads and stores, with plain stores becoming visible
at any time before the release store that follows them. Then every call that has returned
gave the answer of the sequential index at one point between its start and its end, and at
every moment the table in memory, half-populated slots included, is read as exactly what has
been published. -/
theorem index_linearizable {ι : Type} [DecidableEq ι] (mayWrite : ι → Bool)
    (hone : ∀ t t', t ≠ t' → ¬ (mayWrite t = true ∧ mayWrite t' = true))
    (as : List (ι × Action)) (s : State ι Shared Thread)
    (hrun : Lib.Run.run (act step) (start mayWrite) as = some s) :
    (∀ r ∈ s.shared.returned, Linearizes s.shared.published r) ∧
      ∀ addr, rtldResolve s.shared.mem addr = answer s.shared.published addr := by
  have hend := step_interference.run as (start_ok hone) (Lib.Run.allSteps_true as _) hrun
  exact ⟨hend.shared.returned, fun addr => hend.shared.rep.resolve addr⟩

/-- A look-up that starts while the entry is being stored and ends after its publication. -/
def readDuringSet : List (Bool × Action) :=
  [(true, .callSet ⟨0x401000#64, 0x7000#64, 0x9000#64, 64#64⟩), (true, .next), (true, .next),
    (false, .callResolve 0x401000#64), (true, .next), (true, .next), (true, .commit .size),
    (true, .commit .entry), (true, .commit .base), (true, .next), (false, .next), (false, .next)]

theorem index_linearizable_readDuringSet :
    ∃ s, Lib.Run.run (act step) (start id) readDuringSet = some s ∧
      s.shared.returned.length = 2 ∧
      (∀ r ∈ s.shared.returned, Linearizes s.shared.published r) ∧
      ∀ addr, rtldResolve s.shared.mem addr = answer s.shared.published addr := by
  have hany : (Lib.Run.run (act step) (start id) readDuringSet).any
      (fun s => s.shared.returned.length == 2) = true := by decide +kernel
  obtain ⟨s, hrun, hlen⟩ := (Option.any_eq_true _ _).mp hany
  exact ⟨s, hrun, eq_of_beq hlen, index_linearizable id (by decide) readDuringSet s hrun⟩

/-- The stores of one writer that has found its slot. -/
def fillSlot (w : Bool) : List (Bool × Action) :=
  [(w, .next), (w, .next), (w, .next), (w, .commit .entry), (w, .commit .base), (w, .commit .size),
    (w, .next)]

/-- Two writers that find the same slot before either has published its entry. -/
def twoWriters : List (Bool × Action) :=
  [(true, .callSet ⟨0x1000#64, 0x7000#64, 0#64, 0#64⟩),
    (false, .callSet ⟨0x81000#64, 0x8000#64, 0#64, 0#64⟩), (true, .next), (false, .next)] ++
    fillSlot true ++ fillSlot false

/-- With two writers both calls return 0 and one entry is lost. -/
example : (Lib.Run.run (act step) (start fun _ => true) twoWriters).map
    (fun s => (s.shared.returned.length, rtldResolve s.shared.mem 0x1000#64)) =
    some (2, .error .ENOENT) := by decide +kernel

end Instrew.Client.IndexReaders
