import Instrew.Server.FoldedAccesses

/-!
# Fields in memory while a block runs

What the two conventions pass and get back (`withFields_eq`, `back_agree`), what becomes of
a block when its loads and stores are folded (`FoldedBlock`), and the case that `sptr`
escapes: the fields are stored where they come in and loaded where they go out, so that in
between memory has the whole CPU struct (`spill_simulates`).
-/

namespace Instrew.Server

open Instrew.Lib
open Instrew.Lib.Cfg
open Instrew.Lib.ByteMem (Mem)

section Conventions

variable {n : Nat} {W : Type} {F : Fields n} {D : Nat → Prop} {base : Nat} {junk : Nat → Mem}
variable {s : State Nat W} {t : State (Name n) W}

/-- The CPU struct is put together from memory and the values of the fields. -/
theorem withFields_eq {m m' : Mem} {vals : Fin n → Nat} (hm : ∀ o, ¬ F.Mapped o → m o = m' o)
    (hvals : ∀ i, F.value m' i = vals i % 256 ^ F.size i) : withFields F m vals = m' := by
  funext o
  cases hat : F.fieldAt o with
  | none =>
      simp only [withFields, hat]
      exact hm o (by simp [Fields.Mapped, hat])
  | some i =>
      simp only [withFields, hat]
      obtain ⟨hle, hlt⟩ := Fields.fieldAt_eq_some.mp hat
      rw [← ByteMem.byte_mod (vals i) (show o - F.off i < F.size i by omega), ← hvals i]
      exact ByteMem.byte_load o hle hlt

/-- What a call gets, also if the PC is in the name of the callee only. -/
theorem callArgs_value (vals : Fin n → Operand (Name n)) (env : Name n → Nat) (i : Fin n) :
    (match (callArgs F vals).params i with
      | some v => v.eval base env
      | none => (callArgs F vals).callee.pc base) = (vals i).eval base env := by
  unfold callArgs
  cases F.fieldIdx 0 with
  | none => rfl
  | some pc =>
      by_cases hi : i = pc
      · subst hi
        cases hv : vals i <;> simp [hv, Operand.eval, Callee.pc]
      · cases hv : vals pc <;> simp [hv, Function.update_of_ne hi]

theorem file_callArgs (vals : Fin n → Operand (Name n)) (t : State (Name n) W) :
    (fieldsConvention F base junk).file (callArgs F vals) t =
      withFields F t.mem (fun i => (vals i).eval base t.env) :=
  congrArg (withFields F t.mem) (funext (fun i => callArgs_value vals t.env i))

/-- Where a call or return gets the whole CPU struct from. -/
theorem StoresFolded.file {vals : Vals n} (h : StoresFolded F base .orig D vals s t)
    (hD : ∀ o, D o → F.Mapped o) {missing : Fin n → Name n}
    (hmissing : ∀ i, vals i = none → t.env (missing i) = F.value s.mem i) :
    withFields F t.mem (fun i => ((vals i).getD (.var (missing i))).eval base t.env) = s.mem := by
  apply withFields_eq
  · intro o ho
    apply h.agree.mem
    rintro (hDo | ⟨f, -, hf⟩)
    · exact ho (hD o hDo)
    · exact ho (Fields.mapped_iff.mpr ⟨f, hf⟩)
  · intro i
    cases hi : vals i with
    | none =>
        rw [Option.getD_none, Operand.eval, hmissing i hi]
        exact (ByteMem.load_mod _ _ _).symm
    | some v => exact h.value i v hi

/-- After a call the fields are in the struct that it returned. -/
theorem back_agree (F : Fields n) (base : Nat) (junk : Nat → Mem) (h : Agree .orig D s t) (b : Nat) (file : Mem) (w : W) :
    Agree .orig F.Mapped (memoryConvention.back b file { s with world := w, calls := s.calls + 1 })
        ((fieldsConvention F base junk).back b file { t with world := w, calls := t.calls + 1 }) ∧
      Holds F (.res b) (memoryConvention.back b file { s with world := w, calls := s.calls + 1 })
        ((fieldsConvention F base junk).back b file { t with world := w, calls := t.calls + 1 }) := by
  refine ⟨⟨h.env, fun o ho => ?_, rfl, congrArg (· + 1) h.calls⟩, fun i => if_pos rfl⟩
  exact if_neg ho

/-- Instructions of the old function do not change the values that are only in the new one. -/
theorem execAll_env_new {x : Name n} (hx : IsNew x) {l : List (Instr Nat W)}
    {l' : List (Instr (Name n) W)} (hdst : ∀ i ∈ l', ∃ j ∈ l.map (Instr.map .orig), i.dst = j.dst)
    (t : State (Name n) W) : (execAll base l' t).env x = t.env x := by
  apply execAll_env
  intro i hi heq
  obtain ⟨j, hj, hdst⟩ := hdst i hi
  obtain ⟨k, -, rfl⟩ := List.mem_map.mp hj
  rw [hdst, Instr.dst_map] at heq
  obtain ⟨y, -, hy⟩ := Option.map_eq_some_iff.mp heq
  exact hx y hy.symm

theorem Holds.enter {get : Fin n → Name n} (h : Holds F get s t) (hget : ∀ i, IsNew (get i))
    (phis : List (Phi Nat)) {extra : List (Phi (Name n))} (hextra : ∀ φ ∈ extra, ∀ i, φ.dst ≠ get i)
    (pred : Nat) :
    Holds F get (enter base phis pred s)
      (enter base (extra ++ phis.map (Phi.map .orig)) pred t) := by
  intro i
  rw [enter_env]
  · exact h i
  · intro φ hφ
    rcases List.mem_append.mp hφ with hφ | hφ
    · exact hextra φ hφ i
    · obtain ⟨ψ, -, rfl⟩ := List.mem_map.mp hφ
      exact fun heq => hget i _ heq.symm

end Conventions

/-! ## Blocks -/

section Blocks

variable {n : Nat} {W : Type} {F : Fields n}

/-- The instructions of a block with the loads folded. -/
def loadedBody (F : Fields n) (b : Nat) (body : List (Instr Nat W)) : List (Instr (Name n) W) :=
  if b = 0 then foldLoads F .arg (body.map (Instr.map .orig)) else body.map (Instr.map .orig)

/-- What becomes of a block when its loads and stores are folded. -/
inductive FoldedBlock (F : Fields n) (b : Nat) :
    Block Nat W Unit Unit → Block (Name n) W (Vals n) (Vals n) → Prop where
  | branch {phis body br} : FoldedBlock F b ⟨phis, body, .branch br⟩
      ⟨phis.map (Phi.map .orig), loadedBody F b body, .branch (br.map .orig)⟩
  | call {phis body after br body' vals} (h : foldStores F (loadedBody F b body) = some (body', vals)) :
      FoldedBlock F b ⟨phis, body, .call () after br⟩
        ⟨phis.map (Phi.map .orig), body',
          .call vals (foldLoads F (.res b) (after.map (Instr.map .orig))) (br.map .orig)⟩
  | callRet {phis body after body' vals after' vals'}
      (h : foldStores F (loadedBody F b body) = some (body', vals))
      (h' : foldStores F (foldLoads F (.res b) (after.map (Instr.map .orig))) = some (after', vals')) :
      FoldedBlock F b ⟨phis, body, .callRet () after ()⟩
        ⟨phis.map (Phi.map .orig), body', .callRet vals after' vals'⟩
  | ret {phis body body' vals} (h : foldStores F (loadedBody F b body) = some (body', vals)) :
      FoldedBlock F b ⟨phis, body, .ret ()⟩ ⟨phis.map (Phi.map .orig), body', .ret vals⟩
  | tail {phis body body' vals} (h : foldStores F (loadedBody F b body) = some (body', vals)) :
      FoldedBlock F b ⟨phis, body, .tail ()⟩ ⟨phis.map (Phi.map .orig), body', .tail vals⟩

theorem foldBlockStores_eq {b : Nat} {blk : Block Nat W Unit Unit}
    {blk' : Block (Name n) W (Vals n) (Vals n)}
    (h : foldBlockStores F (foldBlockLoads F b blk) = some blk') : FoldedBlock F b blk blk' := by
  obtain ⟨phis, body, exit⟩ := blk
  cases exit with
  | branch br =>
      cases h
      exact .branch
  | call c after br =>
      obtain ⟨⟨body', vals⟩, hfold, rfl⟩ := Option.map_eq_some_iff.mp h
      exact .call hfold
  | callRet c after r =>
      obtain ⟨⟨after', vals'⟩, hafter, hrest⟩ := Option.bind_eq_some_iff.mp h
      obtain ⟨⟨body', vals⟩, hfold, rfl⟩ := Option.map_eq_some_iff.mp hrest
      exact .callRet hfold hafter
  | ret r =>
      obtain ⟨⟨body', vals⟩, hfold, rfl⟩ := Option.map_eq_some_iff.mp h
      exact .ret hfold
  | tail c =>
      obtain ⟨⟨body', vals⟩, hfold, rfl⟩ := Option.map_eq_some_iff.mp h
      exact .tail hfold

theorem map_eq_of_mapM {α β : Type} {g : α → Option β} : ∀ {l : List α} {l' : List β},
    l.mapM g = some l' → l.map g = l'.map some
  | [], l', h => by
      cases h
      rfl
  | x :: l, l', h => by
      rw [List.mapM_cons] at h
      obtain ⟨y, hy, hrest⟩ := Option.bind_eq_some_iff.mp h
      obtain ⟨ys, hys, heq⟩ := Option.bind_eq_some_iff.mp hrest
      cases heq
      rw [List.map_cons, List.map_cons, hy, map_eq_of_mapM hys]

/-- The folded function has the folded blocks. -/
structure FoldedFrom (F : Fields n) (f : LiftedFn W) (folded : FoldedFn n W) : Prop where
  missing : ∀ b : Nat, f[b]? = none → folded[b]? = none
  block : ∀ (b : Nat) blk, f[b]? = some blk → ∃ blk', folded[b]? = some blk' ∧ FoldedBlock F b blk blk'

theorem foldedFrom_of_mapM {f : LiftedFn W} {folded : FoldedFn n W}
    (h : (f.mapIdx (foldBlockLoads F)).mapM (foldBlockStores F) = some folded) :
    FoldedFrom F f folded := by
  have hget : ∀ b : Nat, (f[b]?.map (foldBlockLoads F b)).map (foldBlockStores F) =
      folded[b]?.map some := by
    intro b
    rw [← List.getElem?_mapIdx, ← List.getElem?_map, ← List.getElem?_map, map_eq_of_mapM h]
  constructor
  · intro b hb
    have hb' := hget b
    rw [hb] at hb'
    simpa using hb'
  · intro b blk hb
    have hb' := hget b
    rw [hb] at hb'
    obtain ⟨blk', hblk', heq⟩ := Option.map_eq_some_iff.mp hb'.symm
    exact ⟨blk', hblk', foldBlockStores_eq heq.symm⟩

/-- What the pass relies on in a lifted function. The last one is the rule of LLVM that
nothing branches to the entry block. -/
structure Lifted (F : Fields n) (f : LiftedFn W) : Prop where
  whole : ∀ blk ∈ f, ∀ i ∈ instrs blk, WholeAccess F i
  ordered : ∀ blk ∈ f, Ordered (instrs blk)
  entry : f.head?.all (fun blk => blk.exit.isBranch)
  entryPreds : ∀ blk ∈ f, 0 ∉ successors blk

theorem Lifted.isBranch {f : LiftedFn W} (h : Lifted F f) {b : Nat} {blk : Block Nat W Unit Unit}
    (hblk : f[b]? = some blk) (hb : b = 0) : blk.exit.isBranch := by
  subst hb
  have hentry := h.entry
  rwa [List.head?_eq_getElem?, hblk] at hentry

theorem ne_zero_of_exit {b : Nat} {exit : Exit Nat W Unit Unit} (hentry : b = 0 → exit.isBranch)
    (hexit : exit.isBranch = false) : b ≠ 0 := by
  intro hb
  rw [hentry hb] at hexit
  cases hexit

/-- A branch of the old function, to related states. -/
theorem branchSim {M : Machine W} {D : Nat → Prop} {b : Nat} {s : State Nat W}
    {t : State (Name n) W} {Rel : Nat → Nat → State Nat W → State (Name n) W → Prop}
    (h : Agree .orig D s t) (br : Branch Nat W) (hrel : ∀ b' ∈ br.succs, Rel b b' s t) :
    BranchSim M Rel b br (br.map .orig) s t :=
  ⟨h.target br, fun b' hb' => hrel b' (List.mem_of_getElem? hb')⟩

end Blocks

/-! ## If `sptr` escapes -/

section Spill

variable {n : Nat} {W : Type} {F : Fields n} {D : Nat → Prop} {base : Nat}
variable {s : State Nat W} {t : State (Name n) W}

/-- The stores of some fields, one after the other. -/
theorem stores_agree (base : Nat) {get : Fin n → Name n} : ∀ (l : List (Fin n)) {D : Nat → Prop}
    {t : State (Name n) W}, Agree .orig D s t → Holds F get s t →
      Agree .orig (fun o => D o ∧ ∀ i ∈ l, ¬ F.Has i o) s
          (execAll base (l.map (fun i => .store (F.off i) (F.size i) (.var (get i)))) t) ∧
        Holds F get s
          (execAll base (l.map (fun i => .store (F.off i) (F.size i) (.var (get i)))) t) ∧
        events base (l.map (fun i => .store (F.off i) (F.size i) (.var (get i)))) t = []
  | [], _, _, h, hholds => ⟨h.mono (fun _ ho => ⟨ho, fun _ hi => nomatch hi⟩), hholds, rfl⟩
  | i :: l, D, t, h, hholds => by
      have hstep : Agree .orig (fun o => D o ∧ ¬ F.Has i o) s
          ((Instr.store (F.off i) (F.size i) (.var (get i))).next base t) := by
        refine ⟨h.env, fun o ho => ?_, h.world, h.calls⟩
        by_cases hi : F.Has i o
        · refine (ByteMem.store_of_mem hi).trans ?_
          rw [Operand.eval, hholds i]
          exact ByteMem.byte_load o hi.1 hi.2
        · exact (ByteMem.store_of_not_mem hi).trans (h.mem o (fun hD => ho ⟨hD, hi⟩))
      obtain ⟨hagree, hholds', hevents⟩ := stores_agree base l hstep hholds
      refine ⟨hagree.mono ?_, hholds', hevents⟩
      rintro o ⟨⟨hD, hi⟩, hl⟩
      exact ⟨hD, List.forall_mem_cons.mpr ⟨hi, hl⟩⟩

/-- **After `CreateStores` memory has the whole CPU struct.** -/
theorem createStores_agree (base : Nat) {get : Fin n → Name n} (h : Agree .orig F.Mapped s t)
    (hholds : Holds F get s t) :
    Agree .orig (fun _ => False) s (execAll base (createStores F get) t) ∧
      Holds F get s (execAll base (createStores F get) t) ∧
      events base (createStores F get) t = [] := by
  obtain ⟨hagree, hholds', hevents⟩ := stores_agree base (List.finRange n) h hholds
  refine ⟨hagree.mono ?_, hholds', hevents⟩
  rintro o ⟨hmapped, hnone⟩
  obtain ⟨i, hi⟩ := Fields.mapped_iff.mp hmapped
  exact hnone i (List.mem_finRange i) hi

/-- Loads into values that only the new function has. -/
theorem loads_reload (F : Fields n) (base b : Nat) : ∀ (l : List (Fin n)) (t : State (Name n) W),
    ∃ env, execAll base (l.map (fun i => .load (.reload b i) (F.off i) (F.size i))) t =
        { t with env := env } ∧
      (∀ x, (∀ i, x ≠ .reload b i) → env x = t.env x) ∧
      ∀ i, env (.reload b i) = if i ∈ l then F.value t.mem i else t.env (.reload b i)
  | [], t => ⟨t.env, rfl, fun _ _ => rfl, fun _ => rfl⟩
  | i :: l, t => by
      obtain ⟨env, heq, hother, hreload⟩ :=
        loads_reload F base b l (t.set (.reload b i) (F.value t.mem i))
      refine ⟨env, heq, ?_, ?_⟩
      · intro x hx
        rw [hother x hx]
        exact Function.update_of_ne (hx i) _ _
      · intro j
        rw [hreload j]
        by_cases hj : j = i
        · subst hj
          simp [State.set]
        · have hne : Name.reload b j ≠ .reload b i := fun h => hj (Name.reload.inj h).2
          simp [State.set, List.mem_cons, hj]

theorem events_reloads (b : Nat) (vals : Vals n) (t : State (Name n) W) :
    events base (reloads F b vals) t = [] := by
  unfold reloads
  generalize (List.finRange n).filter (fun i => (vals i).isNone) = l
  induction l generalizing t with
  | nil => rfl
  | cons i l ih => exact ih _

/-- **After the loads of `UpdateCallRet` every field is in a value.** -/
theorem reloads_folded {vals : Vals n} (hvals : ∀ f v, vals f = some v → ∃ u, v = Operand.map .orig u)
    (b : Nat) (h : StoresFolded F base .orig (fun _ => False) vals s t) :
    StoresFolded F base .orig (fun _ => False) vals s (execAll base (reloads F b vals) t) ∧
      ∀ i, vals i = none → (execAll base (reloads F b vals) t).env (.reload b i) = F.value s.mem i := by
  obtain ⟨env, heq, hother, hreload⟩ := loads_reload F base b
    ((List.finRange n).filter (fun i => (vals i).isNone)) t
  have horig : ∀ x, env (.orig x) = t.env (.orig x) := fun x => hother _ (fun i h => nomatch h)
  rw [reloads, heq]
  refine ⟨⟨⟨fun x => (horig x).trans (h.agree.env x), h.agree.mem, h.agree.world, h.agree.calls⟩,
    fun f v hv => ?_⟩, fun i hi => ?_⟩
  · rw [h.value f v hv]
    obtain ⟨u, rfl⟩ := hvals f v hv
    cases u with
    | const | based => rfl
    | var x => exact congrArg (· % _) (horig x).symm
  · have hmem : i ∈ (List.finRange n).filter (fun i => (vals i).isNone) :=
      List.mem_filter.mpr ⟨List.mem_finRange i, by rw [hi]; rfl⟩
    refine (hreload i).trans ?_
    rw [if_pos hmem]
    -- the field is not folded, so memory has it
    refine Fields.value_congr (fun o ho => h.agree.mem o ?_)
    rintro (hF | ⟨f, hf, hfo⟩)
    · exact hF
    · obtain rfl := Fields.has_unique hfo ho
      rw [hi] at hf
      cases hf

/-- At the beginning the fields are in the arguments; from then on they are in memory. -/
structure SpillRel (F : Fields n) (pred b : Nat) (s : State Nat W) (t : State (Name n) W) : Prop where
  agree : Agree .orig (fun o => b = 0 ∧ F.Mapped o) s t
  args : b = 0 → Holds F .arg s t

theorem SpillRel.enter {pred b : Nat} (h : SpillRel F pred b s t) (base : Nat) (phis : List (Phi Nat)) :
    SpillRel F pred b (enter base phis pred s) (Cfg.enter base (phis.map (Phi.map .orig)) pred t) where
  agree := h.agree.enter orig_injective phis (fun _ hφ => absurd hφ List.not_mem_nil) pred
  args hb := (h.args hb).enter isNew_arg phis (fun _ hφ => absurd hφ List.not_mem_nil) pred

theorem SpillRel.next {b b' : Nat} (h : Agree .orig (fun _ => False) s t) (hb' : b' ≠ 0) :
    SpillRel F b b' s t :=
  ⟨h.mono (fun _ ho => ho.elim), fun h => absurd h hb'⟩

/-- All fields are stored, and then loads are folded. -/
theorem createStores_foldLoads (base : Nat) {get : Fin n → Name n} (hget : ∀ i, IsNew (get i))
    (h : Agree .orig F.Mapped s t) (hholds : Holds F get s t) {body : List (Instr Nat W)}
    (hwhole : ∀ i ∈ body, WholeAccess F i) :
    let body' := createStores F get ++ foldLoads F get (body.map (Instr.map .orig))
    Agree .orig (fun _ => False) (execAll base body s) (execAll base body' t) ∧
      events base body' t = events base body s := by
  intro body'
  rw [execAll_append, events_append]
  obtain ⟨hagree, hholds', hevents⟩ := createStores_agree base h hholds
  obtain ⟨hagree', hevents'⟩ :=
    foldLoads_agree base hget hagree hholds' hwhole (fun i _ => i.avoids_false)
  exact ⟨hagree', by rw [hevents, hevents', List.nil_append]⟩

/-- The instructions of a block that ends in a branch. -/
theorem SpillRel.body {pred b : Nat} (h : SpillRel F pred b s t) (base : Nat) {body : List (Instr Nat W)}
    (hwhole : ∀ i ∈ body, WholeAccess F i) :
    let body' := (if b = 0 then createStores F .arg else []) ++ loadedBody F b body
    Agree .orig (fun _ => False) (execAll base body s) (execAll base body' t) ∧
      events base body' t = events base body s := by
  intro body'
  by_cases hb : b = 0
  · have hbody' : body' = createStores F .arg ++ foldLoads F .arg (body.map (Instr.map .orig)) := by
      simp only [body', loadedBody, if_pos hb]
    rw [hbody']
    exact createStores_foldLoads base isNew_arg (h.agree.mono (fun o ho => ho.2)) (h.args hb) hwhole
  · have hbody' : body' = body.map (Instr.map .orig) := by
      simp only [body', loadedBody, if_neg hb, List.nil_append]
    rw [hbody']
    have hagree : Agree .orig (fun _ => False) s t := h.agree.mono (fun o ho => hb ho.1)
    exact ⟨hagree.execAll orig_injective (fun i _ => i.avoids_false),
      hagree.events orig_injective (fun i _ => i.avoids_false)⟩

/-- The instructions of a block before a call or return. -/
theorem SpillRel.exit {pred b : Nat} (h : SpillRel F pred b s t) (base : Nat) (hb : b ≠ 0)
    {body : List (Instr Nat W)} {body' : List (Instr (Name n) W)} {vals : Vals n}
    (hfold : foldStores F (loadedBody F b body) = some (body', vals)) (hord : Ordered body)
    (hwhole : ∀ i ∈ body, WholeAccess F i) :
    let t' := execAll base ((if b = 0 then createStores F .arg else []) ++ body' ++ reloads F b vals) t
    events base ((if b = 0 then createStores F .arg else []) ++ body' ++ reloads F b vals) t =
        events base body s ∧
      Agree .orig F.Mapped (execAll base body s) t' ∧
      withFields F t'.mem (fun i => ((vals i).getD (.var (.reload b i))).eval base t'.env) =
        (execAll base body s).mem := by
  intro t'
  rw [loadedBody, if_neg hb] at hfold
  have hagree : Agree .orig (fun _ => False) s t := h.agree.mono (fun o ho => hb ho.1)
  obtain ⟨hevents, hfolded⟩ :=
    foldStores_folded orig_injective hfold hord hwhole (fun i _ => i.avoids_false) hagree
  have hvals : ∀ f v, vals f = some v → ∃ u, v = Operand.map .orig u := by
    intro f v hv
    obtain ⟨off, size, hmem⟩ := foldStores_value hfold hv
    obtain ⟨u, -, heq⟩ := store_mem_map hmem
    exact ⟨u, heq⟩
  obtain ⟨hreloads, hmissing⟩ := reloads_folded hvals b hfolded
  have ht' : t' = execAll base (reloads F b vals) (execAll base body' t) := by
    simp only [t', if_neg hb, List.nil_append, execAll_append]
  rw [ht', if_neg hb, List.nil_append, events_append, hevents, events_reloads, List.append_nil]
  refine ⟨rfl, hreloads.agree.mono ?_, hreloads.file (fun _ ho => ho.elim) hmissing⟩
  rintro o (hF | ⟨f, -, hf⟩)
  · exact hF.elim
  · exact Fields.mapped_iff.mpr ⟨f, hf⟩

/-- The instructions between a call and a return. -/
theorem createStores_reloads (base : Nat) {b : Nat} (h : Agree .orig F.Mapped s t)
    (hholds : Holds F (.res b) s t) {after : List (Instr Nat W)} {after' : List (Instr (Name n) W)}
    {vals : Vals n}
    (hfold : foldStores F (foldLoads F (.res b) (after.map (Instr.map .orig))) = some (after', vals))
    (hord : Ordered after) (hwhole : ∀ i ∈ after, WholeAccess F i) :
    let l := createStores F (.res b) ++ after' ++ reloads F b vals
    let t' := execAll base l t
    events base l t = events base after s ∧
      withFields F t'.mem (fun i => ((vals i).getD (.var (.reload b i))).eval base t'.env) =
        (execAll base after s).mem := by
  intro l t'
  obtain ⟨hstored, hholds', hstores⟩ := createStores_agree base h hholds
  obtain ⟨hloaded, hloads⟩ := foldLoads_agree base (isNew_res b) hstored hholds' hwhole
    (fun i _ => i.avoids_false)
  have hord' : Ordered (foldLoads F (.res b) (after.map (Instr.map .orig))) := by
    refine Ordered.foldLoads ?_ (hord.map orig_injective)
    intro i hi f heq
    obtain ⟨j, -, rfl⟩ := List.mem_map.mp hi
    rw [Instr.dst_map] at heq
    obtain ⟨v, -, hv⟩ := Option.map_eq_some_iff.mp heq
    cases hv
  have hfold' : foldStores F ((foldLoads F (.res b) (after.map (Instr.map .orig))).map
      (Instr.map id)) = some (after', vals) := by
    rwa [List.map_congr_left (fun i _ => Instr.map_id i), List.map_id']
  obtain ⟨hevents, hfolded⟩ := foldStores_folded Function.injective_id hfold' hord'
    (wholeAccess_foldLoads hwhole) (fun i _ => i.avoids_false)
    (Agree.refl (execAll base (createStores F (.res b)) t))
  have hvals : ∀ f v, vals f = some v → ∃ u, v = Operand.map .orig u := by
    intro f v hv
    obtain ⟨off, size, hmem⟩ := foldStores_value hfold hv
    rcases of_mem_foldLoads _ hmem with hmem | ⟨dst, size', g, heq⟩
    · obtain ⟨u, -, heq⟩ := store_mem_map hmem
      exact ⟨u, heq⟩
    · cases heq
  obtain ⟨hreloads, hmissing⟩ := reloads_folded hvals b (StoresFolded.trans hloaded hfolded)
  have ht' : t' = execAll base (reloads F b vals)
      (execAll base after' (execAll base (createStores F (.res b)) t)) := by
    rw [show t' = execAll base l t from rfl, execAll_append, execAll_append]
  refine ⟨?_, ht' ▸ hreloads.file (fun _ ho => ho.elim) hmissing⟩
  rw [events_append, events_append, hstores, hevents, hloads, events_reloads, List.append_nil,
    List.nil_append]

theorem spill_block {M : Machine W} {junk : Nat → Mem} {pred b : Nat} {blk : Block Nat W Unit Unit}
    {blk' : Block (Name n) W (Vals n) (Vals n)} (hblk : FoldedBlock F b blk blk')
    (hwhole : ∀ i ∈ instrs blk, WholeAccess F i) (hord : Ordered (instrs blk))
    (hentry : b = 0 → blk.exit.isBranch) (hsucc : 0 ∉ successors blk)
    (h : SpillRel F pred b s t) :
    events M.base (spill F b blk').body (enter M.base (spill F b blk').phis pred t) =
        events M.base blk.body (enter M.base blk.phis pred s) ∧
      ExitSim M memoryConvention (fieldsConvention F M.base junk) (SpillRel F) b
        (execAll M.base blk.body (enter M.base blk.phis pred s))
        (execAll M.base (spill F b blk').body (enter M.base (spill F b blk').phis pred t))
        blk.exit (spill F b blk').exit := by
  cases hblk with
  | @branch phis body br =>
      obtain ⟨hagree, hevents⟩ := (h.enter M.base phis).body M.base hwhole
      simp only [spill, exitVals, List.append_nil, storeBack, reloadAfter, updateCallRet]
      refine ⟨hevents, branchSim hagree br (fun b' hb' => SpillRel.next hagree ?_)⟩
      rintro rfl
      exact hsucc hb'
  | @call phis body after br body' vals hfold =>
      have hb : b ≠ 0 := ne_zero_of_exit hentry rfl
      obtain ⟨hevents, hagree, hfile⟩ := (h.enter M.base phis).exit M.base hb hfold
        hord.left (fun i hi => hwhole i (List.mem_append_left _ hi))
      simp only [spill, exitVals, storeBack, reloadAfter, updateCallRet]
      refine ⟨hevents, (file_callArgs _ _).trans hfile, hagree.world, ?_⟩
      rintro r rfl
      obtain ⟨hback, hholds⟩ := back_agree F M.base junk hagree b _ _
      obtain ⟨hafter, hevents'⟩ := createStores_foldLoads M.base (isNew_res b) hback hholds
        (fun i hi => hwhole i (List.mem_append_right _ hi))
      refine ⟨hevents', branchSim hafter br (fun b' hb' => SpillRel.next hafter ?_)⟩
      rintro rfl
      exact hsucc hb'
  | @callRet phis body after body' vals after' vals' hfold hfold' =>
      have hb : b ≠ 0 := ne_zero_of_exit hentry rfl
      obtain ⟨hevents, hagree, hfile⟩ := (h.enter M.base phis).exit M.base hb hfold
        hord.left (fun i hi => hwhole i (List.mem_append_left _ hi))
      simp only [spill, exitVals, storeBack, reloadAfter, updateCallRet]
      refine ⟨hevents, (file_callArgs _ _).trans hfile, hagree.world, ?_⟩
      rintro r rfl
      obtain ⟨hback, hholds⟩ := back_agree F M.base junk hagree b _ _
      exact createStores_reloads M.base hback hholds hfold' hord.right
        (fun i hi => hwhole i (List.mem_append_right _ hi))
  | @ret phis body body' vals hfold =>
      have hb : b ≠ 0 := ne_zero_of_exit hentry rfl
      obtain ⟨hevents, -, hfile⟩ := (h.enter M.base phis).exit M.base hb hfold hord hwhole
      exact ⟨hevents, hfile⟩
  | @tail phis body body' vals hfold =>
      have hb : b ≠ 0 := ne_zero_of_exit hentry rfl
      obtain ⟨hevents, -, hfile⟩ := (h.enter M.base phis).exit M.base hb hfold hord hwhole
      exact ⟨hevents, (file_callArgs _ _).trans hfile⟩

/-- **With all fields in memory the new function simulates the old one.** -/
theorem spill_simulates {f : LiftedFn W} {folded : FoldedFn n W} (hf : Lifted F f)
    (hfolded : FoldedFrom F f folded) (M : Machine W) (junk : Nat → Mem) :
    Simulates M memoryConvention (fieldsConvention F M.base junk) f (folded.mapIdx (spill F))
      (SpillRel F) where
  missing := by
    intro b hb
    rw [List.getElem?_mapIdx, hfolded.missing b hb]
    rfl
  block := by
    intro pred b s t blk h hb
    obtain ⟨blk', hb', hblk⟩ := hfolded.block b blk hb
    have hmem := List.mem_of_getElem? hb
    refine ⟨spill F b blk', by rw [List.getElem?_mapIdx, hb']; rfl, ?_⟩
    exact spill_block hblk (hf.whole blk hmem) (hf.ordered blk hmem) (hf.isBranch hb)
      (hf.entryPreds blk hmem) h

end Spill

end Instrew.Server
