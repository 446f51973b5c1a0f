import Instrew.Server.SpilledFields

/-!
# The calling convention is changed and nothing else

`changeCallConv_preserves`: a lifted function with the CPU struct in memory and the new
function with the fields in values have the same trace. If `sptr` escapes that is
`spill_simulates`. Otherwise a field that a block needs is an argument, the result of a
call, or a phi; the keys of `phimap` are closed under predecessors (`phimap_closed`), so
that on every edge each phi reads the field as the old function has it in memory
(`WireRel`).
-/

namespace Instrew.Server

open Instrew.Lib
open Instrew.Lib.Cfg
open Instrew.Lib.ByteMem (Mem)

/-! ## The phis -/

section Phis

variable {n : Nat} {W : Type} {f : FoldedFn n W} {b p : Nat} {i : Fin n}

theorem mem_preds : p ∈ preds f b ↔ ∃ blk, f[p]? = some blk ∧ b ∈ successors blk := by
  rw [preds, List.mem_filter, List.mem_range]
  constructor
  · rintro ⟨hp, hany⟩
    rw [List.getElem?_eq_getElem hp] at hany ⊢
    exact ⟨_, rfl, by simpa using hany⟩
  · rintro ⟨blk, hp, hb⟩
    refine ⟨(List.getElem?_eq_some_iff.mp hp).1, ?_⟩
    rw [hp]
    simpa using hb

theorem mem_phiSeeds : (b, i) ∈ phiSeeds f ↔
    ∃ blk vals, f[b]? = some blk ∧ exitVals blk.exit = some vals ∧ vals i = none := by
  simp only [phiSeeds, List.mem_flatMap, List.mem_map, List.mem_filter, List.mem_range,
    List.mem_finRange, true_and]
  constructor
  · rintro ⟨b', hb', i', hvals, heq⟩
    cases heq
    rw [List.getElem?_eq_getElem hb', Option.bind_some] at hvals
    cases hexit : exitVals f[b].exit with
    | none => simp [hexit] at hvals
    | some vals =>
        refine ⟨f[b], vals, List.getElem?_eq_getElem hb', hexit, ?_⟩
        simpa [hexit] using hvals
  · rintro ⟨blk, vals, hb, hexit, hi⟩
    refine ⟨b, (List.getElem?_eq_some_iff.mp hb).1, i, ?_, rfl⟩
    simp [hb, hexit, hi]

theorem mem_phiNeeds {x : Nat × Fin n} :
    (p, i) ∈ phiNeeds f x ↔ p ∈ preds f x.1 ∧ produced f p i = none ∧ i = x.2 := by
  simp only [phiNeeds, List.mem_map, List.mem_filter, Option.isNone_iff_eq_none, Prod.mk.injEq]
  constructor
  · rintro ⟨q, ⟨hq, hnone⟩, rfl, rfl⟩
    exact ⟨hq, hnone, rfl⟩
  · rintro ⟨hp, hnone, rfl⟩
    exact ⟨p, ⟨hp, hnone⟩, rfl, rfl⟩

theorem phiSeeds_nodup (f : FoldedFn n W) : (phiSeeds f).Nodup := by
  rw [phiSeeds, List.nodup_flatMap]
  constructor
  · intro b _
    exact ((List.nodup_finRange n).filter _).map (fun i j h => (Prod.mk.inj h).2)
  · refine List.nodup_range.imp ?_
    intro b b' hne x hx hx'
    obtain ⟨i, -, rfl⟩ := List.mem_map.mp hx
    obtain ⟨i', -, heq⟩ := List.mem_map.mp hx'
    exact hne (Prod.mk.inj heq).1.symm

/-- **A phi of `phimap` finds a value in every predecessor.** -/
theorem phimap_closed (h : (b, i) ∈ phimap f) (hp : p ∈ preds f b) (hnone : produced f p i = none) :
    (p, i) ∈ phimap f := by
  rw [phimap] at h ⊢
  split_ifs at h ⊢ with hcalls
  · have huniv : ∀ (x : Nat × Fin n), x ∈ List.range f.length ×ˢ List.finRange n ↔ x.1 < f.length := by
      intro x
      rw [List.mem_product, List.mem_range]
      exact and_iff_left (List.mem_finRange x.2)
    have hsucc : ∀ x ∈ List.range f.length ×ˢ List.finRange n,
        phiNeeds f x ⊆ List.range f.length ×ˢ List.finRange n := by
      rintro x - ⟨q, j⟩ hq
      obtain ⟨blk, hblk, -⟩ := mem_preds.mp (mem_phiNeeds.mp hq).1
      exact (huniv _).mpr (List.getElem?_eq_some_iff.mp hblk).1
    have hinv : Worklist.Inv (phiNeeds f) (List.range f.length ×ˢ List.finRange n) (phiSeeds f)
        (phiSeeds f) := by
      refine ⟨phiSeeds_nodup f, List.Subset.refl _, ?_, fun x hx => .inl hx⟩
      rintro ⟨q, j⟩ hq
      obtain ⟨blk, vals, hblk, -⟩ := mem_phiSeeds.mp hq
      exact (huniv _).mpr (List.getElem?_eq_some_iff.mp hblk).1
    refine Worklist.close_closed hsucc _ hinv ?_ (b, i) h (mem_phiNeeds.mpr ⟨hp, hnone, rfl⟩)
    rw [List.length_product, List.length_range, List.length_finRange]
  · exact absurd h List.not_mem_nil

theorem mem_phimap_of_vals {blk : Block (Name n) W (Vals n) (Vals n)} {vals : Vals n}
    (hcalls : hasCalls f) (hb : f[b]? = some blk) (hexit : exitVals blk.exit = some vals)
    (hi : vals i = none) : (b, i) ∈ phimap f := by
  rw [phimap, if_pos hcalls]
  exact Worklist.seen_subset_close _ _ _ (mem_phiSeeds.mpr ⟨blk, vals, hb, hexit, hi⟩)

/-- A phi gets the value from where the block is entered. -/
theorem enter_newPhis (base : Nat) (h : (b, i) ∈ phimap f) {pred : Nat} (hpred : pred ∈ preds f b)
    (phis : List (Phi (Name n))) (t : State (Name n) W) :
    (enter base (newPhis f b ++ phis) pred t).env (.phi b i) =
      t.env ((produced f pred i).getD (.phi pred i)) := by
  have hfind : (newPhis f b).find? (fun φ => φ.dst = .phi b i) =
      some ⟨.phi b i, (preds f b).map (fun p => (p, .var ((produced f p i).getD (.phi p i))))⟩ := by
    rw [newPhis, List.find?_map]
    cases hj : ((List.finRange n).filter (fun i => (b, i) ∈ phimap f)).find? _ with
    | none =>
        have hmem : i ∈ (List.finRange n).filter (fun i => (b, i) ∈ phimap f) :=
          List.mem_filter.mpr ⟨List.mem_finRange i, by simpa using h⟩
        exact absurd (List.find?_eq_none.mp hj i hmem) (by simp)
    | some j =>
        have hji : Name.phi b j = .phi b i := by simpa using List.find?_some hj
        cases hji
        rfl
  have hlookup := List.lookup_graph
    (fun p => Operand.var ((produced f p i).getD (.phi p i))) hpred
  simp only [enter, List.find?_append, hfind, Option.some_or, hlookup]
  rfl

end Phis

/-! ## If `sptr` does not escape -/

section Wire

variable {n : Nat} {W : Type} {F : Fields n} {f : FoldedFn n W} {base pred b : Nat}
variable {s : State Nat W} {t : State (Name n) W}

theorem avoids_of_not_escapes {i : Instr (Name n) W} (h : escapes F i = false) :
    i.Avoids F.Mapped := by
  cases i with
  | op | cast | store => trivial
  | load => exact Fields.touches_eq_false.mp h
  | helper => cases h

theorem not_helper_of_not_escapes {i : Instr Nat W} (h : escapes F (i.map .orig) = false) :
    ∀ dst args mayWrite g, i ≠ .helper dst args mayWrite g := by
  rintro dst args mayWrite g rfl
  cases h

/-- An instruction that needs no field in memory writes none. -/
theorem keeps_of_not_escapes {i : Instr Nat W} (hwhole : WholeAccess F i)
    (hesc : escapes F (i.map .orig) = false) (hstore : storesField F (i.map .orig) = false) {o : Nat}
    (ho : F.Mapped o) : i.Keeps o := by
  refine keeps_of_store hwhole (not_helper_of_not_escapes hesc) ?_ ho
  rintro off size v rfl g hg
  simp [Instr.map, storesField, hg] at hstore

/-- Values at the beginning of the function or after a call stay those of the fields. -/
theorem foldLoads_holds {get : Fin n → Name n} (hget : ∀ i, IsNew (get i))
    (h : Agree .orig F.Mapped s t) (hholds : Holds F get s t) {l : List (Instr Nat W)}
    (hwhole : ∀ i ∈ l, WholeAccess F i)
    (hesc : ∀ i ∈ foldLoads F get (l.map (Instr.map .orig)), escapes F i = false)
    (hstore : ∀ i ∈ foldLoads F get (l.map (Instr.map .orig)), storesField F i = false) :
    let l' := foldLoads F get (l.map (Instr.map .orig))
    Agree .orig F.Mapped (execAll base l s) (execAll base l' t) ∧
      Holds F get (execAll base l s) (execAll base l' t) ∧ events base l' t = events base l s := by
  intro l'
  obtain ⟨hagree, hevents⟩ := foldLoads_agree base hget h hholds hwhole
    (fun i hi => avoids_of_not_escapes (hesc i hi))
  refine ⟨hagree, fun i => ?_, hevents⟩
  rw [execAll_env_new (hget i) (fun j hj => dst_foldLoads get hj), hholds i]
  refine Fields.value_congr (fun o ho => (execAll_mem s (fun j hj => ?_)).symm)
  rcases mem_foldLoads (F := F) get (List.mem_map_of_mem hj) with hj' | ⟨dst, off, size, hload⟩
  · exact keeps_of_not_escapes (hwhole j hj) (hesc _ hj') (hstore _ hj')
      (Fields.mapped_iff.mpr ⟨i, ho⟩)
  · cases j with
    | load => trivial
    | _ => cases hload

/-- Where a field is while a block is executed. -/
def current (f : FoldedFn n W) (b : Nat) (i : Fin n) : Name n :=
  if b = 0 ∨ hasCalls f = false then .arg i else .phi b i

theorem isNew_current (f : FoldedFn n W) (b : Nat) (i : Fin n) : IsNew (current f b i) := by
  unfold current
  split_ifs
  · exact isNew_arg i
  · exact isNew_phi b i

/-- The block has the field in a value. -/
def Known (f : FoldedFn n W) (b : Nat) (i : Fin n) : Prop :=
  b = 0 ∨ hasCalls f = false ∨ (b, i) ∈ phimap f

/-- When a block is entered over an edge, what its phis will read are the fields. -/
structure WireRel (F : Fields n) (f : FoldedFn n W) (pred b : Nat) (s : State Nat W)
    (t : State (Name n) W) : Prop where
  agree : Agree .orig F.Mapped s t
  args : b = 0 ∨ hasCalls f = false → Holds F .arg s t
  edge : b ≠ 0 → pred ∈ preds f b
  phis : b ≠ 0 → ∀ i, (b, i) ∈ phimap f →
    t.env ((produced f pred i).getD (.phi pred i)) = F.value s.mem i

/-- While a block is executed, the known values are the fields. -/
structure Wired (F : Fields n) (f : FoldedFn n W) (b : Nat) (s : State Nat W)
    (t : State (Name n) W) : Prop where
  agree : Agree .orig F.Mapped s t
  known : ∀ i, Known f b i → t.env (current f b i) = F.value s.mem i

theorem WireRel.enter (h : WireRel F f pred b s t) (base : Nat) (phis : List (Phi Nat)) :
    Wired F f b (enter base phis pred s)
      (Cfg.enter base (newPhis f b ++ phis.map (Phi.map .orig)) pred t) := by
  have hnew : ∀ φ ∈ newPhis f b, ∃ i, φ.dst = .phi b i := by
    intro φ hφ
    obtain ⟨i, -, rfl⟩ := List.mem_map.mp hφ
    exact ⟨i, rfl⟩
  refine ⟨h.agree.enter orig_injective phis ?_ pred, fun i hi => ?_⟩
  · intro φ hφ v
    obtain ⟨i, hi⟩ := hnew φ hφ
    rw [hi]
    exact isNew_phi b i v
  · unfold current
    split_ifs with hb
    · refine (h.args hb).enter isNew_arg phis (fun φ hφ j => ?_) pred i
      obtain ⟨k, hk⟩ := hnew φ hφ
      rw [hk]
      exact fun heq => nomatch heq
    · have hphi : (b, i) ∈ phimap f := by
        rcases hi with hzero | hcalls | hphi
        · exact absurd (.inl hzero) hb
        · exact absurd (.inr hcalls) hb
        · exact hphi
      have hzero : b ≠ 0 := fun hzero => hb (.inl hzero)
      rw [enter_newPhis base hphi (h.edge hzero)]
      exact h.phis hzero i hphi

theorem Wired.holds (h : Wired F f b s t) (hb : b = 0 ∨ hasCalls f = false) : Holds F .arg s t := by
  intro i
  have hcur : current f b i = .arg i := if_pos hb
  rw [← hcur]
  exact h.known i (by rcases hb with hb | hb <;> simp [Known, hb])

/-- The instructions of a block that ends in a branch. -/
theorem Wired.body (h : Wired F f b s t) (base : Nat) {body : List (Instr Nat W)}
    (hwhole : ∀ i ∈ body, WholeAccess F i)
    (hesc : ∀ i ∈ loadedBody F b body, escapes F i = false)
    (hstore : ∀ i ∈ loadedBody F b body, storesField F i = false) :
    Wired F f b (execAll base body s) (execAll base (loadedBody F b body) t) ∧
      events base (loadedBody F b body) t = events base body s := by
  unfold loadedBody at hesc hstore ⊢
  by_cases hb : b = 0
  · rw [if_pos hb] at hesc hstore ⊢
    obtain ⟨hagree, hholds, hevents⟩ :=
      foldLoads_holds isNew_arg h.agree (h.holds (.inl hb)) hwhole hesc hstore
    refine ⟨⟨hagree, fun i _ => ?_⟩, hevents⟩
    rw [current, if_pos (.inl hb)]
    exact hholds i
  · rw [if_neg hb] at hesc hstore ⊢
    have havoid : ∀ i ∈ body, i.Avoids F.Mapped := fun i hi =>
      (Instr.avoids_map _ i).mp (avoids_of_not_escapes (hesc _ (List.mem_map_of_mem hi)))
    refine ⟨⟨h.agree.execAll orig_injective havoid, fun i hi => ?_⟩,
      h.agree.events orig_injective havoid⟩
    rw [execAll_env_new (isNew_current f b i) (fun j hj => ⟨j, hj, rfl⟩), h.known i hi]
    refine Fields.value_congr (fun o ho => (execAll_mem s (fun j hj => ?_)).symm)
    exact keeps_of_not_escapes (hwhole j hj) (hesc _ (List.mem_map_of_mem hj))
      (hstore _ (List.mem_map_of_mem hj)) (Fields.mapped_iff.mpr ⟨i, ho⟩)

/-- The instructions of a block before a call or return. -/
theorem Wired.exit (h : Wired F f b s t) (base : Nat) (hb : b ≠ 0) {body : List (Instr Nat W)}
    {body' : List (Instr (Name n) W)} {vals : Vals n}
    (hfold : foldStores F (loadedBody F b body) = some (body', vals)) (hord : Ordered body)
    (hwhole : ∀ i ∈ body, WholeAccess F i)
    (hesc : ∀ i ∈ loadedBody F b body, escapes F i = false)
    (hstore : ∀ i ∈ body', storesField F i = false)
    (hknown : ∀ i, vals i = none → Known f b i) {missing : Fin n → Name n}
    (hmissing : ∀ i, missing i = current f b i) :
    let t' := execAll base body' t
    events base body' t = events base body s ∧ Agree .orig F.Mapped (execAll base body s) t' ∧
      withFields F t'.mem (fun i => ((vals i).getD (.var (missing i))).eval base t'.env) =
        (execAll base body s).mem := by
  intro t'
  rw [loadedBody, if_neg hb] at hfold hesc
  have hesc' : ∀ i ∈ body, escapes F (i.map .orig) = false :=
    fun i hi => hesc _ (List.mem_map_of_mem hi)
  obtain ⟨hevents, hfolded⟩ := foldStores_folded orig_injective hfold hord hwhole
    (fun i hi => (Instr.avoids_map _ i).mp (avoids_of_not_escapes (hesc' i hi))) h.agree
  refine ⟨hevents, hfolded.agree.mono ?_, hfolded.file (fun _ ho => ho) (fun i hi => ?_)⟩
  · rintro o (ho | ⟨g, -, hg⟩)
    · exact ho
    · exact Fields.mapped_iff.mpr ⟨g, hg⟩
  · rw [hmissing i, execAll_env_new (isNew_current f b i)
      (fun j hj => ⟨j, mem_of_foldStores hfold hj, rfl⟩), h.known i (hknown i hi)]
    -- a store to the field would have been folded
    refine Fields.value_congr (fun o ho => (execAll_mem s (fun j hj => ?_)).symm)
    refine keeps_of_store (hwhole j hj) (not_helper_of_not_escapes (hesc' j hj)) ?_
      (Fields.mapped_iff.mpr ⟨i, ho⟩)
    rintro off size v rfl g hg hgo
    obtain rfl := Fields.has_unique hgo ho
    rcases foldStores_mem hfold (List.mem_map_of_mem hj) with hkept | ⟨off', size', v', k, heq, hk, hsome⟩
    · have hnot := hstore _ hkept
      simp [Instr.map, storesField, hg] at hnot
    · cases heq
      rw [hg] at hk
      cases hk
      rw [hi] at hsome
      cases hsome

/-- From the end of a block to the next one. -/
theorem WireRel.next {b' : Nat} (h : Agree .orig F.Mapped s t) (hb' : b' ≠ 0) (hpred : b ∈ preds f b')
    (hargs : hasCalls f = false → Holds F .arg s t)
    (hprod : hasCalls f = true → ∀ i, (produced f b i = none → (b, i) ∈ phimap f) →
      t.env ((produced f b i).getD (.phi b i)) = F.value s.mem i) :
    WireRel F f b b' s t where
  agree := h
  args hor := hargs (hor.resolve_left hb')
  edge _ := hpred
  phis _ i hi := by
    have hcalls : hasCalls f = true := by
      by_contra hnot
      rw [phimap, if_neg hnot] at hi
      exact absurd hi List.not_mem_nil
    exact hprod hcalls i (fun hnone => phimap_closed hi hpred hnone)

/-- A branch: the block leaves the fields where it got them. -/
theorem Wired.branch (h : Wired F f b s t) {phis : List (Phi (Name n))}
    {body : List (Instr (Name n) W)} {br : Branch (Name n) W} {b' : Nat}
    (hblk : f[b]? = some ⟨phis, body, .branch br⟩) (hb' : b' ∈ br.succs) (hne : b' ≠ 0) :
    WireRel F f b b' s t := by
  refine WireRel.next h.agree hne (mem_preds.mpr ⟨_, hblk, hb'⟩)
    (fun hcalls => h.holds (.inr hcalls)) (fun hcalls i hphi => ?_)
  by_cases hb : b = 0
  · rw [produced, if_pos hb]
    exact h.holds (.inl hb) i
  · have hnone : produced f b i = none := by
      rw [produced, if_neg hb, hblk]
      rfl
    have hcur : current f b i = .phi b i := if_neg (by simp [hb, hcalls])
    rw [hnone, Option.getD_none, ← hcur]
    exact h.known i (.inr (.inr (hphi hnone)))

/-- A branch after a call: the fields are in what the call returned. -/
theorem Agree.called (h : Agree .orig F.Mapped s t) (hholds : Holds F (.res b) s t) (hb : b ≠ 0)
    {phis : List (Phi (Name n))} {body after : List (Instr (Name n) W)} {vals : Vals n}
    {br : Branch (Name n) W} {b' : Nat} (hblk : f[b]? = some ⟨phis, body, .call vals after br⟩)
    (hb' : b' ∈ br.succs) (hne : b' ≠ 0) : WireRel F f b b' s t := by
  have hcalls : hasCalls f = true := List.any_eq_true.mpr ⟨_, List.mem_of_getElem? hblk, rfl⟩
  refine WireRel.next h hne (mem_preds.mpr ⟨_, hblk, hb'⟩) (fun hnot => ?_) (fun _ i _ => ?_)
  · rw [hcalls] at hnot
    cases hnot
  · have hprod : produced f b i = some (.res b i) := by
      rw [produced, if_neg hb, hblk]
      rfl
    rw [hprod]
    exact hholds i

theorem wire_missing (hb : b ≠ 0) (i : Fin n) :
    (if hasCalls f then Name.phi b else Name.arg) i = current f b i := by
  unfold current
  by_cases hcalls : hasCalls f = true
  · rw [if_pos hcalls, if_neg (by simp [hb, hcalls])]
  · rw [if_neg hcalls, if_pos (.inr (by simpa using hcalls))]

theorem known_of_vals {blk : Block (Name n) W (Vals n) (Vals n)} {vals : Vals n} {i : Fin n}
    (hblk : f[b]? = some blk) (hexit : exitVals blk.exit = some vals) (hi : vals i = none) :
    Known f b i := by
  cases hcalls : hasCalls f with
  | false => exact .inr (.inl hcalls)
  | true => exact .inr (.inr (mem_phimap_of_vals hcalls hblk hexit hi))

theorem wire_block {M : Machine W} {junk : Nat → Mem} {blk : Block Nat W Unit Unit}
    {blk' : Block (Name n) W (Vals n) (Vals n)} (hb' : f[b]? = some blk')
    (hblk : FoldedBlock F b blk blk') (hwhole : ∀ i ∈ instrs blk, WholeAccess F i)
    (hord : Ordered (instrs blk)) (hentry : b = 0 → blk.exit.isBranch)
    (hsucc : 0 ∉ successors blk) (hesc : ∀ i ∈ instrs (foldBlockLoads F b blk), escapes F i = false)
    (hstore : ∀ i ∈ instrs blk', storesField F i = false) (hone : hasCallRet f = false)
    (h : WireRel F f pred b s t) :
    events M.base (wire F f b blk').body (enter M.base (wire F f b blk').phis pred t) =
        events M.base blk.body (enter M.base blk.phis pred s) ∧
      ExitSim M memoryConvention (fieldsConvention F M.base junk) (WireRel F f) b
        (execAll M.base blk.body (enter M.base blk.phis pred s))
        (execAll M.base (wire F f b blk').body (enter M.base (wire F f b blk').phis pred t))
        blk.exit (wire F f b blk').exit := by
  cases hblk with
  | @branch phis body br =>
      obtain ⟨hwired, hevents⟩ := (h.enter M.base phis).body M.base hwhole hesc hstore
      refine ⟨hevents, branchSim hwired.agree br (fun b' hbr => hwired.branch hb' hbr ?_)⟩
      rintro rfl
      exact hsucc hbr
  | @call phis body after br body' vals hfold =>
      have hb : b ≠ 0 := ne_zero_of_exit hentry rfl
      obtain ⟨hevents, hagree, hfile⟩ := (h.enter M.base phis).exit M.base hb hfold
        hord.left (fun i hi => hwhole i (List.mem_append_left _ hi))
        (fun i hi => hesc i (List.mem_append_left _ hi))
        (fun i hi => hstore i (List.mem_append_left _ hi))
        (fun i hi => known_of_vals hb' rfl hi) (wire_missing hb)
      refine ⟨hevents, (file_callArgs _ _).trans hfile, hagree.world, ?_⟩
      rintro r rfl
      obtain ⟨hback, hholds⟩ := back_agree F M.base junk hagree b _ _
      obtain ⟨hafter, hholds', hevents'⟩ := foldLoads_holds (isNew_res b) hback hholds
        (fun i hi => hwhole i (List.mem_append_right _ hi))
        (fun i hi => hesc i (List.mem_append_right _ hi))
        (fun i hi => hstore i (List.mem_append_right _ hi))
      refine ⟨hevents', branchSim hafter br (fun b' hbr => Agree.called hafter hholds' hb hb' hbr ?_)⟩
      rintro rfl
      exact hsucc hbr
  | callRet =>
      exact absurd rfl (List.any_eq_false.mp hone _ (List.mem_of_getElem? hb'))
  | @ret phis body body' vals hfold =>
      have hb : b ≠ 0 := ne_zero_of_exit hentry rfl
      obtain ⟨hevents, -, hfile⟩ := (h.enter M.base phis).exit M.base hb hfold hord hwhole hesc
        hstore (fun i hi => known_of_vals hb' rfl hi) (wire_missing hb)
      exact ⟨hevents, hfile⟩
  | @tail phis body body' vals hfold =>
      have hb : b ≠ 0 := ne_zero_of_exit hentry rfl
      obtain ⟨hevents, -, hfile⟩ := (h.enter M.base phis).exit M.base hb hfold hord hwhole hesc
        hstore (fun i hi => known_of_vals hb' rfl hi) (wire_missing hb)
      exact ⟨hevents, (file_callArgs _ _).trans hfile⟩

/-- **With the fields in phis the new function simulates the old one.** -/
theorem wire_simulates {g : LiftedFn W} (hg : Lifted F g) (hfolded : FoldedFrom F g f)
    (hesc : ∀ (b : Nat) blk, g[b]? = some blk → ∀ i ∈ instrs (foldBlockLoads F b blk), escapes F i = false)
    (hstore : ∀ blk ∈ f, ∀ i ∈ instrs blk, storesField F i = false) (hone : hasCallRet f = false)
    (M : Machine W) (junk : Nat → Mem) :
    Simulates M memoryConvention (fieldsConvention F M.base junk) g (f.mapIdx (wire F f))
      (WireRel F f) where
  missing := by
    intro b hb
    rw [List.getElem?_mapIdx, hfolded.missing b hb]
    rfl
  block := by
    intro pred b s t blk h hb
    obtain ⟨blk', hb', hblk⟩ := hfolded.block b blk hb
    have hmem := List.mem_of_getElem? hb
    refine ⟨wire F f b blk', by rw [List.getElem?_mapIdx, hb']; rfl, ?_⟩
    exact wire_block hb' hblk (hg.whole blk hmem) (hg.ordered blk hmem) (hg.isBranch hb)
      (hg.entryPreds blk hmem) (hesc b blk hb) (hstore blk' (List.mem_of_getElem? hb')) hone h

end Wire

/-! ## The pass -/

section Pass

variable {n : Nat} {W : Type} {F : Fields n} {f : LiftedFn W}

theorem exists_mapM {α β : Type} {g : α → Option β} : ∀ {l : List α}, (∀ x ∈ l, (g x).isSome) →
    ∃ l', l.mapM g = some l'
  | [], _ => ⟨[], rfl⟩
  | x :: l, h => by
      obtain ⟨y, hy⟩ := Option.isSome_iff_exists.mp (h x List.mem_cons_self)
      obtain ⟨ys, hys⟩ := exists_mapM (fun z hz => h z (List.mem_cons_of_mem x hz))
      exact ⟨y :: ys, by rw [List.mapM_cons, hy, hys]; rfl⟩

/-- `sptr` escapes: after the loads have been folded it is passed on or a byte of a field is
accessed, or a store to a field could not be folded. -/
def SptrEscapes (F : Fields n) (f : LiftedFn W) : Prop :=
  (f.mapIdx (foldBlockLoads F)).any (fun blk => (instrs blk).any (escapes F)) ∨
    ((f.mapIdx (foldBlockLoads F)).mapM (foldBlockStores F)).any
      (fun folded => folded.any (fun blk => (instrs blk).any (storesField F)))

instance (F : Fields n) (f : LiftedFn W) : Decidable (SptrEscapes F f) :=
  inferInstanceAs (Decidable (_ ∨ _))

/-- No field is stored twice before a call or return of the block. -/
def BlockStoredOnce (F : Fields n) (blk : Block Nat W Unit Unit) : Prop :=
  match blk.exit with
  | .branch _ => True
  | .call .. | .ret _ | .tail _ => StoredOnce F blk.body
  | .callRet _ after _ => StoredOnce F blk.body ∧ StoredOnce F after

/-- What else the assertions of the pass ask for: no field is stored twice before a call or
return, and no block has two producers, a call and a return, unless all fields go through
memory. -/
structure Asserted (F : Fields n) (f : LiftedFn W) : Prop where
  once : ∀ blk ∈ f, BlockStoredOnce F blk
  producers : hasCallRet f → SptrEscapes F f

/-- No assertion of `FoldStores` fails in a block. -/
theorem Asserted.foldBlockStores_isSome (ha : Asserted F f) (h : Lifted F f) {b : Nat}
    {blk : Block Nat W Unit Unit} (hb : f[b]? = some blk) :
    (foldBlockStores F (foldBlockLoads F b blk)).isSome := by
  have hentry := h.isBranch hb
  have honce := ha.once blk (List.mem_of_getElem? hb)
  obtain ⟨phis, body, exit⟩ := blk
  have hstores : exit.isBranch = false → StoredOnce F body →
      (foldStores F (loadedBody F b body)).isSome := by
    intro hexit hbody
    rw [loadedBody, if_neg (ne_zero_of_exit hentry hexit)]
    refine foldStores_isSome ?_
    rw [StoredOnce, lastStored_map]
    exact hbody
  cases exit with
  | branch => rfl
  | call | ret | tail => exact (Option.isSome_map ..).trans (hstores rfl honce)
  | callRet c after r =>
      obtain ⟨hbody, hafter⟩ := honce
      have hfold : (foldStores F (foldLoads F (.res b) (after.map (Instr.map .orig)))).isSome := by
        refine foldStores_isSome ?_
        rw [StoredOnce, lastStored_foldLoads, lastStored_map]
        exact hafter
      obtain ⟨r', hr'⟩ := Option.isSome_iff_exists.mp hfold
      rw [foldBlockStores, foldBlockLoads]
      simp only [hr', Option.bind_some, Option.isSome_map]
      exact hstores rfl hbody

theorem Asserted.exists_folded (ha : Asserted F f) (h : Lifted F f) :
    ∃ folded, (f.mapIdx (foldBlockLoads F)).mapM (foldBlockStores F) = some folded := by
  refine exists_mapM (fun x hx => ?_)
  obtain ⟨b, hb⟩ := List.mem_iff_getElem?.mp hx
  rw [List.getElem?_mapIdx] at hb
  obtain ⟨blk, hblk, rfl⟩ := Option.map_eq_some_iff.mp hb
  exact ha.foldBlockStores_isSome h hblk

/-- The entry block is no second producer. -/
theorem Lifted.head_exitVals (h : Lifted F f) {folded : FoldedFn n W}
    (hfolded : FoldedFrom F f folded) :
    folded.head?.bind (fun blk => exitVals blk.exit) = none := by
  rw [List.head?_eq_getElem?]
  cases hf : f[0]? with
  | none => rw [hfolded.missing 0 hf, Option.bind_none]
  | some blk =>
      obtain ⟨blk', hb', hblk⟩ := hfolded.block 0 blk hf
      rw [hb', Option.bind_some]
      have hbranch := h.isBranch hf rfl
      cases hblk with
      | branch => rfl
      | call | callRet | ret | tail => cases hbranch

theorem FoldedFrom.hasCallRet_eq {folded : FoldedFn n W} (hfolded : FoldedFrom F f folded)
    (h : hasCallRet folded) : hasCallRet f := by
  rw [hasCallRet, List.any_eq_true] at h ⊢
  obtain ⟨blk', hblk', hexit⟩ := h
  obtain ⟨b, hb'⟩ := List.mem_iff_getElem?.mp hblk'
  cases hf : f[b]? with
  | none =>
      rw [hfolded.missing b hf] at hb'
      cases hb'
  | some blk =>
      obtain ⟨blk'', hb'', hblk⟩ := hfolded.block b blk hf
      obtain rfl : blk'' = blk' := Option.some.inj (hb''.symm.trans hb')
      refine ⟨blk, List.mem_of_getElem? hf, ?_⟩
      cases hblk with
      | callRet => rfl
      | branch | call | ret | tail => cases hexit

/-- The pass succeeds in one of two ways. -/
theorem changeCallConv_eq_some {g : NewFn n W} (h : changeCallConv F f = some g) :
    ∃ folded, (f.mapIdx (foldBlockLoads F)).mapM (foldBlockStores F) = some folded ∧
      (g = folded.mapIdx (spill F) ∨
        g = folded.mapIdx (wire F folded) ∧ hasCallRet folded = false ∧
          (∀ (b : Nat) blk, f[b]? = some blk →
            ∀ i ∈ instrs (foldBlockLoads F b blk), escapes F i = false) ∧
          ∀ blk ∈ folded, ∀ i ∈ instrs blk, storesField F i = false) := by
  rw [changeCallConv] at h
  obtain ⟨folded, hmap, hrest⟩ := Option.bind_eq_some_iff.mp h
  refine ⟨folded, hmap, ?_⟩
  dsimp only at hrest
  split at hrest
  · exact .inl (Option.some.inj hrest).symm
  · next hnot =>
    obtain ⟨hesc, hstore⟩ := not_or.mp hnot
    split at hrest
    · cases hrest
    · next hprod =>
      refine .inr ⟨(Option.some.inj hrest).symm, by simpa using (not_or.mp hprod).2, ?_, ?_⟩
      · intro b blk hb i hi
        by_contra hi'
        refine hesc (List.any_eq_true.mpr
          ⟨foldBlockLoads F b blk, ?_, List.any_eq_true.mpr ⟨i, hi, by simpa using hi'⟩⟩)
        exact List.mem_of_getElem? (by rw [List.getElem?_mapIdx, hb]; rfl)
      · intro blk hblk i hi
        by_contra hi'
        exact hstore (List.any_eq_true.mpr
          ⟨blk, hblk, List.any_eq_true.mpr ⟨i, hi, by simpa using hi'⟩⟩)

theorem Asserted.exists_changeCallConv (ha : Asserted F f) (h : Lifted F f) :
    ∃ g, changeCallConv F f = some g := by
  obtain ⟨folded, hmap⟩ := ha.exists_folded h
  have hfolded := foldedFrom_of_mapM hmap
  simp only [changeCallConv, hmap, Option.bind_eq_bind, Option.bind_some]
  split
  · exact ⟨_, rfl⟩
  · next hnot =>
    -- nothing escapes, so no block has two producers
    have hone : hasCallRet folded = false := by
      by_contra hcall
      have hesc := ha.producers (hfolded.hasCallRet_eq (Bool.not_eq_false _ ▸ hcall))
      rw [SptrEscapes, hmap] at hesc
      exact hnot hesc
    rw [h.head_exitVals hfolded, hone]
    exact ⟨_, rfl⟩

/-- **The pass keeps what a lifted function does.** Where the assertions hold the pass has a
result; from every register file it goes through the same blocks, passes the same
register file to every helper and call, and returns the same one. -/
theorem changeCallConv_preserves (F : Fields n) (f : LiftedFn W) (h : Lifted F f) :
    (Asserted F f → ∃ g, changeCallConv F f = some g) ∧
      ∀ g, changeCallConv F f = some g →
        ∀ (M : Machine W) (junk : Nat → Mem) (R mem : Mem) (w : W) (fuel : Nat),
          (∀ o, ¬ F.Mapped o → mem o = R o) →
          Cfg.run M (fieldsConvention F M.base junk) g fuel 0 0 (startFields F R mem w) =
            Cfg.run M memoryConvention f fuel 0 0 (startMemory R w) := by
  refine ⟨fun ha => ha.exists_changeCallConv h, ?_⟩
  intro g hg M junk R mem w fuel hmem
  have hagree : Agree .orig F.Mapped (startMemory R w) (startFields F R mem w) :=
    ⟨fun _ => rfl, hmem, rfl, rfl⟩
  have hholds : Holds F .arg (startMemory R w) (startFields F R mem w) := fun _ => rfl
  obtain ⟨folded, hmap, hcases⟩ := changeCallConv_eq_some hg
  have hfolded := foldedFrom_of_mapM hmap
  rcases hcases with rfl | ⟨rfl, hone, hesc, hstore⟩
  · exact (spill_simulates h hfolded M junk).run_eq fuel 0 0 _ _
      ⟨hagree.mono (fun _ ho => ⟨rfl, ho⟩), fun _ => hholds⟩
  · exact (wire_simulates h hfolded hesc hstore hone M junk).run_eq fuel 0 0 _ _
      ⟨hagree, fun _ => hholds, fun hb => absurd rfl hb, fun hb => absurd rfl hb⟩

end Pass

/-- A loop with a call, for an RV64 guest: `x10` is counted down before each call. -/
def countdown : LiftedFn Unit :=
  [⟨[], [.load 0 0x58 8], .branch ⟨[], [1], fun _ _ => 0⟩⟩,
    ⟨[⟨1, [(0, .var 0), (1, .var 2)]⟩],
      [.op 2 [.var 1] false (fun args w => (args.sum - 1, w)), .store 0x58 8 (.var 2),
        .store 0 8 (.const 0x1000)],
      .call () [.load 3 0 8] ⟨[.var 3], [1, 2], fun args _ => if args = [0x2000] then 0 else 1⟩⟩,
    ⟨[], [], .ret ()⟩]

theorem countdown_lifted : Lifted CallConv.rv64Rv64Lp64.sptrFields countdown :=
  ⟨by decide, by decide, by decide, by decide⟩

theorem countdown_asserted : Asserted CallConv.rv64Rv64Lp64.sptrFields countdown where
  once := by
    intro blk hblk
    simp only [countdown, List.mem_cons, List.not_mem_nil, or_false] at hblk
    rcases hblk with rfl | rfl | rfl
    · trivial
    · change StoredOnce _ _
      decide
    · change StoredOnce _ _
      decide
  producers := by decide

/-- A function that passes `sptr` to a helper and returns right after a call: `x10` is stored
before the call and `x11` behind it. -/
def calledLast : LiftedFn Unit :=
  [⟨[], [], .branch ⟨[], [1], fun _ _ => 0⟩⟩,
    ⟨[], [.helper 0 [] true (fun _ m w => (0, m, w)), .store 0x58 8 (.var 0)],
      .callRet () [.store 0x60 8 (.const 7)] ()⟩]

theorem calledLast_lifted : Lifted CallConv.rv64Rv64Lp64.sptrFields calledLast :=
  ⟨by decide, by decide, by decide, by decide⟩

theorem calledLast_asserted : Asserted CallConv.rv64Rv64Lp64.sptrFields calledLast where
  once := by
    intro blk hblk
    simp only [calledLast, List.mem_cons, List.not_mem_nil, or_false] at hblk
    rcases hblk with rfl | rfl
    · trivial
    · change StoredOnce _ _ ∧ StoredOnce _ _
      decide
  producers := by decide

/-- The pass has a result for the function, and it does the same. -/
def Preserved (cc : CallConv) (f : LiftedFn Unit) : Prop :=
  ∃ g, changeCallConv cc.sptrFields f = some g ∧
    ∀ (M : Machine Unit) (junk : Nat → Mem) (R : Mem) (fuel : Nat),
      Cfg.run M (fieldsConvention cc.sptrFields M.base junk) g fuel 0 0
          (startFields cc.sptrFields R R ()) =
        Cfg.run M memoryConvention f fuel 0 0 (startMemory R ())

theorem countdown_preserved : Preserved .rv64Rv64Lp64 countdown ∧
    Preserved .rv64Rv64Lp64 calledLast := by
  constructor
  · obtain ⟨hsome, hrun⟩ := changeCallConv_preserves _ countdown countdown_lifted
    obtain ⟨g, hg⟩ := hsome countdown_asserted
    exact ⟨g, hg, fun M junk R fuel => hrun g hg M junk R R () fuel (fun _ _ => rfl)⟩
  · obtain ⟨hsome, hrun⟩ := changeCallConv_preserves _ calledLast calledLast_lifted
    obtain ⟨g, hg⟩ := hsome calledLast_asserted
    exact ⟨g, hg, fun M junk R fuel => hrun g hg M junk R R () fuel (fun _ _ => rfl)⟩

end Instrew.Server
