import Instrew.Client.Dispatch
import Instrew.Client.LoadFits

/-!
# What loading an object adds to the index

`rtld_add_object` of `client/rtld.c` as `resolve_func` calls it. The loader reads the symbols
and their names from the buffer that the passes before have changed. For a well-formed object
they are those of the object that was received (`rtldPlaceObject_ok`), so what the index has
after a call, it had before, or it is a function of the object under the address that its name
stands for, at its place in the block (`rtldAddObject_adds`).
-/

namespace Instrew.Client

open Lib.Access

/-- **The object has a function for the guest address `addr`, loaded at `func`**: a global
function whose name stands for `addr`, in a section of the block that `mem_alloc_code`
returns. -/
def Provides (memAllocCode : Word → Word → Except Errno Word) (obj : Buf) (skew addr func : Word) :
    Prop :=
  ∃ i < shnum obj, shType obj i = SHT_SYMTAB ∧ ∃ k < symCount obj i,
    IsNamedFunc obj i (symAt obj i k) ∧
    rtldElfDecodeName skew (obj.cstr (nameAt obj i (symAt obj i k))) 0#64 = (.ok (), addr) ∧
    ∃ base, memAllocCode (layoutTot obj (shnum obj)) (layoutAlign obj (shnum obj)) = .ok base ∧
      func = placedAddrs obj base (stShndx obj (symAt obj i k)).toNat + stValue obj (symAt obj i k)

/-! ## The passes without the checks -/

theorem foldlM_range_ok {σ : Type} {f : σ → Nat → Except Errno σ} {P : Nat → σ → Prop} {n : Nat}
    (hstep : ∀ i s s', i < n → P i s → f s i = .ok s' → P (i + 1) s') {s s' : σ} (h : P 0 s)
    (hrun : (List.range n).foldlM f s = .ok s') : P n s' := by
  induction n generalizing s' with
  | zero =>
      cases hrun
      exact h
  | succ n ih =>
      rw [List.range_succ, List.foldlM_append] at hrun
      obtain ⟨t, ht, hlast⟩ := bind_eq_ok.mp hrun
      rw [List.foldlM_cons] at hlast
      obtain ⟨t', ht', hend⟩ := bind_eq_ok.mp hlast
      cases hend
      have hP : P n t := ih (fun i s s' hi => hstep i s s' (hi.trans (Nat.lt_succ_self n))) ht
      exact hstep n t _ (Nat.lt_succ_self n) hP ht'

section Passes

variable {re : RtldElf} {arena : RtldElf.Arena} {obj b : Buf} {addrs : Nat → Word} {i : Nat}

/-- What the checked and the unchecked passes agree on. -/
theorem Placed.shdr (ht : TableInside obj) (hre : re.reShdr = eShoff obj) (hb : Placed obj addrs b)
    (hi : i < shnum obj) : re.shdr i = shdrAt b i ∧ b.Inside (re.shdr i) shdrSize := by
  have hshdr : re.shdr i = shdrAt obj i := by rw [RtldElf.shdr, hre, shdrAt]
  refine ⟨by rw [hshdr, shdrAt, shdrAt, hb.eShoff_eq ht], ?_⟩
  rw [Buf.Inside, hb.length, hshdr]
  exact (ht.shdr hi).2

theorem layoutSection_ok (ht : TableInside obj) (hre : re.reShdr = eShoff obj) (hi : i < shnum obj)
    {st st' : Buf × Word × Word} (hb : Placed obj addrs st.1) (h : layoutSection st i = .ok st') :
    re.layout i st = .ok st' := by
  obtain ⟨b, totsz, totalign⟩ := st
  obtain ⟨hshdr, hin⟩ := hb.shdr ht hre hi
  rw [RtldElf.layout, need_bind_of hin, hshdr]
  rw [layoutSection] at h
  by_cases hflags : shFlags b i &&& ~~~acceptedFlags = 0#64
  · rw [if_neg (not_not.mpr hflags)] at h
    refine (reject_bind_of_not (not_not.mpr hflags) _ _).trans ?_
    by_cases halloc : shFlags b i &&& SHF_ALLOC = 0#64
    · rw [if_neg (not_not.mpr halloc)] at h
      cases h
      exact if_pos halloc
    · rw [if_pos halloc] at h
      cases h
      exact if_neg halloc
  · rw [if_pos hflags] at h
    cases h

theorem rebaseSection_eq (ht : TableInside obj) (hre : re.reShdr = eShoff obj) (hi : i < shnum obj)
    (hb : Placed obj addrs b) (base : Word) :
    re.rebase base i b = .ok (rebaseSection base b i) := by
  obtain ⟨hshdr, hin⟩ := hb.shdr ht hre hi
  rw [RtldElf.rebase, need_bind_of hin, hshdr, rebaseSection]
  by_cases halloc : shFlags b i &&& SHF_ALLOC = 0#64
  · rw [if_neg (not_not.mpr halloc)]
    exact if_pos halloc
  · rw [if_pos halloc]
    exact if_neg halloc

theorem rebaseSections_ok (ht : TableInside obj) (hre : re.reShdr = eShoff obj)
    (hb : Placed obj (layoutAddrs obj (shnum obj)) b) (base : Word) (n : Nat) (hn : n ≤ shnum obj) :
    Placed obj (rebasedAddrs obj base n) ((List.range n).foldl (rebaseSection base) b) := by
  induction n with
  | zero => exact hb.laidOut base
  | succ n ih =>
      have hplaced := ih (Nat.le_of_succ_le hn)
      rw [List.range_succ, List.foldl_append]
      exact rebase_ok ht hre hn hplaced (rebaseSection_eq ht hre hn hplaced base)

/-- The surroundings of the loader in a call of `rtld_add_object`. -/
def RtldElf.forCall (re : RtldElf) (obj : Buf) (objects : Objects) (skew : Word) : RtldElf :=
  { re with reShdr := eShoff obj, skew, objects }

variable {objects : Objects} {skew : Word}

theorem relocSection_ok (h : Relocating (re.forCall obj objects skew) obj b) (hi : i < shnum obj)
    {b' : Buf} (hb' : relocSection (re.loadEnv arena) objects skew b i = .ok b') :
    (re.forCall obj objects skew).relocate arena i b = .ok b' := by
  rw [h.relocate_eq hi]
  rw [relocSection, (h.loading.fields hi).1] at hb'
  by_cases htype : shType obj i = SHT_RELA
  · rw [if_neg (not_not.mpr htype)] at hb'
    rw [if_pos htype, RtldElf.forCall, ← h.loading.eShoff_same]
    simp only [RtldElf.loadEnv] at hb'
    split at hb'
    · rename_i c hc
      rw [hc]
      exact congrArg Except.ok (Except.ok.inj hb')
    · cases hb'
    · cases hb'
  · rw [if_pos htype] at hb'
    rw [if_neg htype]
    exact congrArg Except.ok (Except.ok.inj hb')

theorem copySection_ok {env : LoadEnv} {b' : Buf} (h : copySection env b i = .ok b') : b' = b := by
  rw [copySection] at h
  split_ifs at h
  · exact (Except.ok.inj h).symm
  · obtain ⟨-, -, h⟩ := bind_eq_ok.mp h
    exact (Except.ok.inj h).symm

end Passes

/-- **What the last pass reads**, for an object that does not overwrite its own tables: the
symbols and names of the object, with the addresses of its sections in the block. -/
theorem rtldPlaceObject_ok {re : RtldElf} {arena : RtldElf.Arena} {obj b : Buf} {objects : Objects}
    {skew : Word} (ht : TableInside obj) (hsep : Separate re.host obj)
    (hrun : rtldPlaceObject (re.loadEnv arena) objects obj skew = .ok b) :
    ∃ base, arena.memAllocCode (layoutTot obj (shnum obj)) (layoutAlign obj (shnum obj)) = .ok base ∧
      Loading (re.forCall obj objects skew) obj b ∧
      ∀ j < shnum obj, shAddr b j = placedAddrs obj base j := by
  have hre : (re.forCall obj objects skew).reShdr = eShoff obj := rfl
  obtain ⟨-, -, hrun⟩ := bind_eq_ok.mp hrun
  obtain ⟨⟨b₀, totsz, totalign⟩, hlayout, hrun⟩ := bind_eq_ok.mp hrun
  obtain ⟨base, halloc, hrun⟩ := bind_eq_ok.mp hrun
  obtain ⟨b', hrelocate, hcopy⟩ := bind_eq_ok.mp hrun
  -- the sections are placed
  obtain ⟨hb₀, rfl, rfl⟩ := foldlM_range_ok (P := fun k st => Placed obj (layoutAddrs obj k) st.1 ∧
      st.2.1 = layoutTot obj k ∧ st.2.2 = layoutAlign obj k)
    (fun i st st' hi h hst => layout_ok ht hre hi h (layoutSection_ok ht hre hi h.1 hst))
    ⟨.start obj, rfl, rfl⟩ hlayout
  have hb₁ : Placed obj (placedAddrs obj base) ((sections obj).foldl (rebaseSection base) b₀) := by
    refine (rebaseSections_ok ht hre hb₀ base (shnum obj) le_rfl).congr fun i hi => ?_
    rw [rebasedAddrs, placedAddrs]
    simp [hi]
  have hload : Loading (re.forCall obj objects skew) obj _ := hb₁.loading ht hsep hre
  generalize (sections obj).foldl (rebaseSection base) b₀ = b₁ at hb₁ hload hrelocate
  -- and relocated, with the placed buffer for the object
  have hcall : re.forCall obj objects skew = re.forCall b₁ objects skew := by
    rw [RtldElf.forCall, RtldElf.forCall, hload.eShoff_same]
  rw [hcall] at hload ⊢
  have hrelocated : Relocating (re.forCall b₁ objects skew) b₁ b' :=
    foldlM_range_ok (n := shnum obj) (P := fun _ c => Relocating (re.forCall b₁ objects skew) b₁ c)
      (fun i c c' hi h hc' => by
        rw [← hload.shnum_same] at hi
        exact (h.relocate_ok (hload.separate hsep) hi (relocSection_ok h hi hc')).2)
      (.refl hload.tableInside rfl) hrelocate
  obtain rfl : b = b' := foldlM_range_ok (P := fun _ c => c = b')
    (fun i c c' _ hc hc' => by rw [← hc]; exact copySection_ok hc') rfl hcopy
  refine ⟨base, halloc, hload.trans hrelocated.loading, fun j hj => ?_⟩
  rw [shAddr, hrelocated.loading.shdrAt_same]
  exact (hrelocated.addr j (hj.trans_eq hload.shnum_same.symm)).trans (hb₁.shAddr_eq ht hj).1

/-! ## The last pass -/

theorem mem_globalFuncs {b : Buf} {secs : List Nat} {p : Nat × Word} (h : p ∈ globalFuncs b secs) :
    p.1 ∈ secs ∧ shType b p.1 = SHT_SYMTAB ∧ ∃ k < symCount b p.1, p.2 = symAt b p.1 k := by
  rw [globalFuncs, List.mem_filter, List.mem_flatMap] at h
  obtain ⟨⟨i, hi, hp⟩, -⟩ := h
  rw [List.mem_filter, decide_eq_true_iff] at hi
  obtain ⟨k, hk, rfl⟩ := List.mem_map.mp hp
  exact ⟨hi.1, hi.2, k, List.mem_range.mp hk, rfl⟩

/-- What is registered for a symbol is a function of the object. -/
theorem RegOfSym.provides {re : RtldElf} {obj b : Buf} {skew base : Word} {new : RtldObject}
    {i k : Nat} {memAllocCode : Word → Word → Except Errno Word} (wf : WellFormed re.host obj)
    (halloc : memAllocCode (layoutTot obj (shnum obj)) (layoutAlign obj (shnum obj)) = .ok base)
    (hload : Loading re obj b) (haddrs : ∀ j < shnum obj, shAddr b j = placedAddrs obj base j)
    (hi : i < shnum obj) (htype : shType obj i = SHT_SYMTAB) (hk : k < symCount obj i)
    (h : RegOfSym b skew i (symAt obj i k) new) : Provides memAllocCode obj skew new.addr new.entry := by
  have hin := wf.inside_symAt hi htype hk
  obtain ⟨hshndx, -, hvalue, hfunc⟩ := hload.symbol_same hi htype hk hin
  obtain ⟨hfinds, hname⟩ := hload.findsName_iff hi htype hk hin
  have hlt : (stShndx obj (symAt obj i k)).toNat < shnum obj := by
    have hlt := h.shndx_lt
    rw [hshndx, hload.eShnum_same] at hlt
    exact hlt
  obtain ⟨name, hres, hdecode⟩ := h.name
  rw [rtldElfResolveStr_eq] at hres
  split_ifs at hres with hstr
  have hfind : FindsName obj i (symAt obj i k) := hfinds.mp hstr
  have hstring : name = obj.cstr (nameAt obj i (symAt obj i k)) := by
    have hsame := (name_same hload.length (hload.name hi htype hk hin hfind)).2.2
    rw [← hsame, ← (hname hfind).1]
    exact (Except.ok.inj hres).symm
  rw [hstring] at hdecode
  refine ⟨i, hi, htype, k, hk, ⟨hfunc ▸ h.func, hlt, hfind⟩, hdecode, base, halloc, ?_⟩
  rw [h.entry, hshndx, hvalue, haddrs _ hlt]

/-- A registration adds one entry at most. -/
theorem rtldSet_resolve_cases {objects : Objects} (h : Indexed objects) {new : RtldObject}
    {addr func : Word} (hres : rtldResolve (rtldSet objects new).2 addr = .ok func) :
    rtldResolve objects addr = .ok func ∨ new.addr = addr ∧ new.entry = func := by
  obtain ⟨l, hl⟩ := h
  have hset := (hl.set new).2
  rcases l.set_cases new with ⟨-, hl'⟩ | ⟨e, -, hl'⟩
  · rw [hset.resolve, hl'] at hres
    rw [hl.resolve]
    unfold CodeMap.objectAt? at hres ⊢
    rw [List.lookup_append] at hres
    cases hfound : l.lookup addr with
    | some o =>
        rw [hfound] at hres
        exact .inl hres
    | none =>
        right
        rw [hfound, Option.none_or, List.lookup_cons] at hres
        by_cases haddr : addr = new.addr
        · subst haddr
          rw [beq_self_eq_true] at hres
          exact ⟨rfl, Except.ok.inj hres⟩
        · rw [beq_false_of_ne haddr] at hres
          cases hres
  · rw [hset.resolve, hl', ← hl.resolve] at hres
    exact .inl hres

/-- **What loading adds to the index.** -/
theorem rtldAddObject_adds {re : RtldElf} {arena : RtldElf.Arena} {obj : Buf} {objects : Objects}
    {objBase skew addr func : Word} (wf : WellFormed re.host obj) (hidx : Indexed objects)
    (hres : rtldResolve (rtldAddObject (re.loadEnv arena) objects obj objBase skew).2 addr =
      .ok func) :
    rtldResolve objects addr = .ok func ∨ Provides arena.memAllocCode obj skew addr func := by
  have hP : KeptBySets (fun o => Indexed o ∧ ∀ a f, rtldResolve o a = .ok f →
      rtldResolve objects a = .ok f ∨ Provides arena.memAllocCode obj skew a f)
      (fun new => Provides arena.memAllocCode obj skew new.addr new.entry) := by
    refine ⟨fun o new h hnew => ⟨?_, fun a f hf => ?_⟩⟩
    · exact keptBySets_indexed.step o new h.1 trivial
    · rcases rtldSet_resolve_cases h.1 hf with hf | ⟨rfl, rfl⟩
      · exact h.2 a f hf
      · exact .inr hnew
  refine (rtldAddObject_kept hP ?_ ⟨hidx, fun a f hf => .inl hf⟩).2 addr func hres
  intro b hb p hp new hnew
  obtain ⟨base, halloc, hload, haddrs⟩ := rtldPlaceObject_ok wf.tableInside wf.separate hb
  obtain ⟨hsec, htype, k, hk, hsym⟩ := mem_globalFuncs hp
  have hi : p.1 < shnum obj := List.mem_range.mp hsec
  obtain ⟨hat, hcount⟩ := hload.symAt_same hi k
  rw [(hload.fields hi).1] at htype
  rw [hsym, hat] at hnew
  rw [hcount] at hk
  have wf' : WellFormed (re.forCall obj objects skew).host obj := wf
  exact hnew.provides wf' halloc hload haddrs hi htype hk

end Instrew.Client
