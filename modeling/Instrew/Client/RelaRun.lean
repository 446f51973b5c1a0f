import Instrew.Client.LoadBounds

/-!
# What relocating a section computes

While an object is relocated, its headers, symbols, names and relocation entries stay as
they were, if nothing that is patched is a part of them (`Separate`). Then every entry is
resolved from the object as it was when the relocations began: `relaStep_eq` says what one
entry does, and `EntryFits` what it takes for it to stay inside the object.

The headline is `processRela_word`: in a well-formed object, a word that one entry alone
patches is in the end what this entry makes of it, whatever the order of the entries.
-/

namespace Instrew.Client

open Lib.Access Lib.ByteMem

/-- A state of the buffer while an object is relocated. The addresses of the sections are
final. -/
structure Relocating (re : RtldElf) (obj b : Buf) : Prop where
  loading : Loading re obj b
  addr : ∀ j < shnum obj, Shdr.addr b (shdrAt obj j) = shAddr obj j

theorem Relocating.refl {re : RtldElf} {obj : Buf} (ht : TableInside obj)
    (hre : re.reShdr = eShoff obj) : Relocating re obj obj :=
  ⟨.refl ht hre, fun _ _ => rfl⟩

/-! ## Symbols -/

/-- `rtld_elf_resolve_sym` finds symbol `k` of section `t`. -/
def FindsSym (b : Buf) (t k : Nat) : Prop :=
  t ≠ 0 ∧ t < shnum b ∧ shType b t = SHT_SYMTAB ∧ (shEntsize b t).toNat = symSize ∧
    k ≠ 0 ∧ k < symCount b t

instance (b : Buf) (t k : Nat) : Decidable (FindsSym b t k) :=
  inferInstanceAs (Decidable (_ ∧ _ ∧ _ ∧ _ ∧ _ ∧ _))

/-- The address of a symbol that was found in section `t`. -/
def RtldElf.symAddress (re : RtldElf) (obj : Buf) (createStub : RtldPatchData → Except Errno Word)
    (t : Nat) (sym : Word) (patchData : RtldPatchData) : Checked Errno Word :=
  if stShndx obj sym = 0#16 then do
    let name ← if FindsName obj t sym then readName obj (nameAt obj t sym)
      else pure (chars "<unknown>")
    call (re.resolveName createStub patchData name)
  else if stShndx obj sym = 0xfff1#16 then return stValue obj sym
  else if (stShndx obj sym).toNat < shnum obj then
    return shAddr obj (stShndx obj sym).toNat + stValue obj sym
  else fail .EINVAL

/-- A symbol that is found lies in the object, and so does the name of an undefined one. -/
def SymFits (obj : Buf) (t k : Nat) : Prop :=
  FindsSym obj t k → obj.Inside (symAt obj t k) symSize ∧
    (stShndx obj (symAt obj t k) = 0#16 → FindsName obj t (symAt obj t k) →
      NameEnds (obj.drop (nameAt obj t (symAt obj t k)).toNat))

section Symbols

variable {re : RtldElf} {obj b : Buf} {t k : Nat}

theorem Loading.resolveName_eq (h : Loading re obj b) (ht : t < shnum obj)
    (htype : shType obj t = SHT_SYMTAB) (hk : k < symCount obj t)
    (hin : obj.Inside (symAt obj t k) symSize) :
    orValue (chars "<unknown>") (re.resolveStr b (shLink obj t).toNat
        (stName obj (symAt obj t k)).toNat >>= RtldElf.readName b) =
      if FindsName obj t (symAt obj t k) then RtldElf.readName obj (nameAt obj t (symAt obj t k))
      else pure (chars "<unknown>") := by
  rw [h.resolveStr_eq]
  by_cases hfind : FindsName obj t (symAt obj t k)
  · have hname := readName_same h.length (h.name ht htype hk hin hfind)
    rw [if_pos (show FindsStr obj _ _ from hfind), if_pos hfind, ← hname]
    change orValue _ (RtldElf.readName b (nameAt obj t (symAt obj t k))) = _
    rw [RtldElf.readName, need]
    split_ifs <;> rfl
  · rw [if_neg (show ¬ FindsStr obj _ _ from hfind), if_neg hfind]
    rfl

/-- **Symbols are resolved from the object as it was.** -/
theorem Relocating.resolveSym_eq (h : Relocating re obj b)
    (createStub : RtldPatchData → Except Errno Word) (t k : Nat) (patchData : RtldPatchData) :
    re.resolveSym b createStub t k patchData =
      if FindsSym obj t k then do
        need (obj.Inside (symAt obj t k) symSize)
        re.symAddress obj createStub t (symAt obj t k) patchData
      else fail .EINVAL := by
  have hload := h.loading
  by_cases hidx : t = 0 ∨ shnum obj ≤ t
  · have hnot : ¬ FindsSym obj t k := fun hfind => by
      rcases hidx with rfl | hle
      · exact hfind.1 rfl
      · exact absurd hfind.2.1 (Nat.not_lt.mpr hle)
    rw [if_neg hnot, RtldElf.resolveSym, reject_bind_of (by rwa [hload.eShnum_same])]
  obtain ⟨hzero, hlt⟩ := not_or.mp hidx
  rw [Nat.not_le] at hlt
  obtain ⟨htype', -, hoffset', hsize', hlink', -, -, hent'⟩ := hload.at_shdr hlt
  rw [RtldElf.resolveSym, reject_bind_of_not (by rwa [hload.eShnum_same]),
    need_bind_of (hload.inside_shdr hlt), htype', hent', hsize', hoffset', hlink']
  by_cases htype : shType obj t = SHT_SYMTAB
  · rw [reject_bind_of_not (not_not.mpr htype)]
    by_cases hent : (shEntsize obj t).toNat = symSize
    · rw [reject_bind_of_not (not_not.mpr hent)]
      by_cases hk : k = 0 ∨ (shSize obj t).toNat / symSize ≤ k
      · have hnot : ¬ FindsSym obj t k := fun hfind => by
          rcases hk with rfl | hle
          · exact hfind.2.2.2.2.1 rfl
          · exact absurd hfind.2.2.2.2.2 (Nat.not_lt.mpr hle)
        rw [if_neg hnot, reject_bind_of hk]
      · rw [reject_bind_of_not hk]
        obtain ⟨hk₀, hk⟩ := not_or.mp hk
        rw [Nat.not_le] at hk
        rw [if_pos ⟨hzero, hlt, htype, hent, hk₀, hk⟩]
        refine need_congr (hload.inside_iff _ _) fun hin => ?_
        obtain ⟨hshndx, hname, hvalue, -⟩ := hload.symbol_same hlt htype hk hin
        change (if stShndx b (symAt obj t k) = 0#16 then
            orValue (chars "<unknown>") (re.resolveStr b (shLink obj t).toNat
              (stName b (symAt obj t k)).toNat >>= RtldElf.readName b) >>= fun name =>
                call (re.resolveName createStub patchData name)
          else if stShndx b (symAt obj t k) = 0xfff1#16 then pure (stValue b (symAt obj t k))
          else reject ((eShnum b).toNat ≤ (stShndx b (symAt obj t k)).toNat) .EINVAL >>= fun _ =>
            need (b.Inside (re.shdr (stShndx b (symAt obj t k)).toNat) shdrSize) >>= fun _ =>
              pure (Shdr.addr b (re.shdr (stShndx b (symAt obj t k)).toNat) +
                stValue b (symAt obj t k))) = _
        rw [hshndx, hname, hvalue, hload.resolveName_eq hlt htype hk hin, RtldElf.symAddress]
        split_ifs with hundef _ habs hsec
        · rfl
        · rfl
        · rfl
        · rw [reject_bind_of_not (by rw [hload.eShnum_same]; exact Nat.not_le.mpr hsec),
            need_bind_of (hload.inside_shdr hsec), hload.shdr, h.addr _ hsec]
        · rw [reject_bind_of (by rw [hload.eShnum_same]; exact Nat.not_lt.mp hsec)]
    · rw [if_neg fun hfind => hent hfind.2.2.2.1, reject_bind_of hent]
  · rw [if_neg fun hfind => htype hfind.2.2.1, reject_bind_of htype]

theorem resolveSym_ne_fault_iff (ht : TableInside obj) (hre : re.reShdr = eShoff obj)
    (createStub : RtldPatchData → Except Errno Word) (patchData : RtldPatchData) :
    re.resolveSym obj createStub t k patchData ≠ .error .fault ↔ SymFits obj t k := by
  rw [(Relocating.refl ht hre).resolveSym_eq, SymFits]
  by_cases hfind : FindsSym obj t k
  · rw [if_pos hfind, need_bind_ne_fault_iff, forall_prop_of_true hfind]
    refine and_congr_right fun _ => ?_
    rw [RtldElf.symAddress]
    split_ifs with hundef hname habs hsec
    · rw [bind_ne_fault_iff, RtldElf.readName, need_bind_ne_fault_iff]
      simp only [hundef, hname, forall_const]
      exact ⟨fun h => h.1.1, fun h => ⟨⟨h, fun h => (nomatch h)⟩, fun _ _ => call_ne_fault _⟩⟩
    · simp only [hname, false_implies, implies_true, iff_true]
      exact call_ne_fault _
    all_goals exact ⟨fun _ h => absurd h hundef, fun _ h => (nomatch h)⟩
  · rw [if_neg hfind]
    exact ⟨fun _ h => absurd h hfind, fun _ h => (nomatch h)⟩

end Symbols

/-! ## Low halves -/

/-- Entry `e` of section `i` is a high half at `off`. -/
def IsHigh (obj : Buf) (i : Nat) (off : Word) (e : Nat) : Prop :=
  Rela.offset obj (relaEntry obj i e) = off ∧
    Rela.type obj (relaEntry obj i e) ∈ RtldElf.hi20Types

/-- The entries up to the high half at `off` lie in the object, and so does its symbol. -/
def HighFits (obj : Buf) (i : Nat) (off : Word) : Prop :=
  ∀ e < relaCount obj i, (∀ e' < e, ¬ IsHigh obj i off e') →
    obj.Inside (relaEntry obj i e) relaSize ∧
      (IsHigh obj i off e →
        SymFits obj (shLink obj i).toNat (Rela.sym obj (relaEntry obj i e)).toNat)

/-- What `rtld_elf_process_rela` finds in the headers of section `i` and of its target. -/
def relaSection (obj : Buf) (i : Nat) : RtldElf.RelaSection :=
  ⟨shdrAt obj i, shOffset obj i, shdrAt obj (tgtIdx obj i), shOffset obj (tgtIdx obj i),
    (shLink obj i).toNat⟩

section Entries

variable {re : RtldElf} {obj b : Buf} {i e : Nat}

namespace Relocating

variable (h : Relocating re obj b)

include h

theorem resolveSym_same (createStub : RtldPatchData → Except Errno Word) (t k : Nat)
    (patchData : RtldPatchData) :
    re.resolveSym b createStub t k patchData = re.resolveSym obj createStub t k patchData := by
  rw [h.resolveSym_eq, (Relocating.refl h.loading.inside h.loading.reShdr).resolveSym_eq]

theorem lookupHi20From_same (hi : i < shnum obj) (hrel : Relocates obj i)
    (createStub : RtldPatchData → Except Errno Word) (hi20Offset : Word) :
    ∀ m e, e + m ≤ relaCount obj i →
      re.lookupHi20From b createStub (relaSection obj i) hi20Offset m e =
        re.lookupHi20From obj createStub (relaSection obj i) hi20Offset m e
  | 0, _, _ => rfl
  | m + 1, e, hm => by
      have hhdr := h.loading.header hi
      have hentry : RtldElf.relaAt (Shdr.offset b (relaSection obj i).relaShdr) e =
          relaEntry obj i e := congrArg (RtldElf.relaAt · e) hhdr.offset
      have hentryObj : RtldElf.relaAt (Shdr.offset obj (relaSection obj i).relaShdr) e =
          relaEntry obj i e := rfl
      have hlink : Shdr.link b (relaSection obj i).relaShdr =
          Shdr.link obj (relaSection obj i).relaShdr := hhdr.link
      have haddr : Shdr.addr b (relaSection obj i).tgtShdr =
          Shdr.addr obj (relaSection obj i).tgtShdr := h.addr _ hrel.tgt_lt
      rw [RtldElf.lookupHi20From, RtldElf.lookupHi20From, hentry, hentryObj]
      refine need_congr (h.loading.inside_iff _ _) fun hin => ?_
      obtain ⟨hoffset, htype, hsym, haddend⟩ :=
        h.loading.relaEntry_same hi hrel (show e < relaCount obj i by omega) hin
      rw [hoffset, htype, hsym, haddend, hlink, haddr,
        lookupHi20From_same hi hrel createStub hi20Offset m (e + 1) (by omega)]
      simp only [h.resolveSym_same]

theorem rewriteLo12_same (hi : i < shnum obj) (hrel : Relocates obj i) (stubs : RtldElf.Stubs)
    (e : Nat) (sym : Word) (patchData : RtldPatchData) :
    re.rewriteLo12 stubs (relaSection obj i) e b sym patchData =
      re.rewriteLo12 stubs (relaSection obj i) e obj sym patchData := by
  have haddr : Shdr.addr b (relaSection obj i).tgtShdr =
      Shdr.addr obj (relaSection obj i).tgtShdr := h.addr _ hrel.tgt_lt
  have hsize : Shdr.size b (relaSection obj i).relaShdr =
      Shdr.size obj (relaSection obj i).relaShdr := (h.loading.header hi).size
  rw [RtldElf.rewriteLo12, RtldElf.rewriteLo12, RtldElf.lookupHi20Target, RtldElf.lookupHi20Target,
    haddr, hsize]
  rw [h.lookupHi20From_same hi hrel _ _ _ 0 (by rw [Nat.zero_add]; rfl)]

end Relocating

variable (ht : TableInside obj) (hre : re.reShdr = eShoff obj)

include ht hre

/-- The lookup gets to the first high half at `off`. -/
theorem lookupHi20From_ne_fault_iff (createStub : RtldPatchData → Except Errno Word)
    (off : Word) : ∀ m e,
    re.lookupHi20From obj createStub (relaSection obj i) off m e ≠ .error .fault ↔
      ∀ k, e ≤ k → k < e + m → (∀ k', e ≤ k' → k' < k → ¬ IsHigh obj i off k') →
        obj.Inside (relaEntry obj i k) relaSize ∧
          (IsHigh obj i off k →
            SymFits obj (shLink obj i).toNat (Rela.sym obj (relaEntry obj i k)).toNat) := by
  intro m
  induction m with
  | zero => exact fun e => ⟨fun _ k hek hk => absurd hk (by omega), fun _ h => (nomatch h)⟩
  | succ m ih =>
      intro e
      have hentry : RtldElf.relaAt (Shdr.offset obj (relaSection obj i).relaShdr) e =
          relaEntry obj i e := rfl
      rw [RtldElf.lookupHi20From, hentry, need_bind_ne_fault_iff]
      by_cases hhigh : IsHigh obj i off e
      · -- the lookup ends here
        rw [if_pos (show _ ∧ _ from hhigh), bind_ne_fault_iff, orFail_ne_fault_iff, resolveSym_ne_fault_iff ht hre]
        constructor
        · rintro ⟨hin, hsym, -⟩ k hek hk hnone
          rcases Nat.eq_or_lt_of_le hek with rfl | hlt
          · exact ⟨hin, fun _ => hsym⟩
          · exact absurd hhigh (hnone e le_rfl hlt)
        · intro hall
          obtain ⟨hin, hsym⟩ := hall e le_rfl (by omega) fun k' hek hk => absurd hk (by omega)
          exact ⟨hin, hsym hhigh, fun _ _ h => (nomatch h)⟩
      · rw [if_neg (show ¬ (_ ∧ _) from hhigh), ih (e + 1)]
        constructor
        · rintro ⟨hin, hrest⟩ k hek hk hnone
          rcases Nat.eq_or_lt_of_le hek with rfl | hlt
          · exact ⟨hin, fun h => absurd h hhigh⟩
          · exact hrest k hlt (by omega) fun k' hk' => hnone k' (Nat.le_of_succ_le hk')
        · intro hall
          refine ⟨(hall e le_rfl (by omega) fun k' hek hk => absurd hk (by omega)).1, ?_⟩
          intro k hek hk hnone
          refine hall k (Nat.le_of_succ_le hek) (by omega) fun k' hek' hk' => ?_
          rcases Nat.eq_or_lt_of_le hek' with rfl | hlt
          · exact hhigh
          · exact hnone k' hlt hk'

end Entries

/-! ## One entry -/

section Entry

variable (re : RtldElf) (stubs : RtldElf.Stubs) (obj : Buf) (i e : Nat)

/-- What entry `e` says of its relocation. -/
def entryPatch : RtldPatchData :=
  ⟨0#64, Rela.type obj (relaEntry obj i e), 8#32, Rela.addend obj (relaEntry obj i e),
    shAddr obj (tgtIdx obj i) + Rela.offset obj (relaEntry obj i e)⟩

/-- The symbol entry `e` names, as the object resolves it in the given call. -/
def entrySym (call : Nat) (patchData : RtldPatchData) : Checked Errno Word :=
  re.resolveSym obj (stubs.rtldPatchCreateStub call) (shLink obj i).toNat
    (Rela.sym obj (relaEntry obj i e)).toNat patchData

/-- What entry `e` makes `rtld_reloc_at` work with. -/
def relocArgs : Checked Errno (Word × RtldPatchData) := do
  let sym ← orFail .EINVAL (entrySym re stubs obj i e (2 * e) (entryPatch obj i e))
  re.rewriteLo12 stubs (relaSection obj i) e obj sym (entryPatch obj i e)

/-- The call of `rtld_reloc_at` for entry `e`. -/
def entryReloc (p : Word × RtldPatchData) : Except Errno Unit × List Write :=
  rtldRelocAt re.host (stubs.rtldElfAddStub e) p.2 p.1

/-- Entry `e` patches a place of its target. -/
def InTarget : Prop :=
  (Rela.offset obj (relaEntry obj i e)).toNat < (shSize obj (tgtIdx obj i)).toNat

instance : Decidable (InTarget obj i e) := inferInstanceAs (Decidable (_ < _))

/-- Entry `e` is a RISC-V low half. -/
def IsLow : Prop :=
  re.host = .riscv ∧ (Rela.type obj (relaEntry obj i e) = 24#32 ∨
    Rela.type obj (relaEntry obj i e) = 25#32)

/-- **What the loader touches for entry `e` lies in the object**: the entry, the symbol and
for a low half the entries up to its high half, and the patched field. -/
structure EntryFits : Prop where
  entry : obj.Inside (relaEntry obj i e) relaSize
  symbol : InTarget obj i e →
    SymFits obj (shLink obj i).toNat (Rela.sym obj (relaEntry obj i e)).toNat
  high : InTarget obj i e → IsLow re obj i e → ∀ sym,
    entrySym re stubs obj i e (2 * e) (entryPatch obj i e) = .ok sym →
      HighFits obj i (sym - shAddr obj (tgtIdx obj i))
  patched : InTarget obj i e → ∀ p, relocArgs re stubs obj i e = .ok p →
    (entryReloc re stubs e p).1 = .ok () →
      obj.Covers (patchAt obj i e) (writesWidth (entryReloc re stubs e p).2)

/-- The loader does not refuse entry `e`. -/
def EntryAccepted : Prop :=
  InTarget obj i e ∧ ∃ p, relocArgs re stubs obj i e = .ok p ∧ (entryReloc re stubs e p).1 = .ok ()

end Entry

section Step

variable {re : RtldElf} {stubs : RtldElf.Stubs} {obj b : Buf} {i e : Nat}

theorem rewriteLo12_relType {sec : RtldElf.RelaSection} {sym : Word} {patchData : RtldPatchData}
    {p : Word × RtldPatchData} (hp : re.rewriteLo12 stubs sec e b sym patchData = .ok p) :
    p.2.relType = patchData.relType := by
  rw [RtldElf.rewriteLo12] at hp
  split_ifs at hp
  · obtain ⟨target, -, htarget⟩ := bind_eq_ok.mp hp
    cases htarget
    rfl
  · cases hp
    rfl

theorem relocArgs_relType {p : Word × RtldPatchData} (hp : relocArgs re stubs obj i e = .ok p) :
    p.2.relType = Rela.type obj (relaEntry obj i e) := by
  obtain ⟨sym, -, hrewrite⟩ := bind_eq_ok.mp hp
  exact rewriteLo12_relType hrewrite

theorem relocArgs_ne_fault_iff (ht : TableInside obj) (hre : re.reShdr = eShoff obj) :
    relocArgs re stubs obj i e ≠ .error .fault ↔
      SymFits obj (shLink obj i).toNat (Rela.sym obj (relaEntry obj i e)).toNat ∧
      (IsLow re obj i e → ∀ sym, entrySym re stubs obj i e (2 * e) (entryPatch obj i e) = .ok sym →
        HighFits obj i (sym - shAddr obj (tgtIdx obj i))) := by
  have hlookup : ∀ sym, re.rewriteLo12 stubs (relaSection obj i) e obj sym (entryPatch obj i e) ≠
      .error .fault ↔ (IsLow re obj i e → HighFits obj i (sym - shAddr obj (tgtIdx obj i))) := by
    intro sym
    have htype : (entryPatch obj i e).relType = Rela.type obj (relaEntry obj i e) := rfl
    rw [RtldElf.rewriteLo12, htype]
    by_cases hlow : IsLow re obj i e
    · rw [if_pos (show _ ∧ _ from hlow), bind_ne_fault_iff, orFail_ne_fault_iff, RtldElf.lookupHi20Target,
        lookupHi20From_ne_fault_iff ht hre, forall_prop_of_true hlow]
      simp only [Nat.zero_le, true_implies, Nat.zero_add]
      exact ⟨fun h => h.1, fun h => ⟨h, fun _ _ h => (nomatch h)⟩⟩
    · rw [if_neg (show ¬ (_ ∧ _) from hlow)]
      exact ⟨fun _ h => absurd h hlow, fun _ h => (nomatch h)⟩
  rw [relocArgs, bind_ne_fault_iff, orFail_ne_fault_iff, entrySym, resolveSym_ne_fault_iff ht hre]
  simp only [orFail_eq_ok, hlookup]
  exact and_congr_right fun _ => ⟨fun h hlow sym hsym => h sym hsym hlow,
    fun h sym hsym hlow => h hlow sym hsym⟩

/-- **One round of the loop.** The object that an entry is resolved from is the object as it
was; only the writes go to the buffer. -/
theorem Relocating.relaStep_eq (h : Relocating re obj b) (hi : i < shnum obj)
    (hrel : Relocates obj i) (he : e < relaCount obj i) :
    re.relaStep stubs (relaSection obj i) e b = (do
      need (obj.Inside (relaEntry obj i e) relaSize)
      reject (¬ InTarget obj i e) .EINVAL
      let p ← relocArgs re stubs obj i e
      RtldElf.relocAt b (patchAt obj i e) (entryReloc re stubs e p)) := by
  have hentry : RtldElf.relaAt (relaSection obj i).elfRela e = relaEntry obj i e := rfl
  have hsize : Shdr.size b (relaSection obj i).tgtShdr = shSize obj (tgtIdx obj i) :=
    (h.loading.header hrel.tgt_lt).size
  have haddr : Shdr.addr b (relaSection obj i).tgtShdr = shAddr obj (tgtIdx obj i) :=
    h.addr _ hrel.tgt_lt
  have htgt : b.Inside (relaSection obj i).tgtShdr shdrSize := by
    have hin := h.loading.inside_shdr hrel.tgt_lt
    rwa [h.loading.shdr] at hin
  rw [RtldElf.relaStep, hentry]
  refine need_congr (h.loading.inside_iff _ _) fun hin => ?_
  obtain ⟨hoffset, htype, hsym, haddend⟩ := h.loading.relaEntry_same hi hrel he hin
  rw [need_bind_of htgt, hoffset, htype, hsym, haddend, hsize, haddr]
  refine reject_congr Nat.not_lt.symm fun _ => ?_
  simp only [h.resolveSym_same, h.rewriteLo12_same hi hrel, relocArgs, bind_assoc]
  rfl

/-- An entry does not leave the object exactly when it fits. -/
theorem Relocating.relaStep_ne_fault_iff (h : Relocating re obj b) (hi : i < shnum obj)
    (hrel : Relocates obj i) (he : e < relaCount obj i) :
    re.relaStep stubs (relaSection obj i) e b ≠ .error .fault ↔ EntryFits re stubs obj i e := by
  rw [h.relaStep_eq hi hrel he, need_bind_ne_fault_iff, reject_bind_ne_fault_iff, not_not,
    bind_ne_fault_iff, relocArgs_ne_fault_iff h.loading.inside h.loading.reShdr]
  simp only [RtldElf.relocAt, call_bind_ne_fault_iff, need_bind_ne_fault_iff, h.loading.covers_iff]
  constructor
  · rintro ⟨hentry, hrest⟩
    exact ⟨hentry, fun htgt => (hrest htgt).1.1, fun htgt => (hrest htgt).1.2,
      fun htgt p hp hok => ((hrest htgt).2 p hp () hok).1⟩
  · intro hfits
    exact ⟨hfits.entry, fun htgt => ⟨⟨hfits.symbol htgt, hfits.high htgt⟩,
      fun p hp _ hok => ⟨hfits.patched htgt p hp hok, fun h => (nomatch h)⟩⟩⟩

/-- What an entry that succeeds does. -/
theorem Relocating.relaStep_eq_ok_iff (h : Relocating re obj b) (hi : i < shnum obj)
    (hrel : Relocates obj i) (he : e < relaCount obj i) {b' : Buf} :
    re.relaStep stubs (relaSection obj i) e b = .ok b' ↔
      obj.Inside (relaEntry obj i e) relaSize ∧ InTarget obj i e ∧
      ∃ p, relocArgs re stubs obj i e = .ok p ∧ (entryReloc re stubs e p).1 = .ok () ∧
        obj.Covers (patchAt obj i e) (writesWidth (entryReloc re stubs e p).2) ∧
        b' = b.patch (patchAt obj i e) (entryReloc re stubs e p).2 := by
  rw [h.relaStep_eq hi hrel he, need_bind_eq_ok, reject_bind_eq_ok, not_not, bind_eq_ok]
  refine and_congr_right fun _ => and_congr_right fun _ => exists_congr fun p =>
    and_congr_right fun _ => ?_
  rw [RtldElf.relocAt, bind_eq_ok]
  simp only [call_eq_ok, need_bind_eq_ok, h.loading.covers_iff]
  constructor
  · rintro ⟨_, hok, hin, hb'⟩
    exact ⟨hok, hin, (Except.ok.inj hb').symm⟩
  · rintro ⟨hok, hin, rfl⟩
    exact ⟨(), hok, hin, rfl⟩

end Step

/-! ## Separate objects -/

/-- A relocation writes no more than its width. -/
theorem relocCase_width (stub : Word → Except Errno Word) (syma pc : Word) (t : RelType) :
    writesWidth (relocCase stub syma pc t).2 ≤ relWidth t := by
  have hone : ∀ w n, w.width = n → writesWidth (relocWrite w).2 ≤ n := fun w n hn => by
    simp [relocWrite, writesWidth, hn]
  have hchecked : ∀ c w n, w.width = n → writesWidth (relocChecked c w).2 ≤ n := fun c w n hn => by
    cases c <;> simp [relocChecked, writesWidth, hn]
  have hjump : writesWidth (relocJump26 stub syma pc).2 ≤ 4 := by
    rw [relocJump26]
    split_ifs
    · exact hchecked _ _ _ rfl
    · split
      · exact Nat.zero_le _
      · exact hchecked _ _ _ rfl
  cases t <;> dsimp only [relocCase, relWidth] <;>
    first | exact hchecked _ _ _ rfl | exact hone _ _ rfl | exact hjump | exact le_rfl

/-- **A separate object.** No section address that is written is a part of the file header or
of a symbol, a name or a relocation entry, and no relocation patches one of these or the
section table. -/
structure Separate (host : Host) (obj : Buf) : Prop where
  addrs : ∀ i < shnum obj, Allocated obj i →
    ∀ o, Range.Mem ⟨(shdrAt obj i).toNat + 16, 8⟩ o → ¬ ehdrRange.Mem o ∧ ¬ EntryByte obj o
  patches : ∀ i < shnum obj, Relocates obj i → ∀ e < relaCount obj i,
    obj.Inside (relaEntry obj i e) relaSize → InTarget obj i e →
    ∀ t ∈ relType host (Rela.type obj (relaEntry obj i e)).toNat,
      ∀ o < obj.length, Range.Mem ⟨(patchAt obj i e).toNat, relWidth t⟩ o →
        ¬ ehdrRange.Mem o ∧ ¬ (tableRange obj).Mem o ∧ ¬ EntryByte obj o

section Section

variable {re : RtldElf} {stubs : RtldElf.Stubs} {obj b : Buf} {i e : Nat}

theorem entryReloc_width {p : Word × RtldPatchData} (hp : relocArgs re stubs obj i e = .ok p) :
    writesWidth (entryReloc re stubs e p).2 ≤
      (relType re.host (Rela.type obj (relaEntry obj i e)).toNat).elim 0 relWidth := by
  rw [entryReloc, rtldRelocAt, relocArgs_relType hp]
  cases relType re.host (Rela.type obj (relaEntry obj i e)).toNat with
  | none => exact le_rfl
  | some t => exact relocCase_width _ _ _ t

/-- The header of a section is a part of the table. -/
theorem TableInside.mem_tableRange (ht : TableInside obj) (hi : i < shnum obj) {o : Nat}
    (ho : Range.Mem ⟨(shdrAt obj i).toNat, 64⟩ o) : (tableRange obj).Mem o := by
  obtain ⟨hat, -⟩ := ht.shdr hi
  simp only [Range.Mem, tableRange, shdrSize] at ho ⊢
  omega

/-- A write next to the headers and the entries. -/
theorem Relocating.write (h : Relocating re obj b) {b' : Buf} (hlen : b'.length = b.length)
    (hout : ∀ o, ehdrRange.Mem o ∨ (tableRange obj).Mem o ∨ EntryByte obj o →
      b'.mem o = b.mem o) : Relocating re obj b' where
  loading :=
    { h.loading with
      length := hlen.trans h.loading.length
      kept := fun o ho => by
        refine (hout o ?_).trans (h.loading.kept o ho)
        rcases ho with ho | ⟨j, hj, ho⟩ | ho
        · exact .inl ho
        · refine .inr (.inl (h.loading.inside.mem_tableRange hj ?_))
          simp only [Range.Mem] at ho ⊢
          omega
        · exact .inr (.inr ho) }
  addr := fun j hj => by
    have hfits := (h.loading.header hj).fits
    have hat : (shdrAt obj j + 16#64).toNat = (shdrAt obj j).toNat + 16 :=
      toNat_add_of_lt (by omega)
    refine (u64_same (by omega) fun o ho => ?_).trans (h.addr j hj)
    refine hout o (.inr (.inl (h.loading.inside.mem_tableRange hj ?_)))
    simp only [Range.Mem] at ho ⊢
    omega

/-- An entry of a separate object leaves the headers and the entries alone. -/
theorem Relocating.relaStep_ok (h : Relocating re obj b) (hsep : Separate re.host obj)
    (hi : i < shnum obj) (hrel : Relocates obj i) (he : e < relaCount obj i) {b' : Buf}
    (hstep : re.relaStep stubs (relaSection obj i) e b = .ok b') : Relocating re obj b' := by
  obtain ⟨hin, htgt, p, hp, -, -, rfl⟩ := (h.relaStep_eq_ok_iff hi hrel he).mp hstep
  refine h.write (b.length_patch _ _) fun o ho => b.mem_patch_of_not_mem _ _ fun hlt hmem => ?_
  have hwidth := entryReloc_width hp
  cases htype : relType re.host (Rela.type obj (relaEntry obj i e)).toNat with
  | none =>
      rw [htype, Option.elim_none] at hwidth
      simp only [Range.Mem] at hmem
      omega
  | some t =>
      rw [htype, Option.elim_some] at hwidth
      obtain ⟨hehdr, htable, hentry⟩ := hsep.patches i hi hrel e he hin htgt t htype o
        (h.loading.length ▸ hlt) ⟨hmem.1, hmem.2.trans_le (Nat.add_le_add_left hwidth _)⟩
      rcases ho with ho | ho | ho
      · exact hehdr ho
      · exact htable ho
      · exact hentry ho

/-! ## Placing a separate object -/

/-- The addresses that are written are not among the bytes that are kept. -/
theorem Separate.addr_not_kept {host : Host} (hsep : Separate host obj) (ht : TableInside obj)
    (hi : i < shnum obj) (halloc : Allocated obj i) {o : Nat}
    (ho : Range.Mem ⟨(shdrAt obj i).toNat + 16, 8⟩ o) : ¬ Kept obj o := by
  obtain ⟨hehdr, hentry⟩ := hsep.addrs i hi halloc o ho
  rintro (hk | ⟨j, hj, hk⟩ | hk)
  · exact hehdr hk
  · have hati := (ht.shdr hi).1
    have hatj := (ht.shdr hj).1
    simp only [Range.Mem] at ho hk
    omega
  · exact hentry hk

namespace Loading

variable (h : Loading re obj b)

include h

theorem setAddr {host : Host} (hsep : Separate host obj) (hi : i < shnum obj)
    (halloc : Allocated obj i) (v : Word) :
    Loading re obj (b.setU64 (shdrAt obj i + 16#64) v) := by
  have hfits := (h.header hi).fits
  have hat : (shdrAt obj i + 16#64).toNat = (shdrAt obj i).toNat + 16 :=
    toNat_add_of_lt (by omega)
  refine { h with length := (b.length_setU64 _ v).trans h.length, kept := fun o ho => ?_ }
  refine (b.mem_setU64_of_not_mem v (by omega) fun hmem => ?_).trans (h.kept o ho)
  rw [hat] at hmem
  exact hsep.addr_not_kept h.inside hi halloc hmem ho

theorem allocated_iff (hi : i < shnum obj) : Allocated b i ↔ Allocated obj i := by
  rw [Allocated, Allocated, (h.fields hi).2.1]

theorem tgtIdx_same (hi : i < shnum obj) : tgtIdx b i = tgtIdx obj i := by
  rw [tgtIdx, tgtIdx, (h.fields hi).2.2.2.2.2.1]

theorem relocates_iff (hi : i < shnum obj) : Relocates b i ↔ Relocates obj i := by
  obtain ⟨htype, -, -, -, -, hinfo, -, hent⟩ := h.fields hi
  rw [Client.relocates_iff, Client.relocates_iff, htype, hent, hinfo, h.tgtIdx_same hi, h.shnum_same]
  refine and_congr_right fun _ => and_congr_right fun _ => and_congr_right fun _ =>
    and_congr_right fun _ => and_congr_right fun htgt => ?_
  rw [h.allocated_iff htgt]

theorem symAt_same (hi : i < shnum obj) (k : Nat) :
    symAt b i k = symAt obj i k ∧ symCount b i = symCount obj i := by
  obtain ⟨-, -, hoffset, hsize, -⟩ := h.fields hi
  rw [symAt, symAt, symCount, symCount, hoffset, hsize]
  exact ⟨rfl, rfl⟩

theorem relaEntry_at (hi : i < shnum obj) (e : Nat) :
    relaEntry b i e = relaEntry obj i e ∧ relaCount b i = relaCount obj i := by
  obtain ⟨-, -, hoffset, hsize, -⟩ := h.fields hi
  rw [relaEntry, relaEntry, relaCount, relaCount, hoffset, hsize]
  exact ⟨rfl, rfl⟩

theorem findsStr_iff (t k : Nat) :
    (FindsStr b t k ↔ FindsStr obj t k) ∧ (FindsStr obj t k → strAt b t k = strAt obj t k) := by
  by_cases ht : t < shnum obj
  · obtain ⟨htype, -, hoffset, hsize, -⟩ := h.fields ht
    rw [FindsStr, FindsStr, h.shnum_same, htype, hsize, strAt, strAt, hoffset]
    exact ⟨Iff.rfl, fun _ => rfl⟩
  · refine ⟨iff_of_false (fun hfind => ht ?_) fun hfind => ht hfind.2.1, fun hfind => absurd hfind.2.1 ht⟩
    rw [← h.shnum_same]
    exact hfind.2.1

/-- A symbol has the name it had. -/
theorem findsName_iff (hi : i < shnum obj) (htype : shType obj i = SHT_SYMTAB) {k : Nat}
    (hk : k < symCount obj i) (hin : obj.Inside (symAt obj i k) symSize) :
    (FindsName b i (symAt obj i k) ↔ FindsName obj i (symAt obj i k)) ∧
      (FindsName obj i (symAt obj i k) →
        nameAt b i (symAt obj i k) = nameAt obj i (symAt obj i k) ∧
        nameRange b (nameAt obj i (symAt obj i k)) = nameRange obj (nameAt obj i (symAt obj i k))) := by
  obtain ⟨-, -, -, -, hlink, -⟩ := h.fields hi
  obtain ⟨-, hname, -⟩ := h.symbol_same hi htype hk hin
  rw [FindsName, FindsName, nameAt, nameAt, hlink, hname]
  obtain ⟨hiff, hat⟩ := h.findsStr_iff (shLink obj i).toNat (stName obj (symAt obj i k)).toNat
  refine ⟨hiff, fun hfind => ⟨hat hfind, ?_⟩⟩
  have hstr := (name_same h.length (h.name hi htype hk hin hfind)).2.2
  rw [nameAt] at hstr
  rw [nameRange, nameRange, hstr]

theorem entryByte_iff (o : Nat) : EntryByte b o ↔ EntryByte obj o := by
  rw [EntryByte, EntryByte, h.shnum_same]
  refine or_congr (exists_congr fun i => and_congr_right fun hi => ?_)
    (exists_congr fun i => and_congr_right fun hi => ?_)
  · rw [(h.fields hi).1, (h.symAt_same hi 0).2]
    refine and_congr_right fun htype => exists_congr fun k => and_congr_right fun hk => ?_
    rw [(h.symAt_same hi k).1, h.inside_iff]
    refine or_congr Iff.rfl (and_congr_right fun hin => ?_)
    obtain ⟨hiff, hsame⟩ := h.findsName_iff hi htype hk hin
    rw [hiff]
    refine and_congr_right fun hfind => ?_
    obtain ⟨hat, hrange⟩ := hsame hfind
    rw [hat, hrange]
  · rw [h.relocates_iff hi, (h.relaEntry_at hi 0).2]
    refine and_congr_right fun _ => exists_congr fun e => and_congr_right fun _ => ?_
    rw [(h.relaEntry_at hi e).1]

/-- What an entry says of the place it patches. -/
theorem patchAt_same (hi : i < shnum obj) (hrel : Relocates obj i) (he : e < relaCount obj i)
    (hin : obj.Inside (relaEntry obj i e) relaSize) :
    patchAt b i e = patchAt obj i e ∧ (InTarget b i e ↔ InTarget obj i e) ∧
      Rela.type b (relaEntry b i e) = Rela.type obj (relaEntry obj i e) := by
  obtain ⟨hoffset, htype, -, -⟩ := h.relaEntry_same hi hrel he hin
  obtain ⟨-, -, htgt, hsize, -⟩ := h.fields hrel.tgt_lt
  rw [patchAt, patchAt, InTarget, InTarget, h.tgtIdx_same hi, (h.relaEntry_at hi e).1, htgt, hsize,
    hoffset, htype]
  exact ⟨rfl, Iff.rfl, rfl⟩

theorem tableRange_same : tableRange b = tableRange obj := by
  rw [tableRange, tableRange, h.eShoff_same, h.shnum_same]

/-- Loading keeps an object separate. -/
theorem separate {host : Host} (hsep : Separate host obj) : Separate host b where
  addrs := fun i hi halloc o ho => by
    rw [h.shnum_same] at hi
    rw [h.shdrAt_same] at ho
    rw [h.entryByte_iff]
    exact hsep.addrs i hi ((h.allocated_iff hi).mp halloc) o ho
  patches := fun i hi hrel e he hin htgt t ht o ho hmem => by
    rw [h.shnum_same] at hi
    rw [h.relocates_iff hi] at hrel
    rw [(h.relaEntry_at hi e).2] at he
    rw [(h.relaEntry_at hi e).1, h.inside_iff] at hin
    obtain ⟨hat, hiff, htype⟩ := h.patchAt_same hi hrel he hin
    rw [htype] at ht
    rw [hat] at hmem
    rw [h.tableRange_same, h.entryByte_iff]
    exact hsep.patches i hi hrel e he hin (hiff.mp htgt) t ht o (h.length ▸ ho) hmem

theorem tableInside : TableInside b where
  size := h.length ▸ h.inside.size
  table := by
    rw [h.eShoff_same, h.shnum_same, h.length]
    exact h.inside.table
  apart := fun i hi halloc => by
    rw [h.shnum_same] at hi
    rw [h.shdrAt_same]
    exact h.inside.apart i hi ((h.allocated_iff hi).mp halloc)

end Loading

/-! ## The whole section -/

/-- `rtld_elf_process_rela`, before its loop. -/
theorem Loading.openRela_eq (h : Loading re obj b) (i : Nat) :
    re.openRela b i =
      if i < shnum obj ∧ Relocates obj i then .ok (relaSection obj i) else fail .EINVAL := by
  by_cases hidx : i = 0 ∨ shnum obj ≤ i
  · have hnot : ¬ (i < shnum obj ∧ Relocates obj i) := fun hrel => by
      rcases hidx with rfl | hle
      · exact hrel.2.ne_zero rfl
      · exact absurd hrel.1 (Nat.not_lt.mpr hle)
    rw [if_neg hnot, RtldElf.openRela, reject_bind_of (by rwa [h.eShnum_same])]
  obtain ⟨hzero, hlt⟩ := not_or.mp hidx
  rw [Nat.not_le] at hlt
  obtain ⟨htype', -, hoffset', -, hlink', hinfo', -, hent'⟩ := h.at_shdr hlt
  rw [RtldElf.openRela, reject_bind_of_not (by rwa [h.eShnum_same]),
    need_bind_of (h.inside_shdr hlt), htype', hent', hoffset', hlink', hinfo']
  by_cases htype : shType obj i = SHT_RELA
  · rw [reject_bind_of_not (not_not.mpr htype)]
    by_cases hent : (shEntsize obj i).toNat = relaSize
    · rw [reject_bind_of_not (not_not.mpr hent)]
      by_cases hinfo : shInfo obj i = 0#32 ∨ shnum obj ≤ tgtIdx obj i
      · have hnot : ¬ (i < shnum obj ∧ Relocates obj i) := fun hrel => by
          rcases hinfo with hnull | hle
          · exact hrel.2.tgt_ne_zero hnull
          · exact absurd hrel.2.tgt_lt (Nat.not_lt.mpr hle)
        rw [if_neg hnot, reject_bind_of (by rwa [h.eShnum_same])]
      · rw [reject_bind_of_not (by rwa [h.eShnum_same])]
        obtain ⟨hnull, htgt⟩ := not_or.mp hinfo
        rw [Nat.not_le] at htgt
        obtain ⟨-, hflags', htoffset', -⟩ := h.at_shdr htgt
        refine (need_bind_of (h.inside_shdr htgt) _).trans ?_
        change (reject (Shdr.flags b (re.shdr (tgtIdx obj i)) &&& SHF_ALLOC = 0#64) Errno.EINVAL >>=
          fun _ => pure (RtldElf.RelaSection.mk (re.shdr i) (shOffset obj i) (re.shdr (tgtIdx obj i))
            (Shdr.offset b (re.shdr (tgtIdx obj i))) (shLink obj i).toNat)) = _
        rw [hflags', htoffset', h.shdr, h.shdr]
        by_cases halloc : Allocated obj (tgtIdx obj i)
        · rw [if_pos ⟨hlt, hzero, htype, hent, hnull, htgt, halloc⟩, reject_bind_of_not halloc]
          rfl
        · rw [if_neg fun hrel => halloc hrel.2.allocated, reject_bind_of (not_not.mp halloc)]
    · rw [if_neg fun hrel => hent hrel.2.entsize, reject_bind_of hent]
  · rw [if_neg fun hrel => htype hrel.2.rela, reject_bind_of htype]

/-- What the loader touches for section `i` lies in the object, up to the entry it refuses. -/
def SectionFits (re : RtldElf) (stubs : RtldElf.Stubs) (obj : Buf) (i : Nat) : Prop :=
  Relocates obj i → ∀ e < relaCount obj i,
    (∀ e' < e, EntryAccepted re stubs obj i e') → EntryFits re stubs obj i e

/-- The loader does not refuse section `i`. -/
def SectionAccepted (re : RtldElf) (stubs : RtldElf.Stubs) (obj : Buf) (i : Nat) : Prop :=
  Relocates obj i ∧ ∀ e < relaCount obj i, EntryAccepted re stubs obj i e

/-- The rounds of the loop over the entries. -/
theorem relaStep_rounds (hsep : Separate re.host obj) (hi : i < shnum obj)
    (hrel : Relocates obj i) :
    Rounds (fun e _ => e < relaCount obj i) (re.relaStep stubs (relaSection obj i))
      (relaCount obj i) (fun _ b => Relocating re obj b) (EntryFits re stubs obj i)
      (EntryAccepted re stubs obj i) where
  cond_iff := fun e b _ => decide_eq_true_iff
  fits := fun e b he h => h.relaStep_ne_fault_iff hi hrel he
  goes := fun e b he h hfits ⟨htgt, p, hp, hok⟩ =>
    ⟨_, (h.relaStep_eq_ok_iff hi hrel he).mpr
      ⟨hfits.entry, htgt, p, hp, hok, hfits.patched htgt p hp hok, rfl⟩⟩
  next := fun e b b' he h hstep => by
    obtain ⟨-, htgt, p, hp, hok, -, -⟩ := (h.relaStep_eq_ok_iff hi hrel he).mp hstep
    exact .inl ⟨⟨htgt, p, hp, hok⟩, h.relaStep_ok hsep hi hrel he hstep⟩

/-- `rtld_elf_process_rela` of a section that passes its checks is the loop. -/
theorem Relocating.processRela_eq (h : Relocating re obj b) (stubs : RtldElf.Stubs)
    (hi : i < shnum obj) (hrel : Relocates obj i) :
    re.processRela stubs b i = forLoop (fun e _ => e < relaCount obj i)
      (re.relaStep stubs (relaSection obj i)) (relaCount obj i) 0 b := by
  have hcount : (Shdr.size b (relaSection obj i).relaShdr).toNat / relaSize = relaCount obj i :=
    congrArg (fun size : Word => size.toNat / relaSize) (h.loading.header hi).size
  rw [RtldElf.processRela, h.loading.openRela_eq, if_pos ⟨hi, hrel⟩]
  change forLoop (fun e _ => e < (Shdr.size b (relaSection obj i).relaShdr).toNat / relaSize)
    (re.relaStep stubs (relaSection obj i))
    ((Shdr.size b (relaSection obj i).relaShdr).toNat / relaSize) 0 b = _
  rw [hcount]

theorem Relocating.processRela_ne_fault_iff (h : Relocating re obj b) (hsep : Separate re.host obj)
    (hi : i < shnum obj) :
    re.processRela stubs b i ≠ .error .fault ↔ SectionFits re stubs obj i := by
  by_cases hrel : Relocates obj i
  · rw [h.processRela_eq stubs hi hrel, SectionFits, forall_prop_of_true hrel,
      (relaStep_rounds hsep hi hrel).ne_fault_iff _ 0 b (Nat.zero_le _) (Nat.zero_add _).ge h]
    simp only [Nat.zero_le, true_implies]
  · rw [RtldElf.processRela, h.loading.openRela_eq, if_neg fun hrel' => hrel hrel'.2]
    exact ⟨fun _ hrel' => absurd hrel' hrel, fun _ h => (nomatch h)⟩

theorem Relocating.processRela_ok (h : Relocating re obj b) (hsep : Separate re.host obj)
    {b' : Buf} (hrun : re.processRela stubs b i = .ok b') :
    i < shnum obj ∧ SectionAccepted re stubs obj i ∧ Relocating re obj b' := by
  have hopen : i < shnum obj ∧ Relocates obj i := by
    by_contra hnot
    rw [RtldElf.processRela, h.loading.openRela_eq, if_neg hnot] at hrun
    exact nomatch hrun
  obtain ⟨hi, hrel⟩ := hopen
  rw [h.processRela_eq stubs hi hrel] at hrun
  rcases (relaStep_rounds hsep hi hrel).ok_cases _ 0 b b' (Nat.zero_le _) (Nat.zero_add _).ge h hrun
    with ⟨hall, hb'⟩ | ⟨hnot, hstop⟩
  · exact ⟨hi, ⟨hrel, fun e he => hall e (Nat.zero_le e) he⟩, hb'⟩
  · exact absurd (fun e _ he => absurd he (of_decide_eq_false (hstop e))) hnot

theorem Relocating.exists_processRela (h : Relocating re obj b) (hsep : Separate re.host obj)
    (hi : i < shnum obj) (hfits : SectionFits re stubs obj i)
    (hacc : SectionAccepted re stubs obj i) : ∃ b', re.processRela stubs b i = .ok b' := by
  rw [h.processRela_eq stubs hi hacc.1]
  refine (relaStep_rounds hsep hi hacc.1).exists_ok _ 0 b (Nat.zero_le _) (Nat.zero_add _).ge h
    fun e _ he => ⟨?_, hacc.2 e he⟩
  exact hfits hacc.1 e he fun e' he' => hacc.2 e' (he'.trans he)

end Section

/-! ## Well-formed objects -/

/-- The sections the loader reads entries or names from. -/
def IsTable (b : Buf) (i : Nat) : Prop :=
  shType b i = SHT_SYMTAB ∨ shType b i = SHT_STRTAB ∨ shType b i = SHT_RELA

instance (b : Buf) (i : Nat) : Decidable (IsTable b i) := inferInstanceAs (Decidable (_ ∨ _))

/-- **A well-formed object.** The section table lies in the object, and so do the contents
of every section that is read, copied or patched. A string table ends with a NUL, and a
patched field ends within its section. Nothing that is patched, and no section header, is
part of the file header or of a table. -/
@[mk_iff]
structure WellFormed (host : Host) (b : Buf) : Prop where
  size : b.length < 2 ^ 64
  table : (eShoff b).toNat + shdrSize * shnum b ≤ b.length
  contents : ∀ i < shnum b, shType b i = SHT_PROGBITS ∨ IsTable b i →
    (shOffset b i).toNat + (shSize b i).toNat ≤ b.length
  target : ∀ i < shnum b, Relocates b i →
    (shOffset b (tgtIdx b i)).toNat + (shSize b (tgtIdx b i)).toNat ≤ b.length
  terminated : ∀ i < shnum b, shType b i = SHT_STRTAB → 0 < (shSize b i).toNat →
    b.getD ((shOffset b i).toNat + (shSize b i).toNat - 1) 0#8 = 0#8
  patches : ∀ i < shnum b, Relocates b i → ∀ e < relaCount b i,
    ∀ t ∈ relType host (Rela.type b (relaEntry b i e)).toNat,
      (Rela.offset b (relaEntry b i e)).toNat < (shSize b (tgtIdx b i)).toNat →
      (Rela.offset b (relaEntry b i e)).toNat + relWidth t ≤ (shSize b (tgtIdx b i)).toNat
  tableApart : (tableRange b).Apart ehdrRange ∧
    ∀ i < shnum b, IsTable b i → (tableRange b).Apart (sectionRange b i)
  targetApart : ∀ i < shnum b, Relocates b i →
    (sectionRange b (tgtIdx b i)).Apart ehdrRange ∧
    (sectionRange b (tgtIdx b i)).Apart (tableRange b) ∧
    ∀ j < shnum b, IsTable b j → (sectionRange b (tgtIdx b i)).Apart (sectionRange b j)

set_option synthInstance.maxSize 400 in
instance (host : Host) (b : Buf) : Decidable (WellFormed host b) :=
  decidable_of_iff _ (wellFormed_iff host b).symm

namespace WellFormed

variable {host : Host} {obj : Buf} {i e k : Nat} (wf : WellFormed host obj)

include wf

theorem tableInside : TableInside obj where
  size := wf.size
  table := wf.table
  apart := fun i hi _ => by
    obtain ⟨hat, hlast⟩ := toNat_shdrAt wf.size wf.table hi
    have hapart := wf.tableApart.1
    simp only [Range.Apart, tableRange, ehdrRange, shdrSize, ehdrSize] at hat hlast hapart ⊢
    omega

/-- The entries of a table lie one behind the other in its contents. -/
theorem toNat_entry (hi : i < shnum obj) (htable : IsTable obj i) {n : Nat} (hn : 0 < n)
    (hk : k < (shSize obj i).toNat / n) :
    (shOffset obj i + BitVec.ofNat 64 (n * k)).toNat = (shOffset obj i).toNat + n * k ∧
      n * k + n ≤ (shSize obj i).toNat ∧
      (shOffset obj i).toNat + (shSize obj i).toNat ≤ obj.length := by
  have hin := wf.contents i hi (.inr htable)
  have hlen := wf.size
  have hend : n * k + n ≤ (shSize obj i).toNat := by
    rw [← Nat.mul_succ, Nat.mul_comm]
    exact (Nat.le_div_iff_mul_le hn).mp hk
  exact ⟨toNat_add_of_lt (by omega), hend, hin⟩

theorem inside_symAt (hi : i < shnum obj) (htype : shType obj i = SHT_SYMTAB)
    (hk : k < symCount obj i) : obj.Inside (symAt obj i k) symSize := by
  obtain ⟨hat, hend, hin⟩ := wf.toNat_entry hi (.inl htype) (by decide) hk
  exact (congrArg (· + symSize) hat).le.trans (by omega)

theorem inside_relaEntry (hi : i < shnum obj) (htype : shType obj i = SHT_RELA)
    (he : e < relaCount obj i) : obj.Inside (relaEntry obj i e) relaSize := by
  obtain ⟨hat, hend, hin⟩ := wf.toNat_entry hi (.inr (.inr htype)) (by decide) he
  exact (congrArg (· + relaSize) hat).le.trans (by omega)

/-- A name that is found ends in its string table. -/
theorem nameRange_within {t : Nat} (hfind : FindsStr obj t k) :
    (nameRange obj (strAt obj t k)).Within (sectionRange obj t) ∧
      0#8 ∈ obj.drop (strAt obj t k).toNat := by
  obtain ⟨-, ht, htype, hk⟩ := hfind
  have hin := wf.contents t ht (.inr (.inr (.inl htype)))
  have hlen := wf.size
  have hnul := wf.terminated t ht htype (by omega)
  have hat : (strAt obj t k).toNat = (shOffset obj t).toNat + k := toNat_add_of_lt (by omega)
  -- the last byte of the table, as a byte of the name
  have hlast : (obj.drop (strAt obj t k).toNat)[(shSize obj t).toNat - 1 - k]? = some 0#8 := by
    rw [List.getElem?_drop, hat, show (shOffset obj t).toNat + k + ((shSize obj t).toNat - 1 - k) =
      (shOffset obj t).toNat + (shSize obj t).toNat - 1 by omega]
    rw [List.getD_eq_getElem _ _ (by omega)] at hnul
    rw [List.getElem?_eq_getElem (by omega), hnul]
  refine ⟨⟨?_, ?_⟩, List.mem_of_getElem? hlast⟩
  · simp only [nameRange, sectionRange, hat]
    omega
  · have hstr : (obj.cstr (strAt obj t k)).length ≤ (shSize obj t).toNat - 1 - k := by
      by_contra hlt
      rw [Nat.not_le] at hlt
      have hmem : 0#8 ∈ obj.cstr (strAt obj t k) := by
        have hpre : obj.cstr (strAt obj t k) <+: obj.drop (strAt obj t k).toNat :=
          List.takeWhile_prefix _
        have hget := hpre.getElem hlt
        rw [List.getElem?_eq_getElem (hlt.trans_le hpre.length_le), ← hget] at hlast
        exact List.mem_of_getElem (Option.some.inj hlast)
      exact absurd (List.all_eq_true.mp List.all_takeWhile _ hmem) (by decide)
    simp only [nameRange, sectionRange, hat]
    omega

/-- The entries lie in the tables. -/
theorem entryByte {o : Nat} (ho : EntryByte obj o) :
    ∃ j < shnum obj, IsTable obj j ∧ (sectionRange obj j).Mem o := by
  rcases ho with ⟨i, hi, htype, k, hk, ho | ⟨-, hfind, ho⟩⟩ | ⟨i, hi, hrel, e, he, ho⟩
  · obtain ⟨hat, hend, -⟩ := wf.toNat_entry hi (.inl htype) (by decide) hk
    refine ⟨i, hi, .inl htype, ?_⟩
    rw [symAt] at ho
    simp only [Range.Mem, sectionRange, symSize] at ho hat hend ⊢
    omega
  · exact ⟨_, hfind.2.1, .inr (.inl hfind.2.2.1), (wf.nameRange_within hfind).1.mem ho⟩
  · obtain ⟨hat, hend, -⟩ := wf.toNat_entry hi (.inr (.inr hrel.rela)) (by decide) he
    refine ⟨i, hi, .inr (.inr hrel.rela), ?_⟩
    rw [relaEntry, RtldElf.relaAt] at ho
    simp only [Range.Mem, sectionRange, relaSize] at ho hat hend ⊢
    omega

theorem toNat_patchAt (hi : i < shnum obj) (hrel : Relocates obj i) (htgt : InTarget obj i e) :
    (patchAt obj i e).toNat = (shOffset obj (tgtIdx obj i)).toNat +
      (Rela.offset obj (relaEntry obj i e)).toNat := by
  have htarget := wf.target i hi hrel
  have hlen := wf.size
  rw [InTarget] at htgt
  rw [patchAt, BitVec.toNat_add, Nat.mod_eq_of_lt (by omega)]

/-- The field that an entry patches lies in the target. -/
theorem patch_within (hi : i < shnum obj) (hrel : Relocates obj i) (he : e < relaCount obj i)
    (htgt : InTarget obj i e) {t : RelType}
    (ht : t ∈ relType host (Rela.type obj (relaEntry obj i e)).toNat) :
    Range.Within ⟨(patchAt obj i e).toNat, relWidth t⟩ (sectionRange obj (tgtIdx obj i)) := by
  have hpatch := wf.patches i hi hrel e he t ht htgt
  have hat := wf.toNat_patchAt hi hrel htgt
  simp only [Range.Within, sectionRange, hat]
  omega

/-- A well-formed object is separate. -/
theorem separate : Separate host obj where
  addrs := fun i hi _ o ho => by
    obtain ⟨hat, hlast⟩ := toNat_shdrAt wf.size wf.table hi
    have hin : (tableRange obj).Mem o := by
      simp only [Range.Mem, tableRange, shdrSize] at ho hat hlast ⊢
      omega
    refine ⟨wf.tableApart.1.not_mem hin, fun hentry => ?_⟩
    obtain ⟨j, hj, htable, hmem⟩ := wf.entryByte hentry
    exact (wf.tableApart.2 j hj htable).not_mem hin hmem
  patches := fun i hi hrel e he _ htgt t ht o _ ho => by
    obtain ⟨hehdr, htable, htables⟩ := wf.targetApart i hi hrel
    have hin := (wf.patch_within hi hrel he htgt ht).mem ho
    refine ⟨hehdr.not_mem hin, htable.not_mem hin, fun hentry => ?_⟩
    obtain ⟨j, hj, hjtable, hmem⟩ := wf.entryByte hentry
    exact (htables j hj hjtable).not_mem hin hmem

theorem symFits (t k : Nat) : SymFits obj t k := fun ⟨_, ht, htype, _, _, hk⟩ =>
  ⟨wf.inside_symAt ht htype hk, fun _ hfind => nameEnds_of_nul (wf.nameRange_within hfind).2⟩

/-- Relocating a well-formed object stays inside it. -/
theorem sectionFits {re : RtldElf} (hhost : re.host = host) (stubs : RtldElf.Stubs)
    (hi : i < shnum obj) : SectionFits re stubs obj i := by
  intro hrel e he _
  have hentry : ∀ e < relaCount obj i, obj.Inside (relaEntry obj i e) relaSize :=
    fun e he => wf.inside_relaEntry hi hrel.rela he
  refine ⟨hentry e he, fun _ => wf.symFits _ _, fun _ _ _ _ e' he' _ => ?_, fun htgt p hp _ => ?_⟩
  · exact ⟨hentry e' he', fun _ => wf.symFits _ _⟩
  · have hwidth := entryReloc_width hp
    rw [hhost] at hwidth
    cases htype : relType host (Rela.type obj (relaEntry obj i e)).toNat with
    | none =>
        rw [htype, Option.elim_none, Nat.le_zero] at hwidth
        exact .inl hwidth
    | some t =>
        rw [htype, Option.elim_some] at hwidth
        have hin := (wf.patch_within hi hrel he htgt htype).2
        have htarget := wf.target i hi hrel
        simp only [sectionRange] at hin
        right
        rw [Buf.Inside]
        omega

end WellFormed

theorem Loading.sectionRange_same {re : RtldElf} {obj b : Buf} (h : Loading re obj b) {j : Nat}
    (hj : j < shnum obj) : sectionRange b j = sectionRange obj j := by
  obtain ⟨-, -, hoffset, hsize, -⟩ := h.fields hj
  rw [sectionRange, sectionRange, hoffset, hsize]

theorem Loading.isTable_iff {re : RtldElf} {obj b : Buf} (h : Loading re obj b) {j : Nat}
    (hj : j < shnum obj) : IsTable b j ↔ IsTable obj j := by
  rw [IsTable, IsTable, (h.fields hj).1]

/-- Placing an object keeps it well-formed: of the bytes that are not kept, only addresses
change. -/
theorem WellFormed.placed {re : RtldElf} {obj b : Buf} (wf : WellFormed re.host obj)
    (h : Loading re obj b) (hrest : ∀ o, ¬ (tableRange obj).Mem o → b.mem o = obj.mem o) :
    WellFormed re.host b := by
  constructor
  case size => exact h.tableInside.size
  case table => exact h.tableInside.table
  case contents =>
    intro i hi hread
    rw [h.shnum_same] at hi
    obtain ⟨htype, -, hoffset, hsize, -⟩ := h.fields hi
    rw [h.isTable_iff hi, htype] at hread
    rw [hoffset, hsize, h.length]
    exact wf.contents i hi hread
  case target =>
    intro i hi hrel
    rw [h.shnum_same] at hi
    rw [h.relocates_iff hi] at hrel
    obtain ⟨-, -, hoffset, hsize, -⟩ := h.fields hrel.tgt_lt
    rw [h.tgtIdx_same hi, hoffset, hsize, h.length]
    exact wf.target i hi hrel
  case terminated =>
    intro i hi htype hpos
    rw [h.shnum_same] at hi
    obtain ⟨htype', -, hoffset, hsize, -⟩ := h.fields hi
    rw [htype'] at htype
    rw [hsize] at hpos
    rw [hoffset, hsize]
    -- the last byte of the string table is not one of the section table
    refine (hrest _ fun hmem => ?_).trans (wf.terminated i hi htype hpos)
    refine (wf.tableApart.2 i hi (.inr (.inl htype))).not_mem hmem ⟨?_, ?_⟩ <;>
      simp only [sectionRange] <;> omega
  case patches =>
    intro i hi hrel e he t ht htgt
    rw [h.shnum_same] at hi
    rw [h.relocates_iff hi] at hrel
    rw [(h.relaEntry_at hi e).2] at he
    have hin := wf.inside_relaEntry hi hrel.rela he
    obtain ⟨-, -, htype⟩ := h.patchAt_same hi hrel he hin
    obtain ⟨hoffset, -⟩ := h.relaEntry_same hi hrel he hin
    rw [htype] at ht
    rw [(h.relaEntry_at hi e).1, hoffset, h.tgtIdx_same hi, (h.fields hrel.tgt_lt).2.2.2.1] at htgt ⊢
    exact wf.patches i hi hrel e he t ht htgt
  case tableApart =>
    rw [h.tableRange_same, h.shnum_same]
    refine ⟨wf.tableApart.1, fun i hi hread => ?_⟩
    rw [h.sectionRange_same hi]
    exact wf.tableApart.2 i hi ((h.isTable_iff hi).mp hread)
  case targetApart =>
    intro i hi hrel
    rw [h.shnum_same] at hi
    rw [h.relocates_iff hi] at hrel
    obtain ⟨hehdr, htableApart, htables⟩ := wf.targetApart i hi hrel
    rw [h.tgtIdx_same hi, h.sectionRange_same hrel.tgt_lt, h.tableRange_same, h.shnum_same]
    refine ⟨hehdr, htableApart, fun j hj hread => ?_⟩
    rw [h.sectionRange_same hj]
    exact htables j hj ((h.isTable_iff hj).mp hread)

theorem auipcAbsolute_wellFormed : WellFormed .riscv auipcAbsolute := by
  decide +kernel

/-! ## Words that one entry patches -/

/-- The bytes of the target that entry `e` patches; a type that is not handled counts as
one byte. -/
def patchRange (host : Host) (obj : Buf) (i e : Nat) : Range :=
  ⟨(Rela.offset obj (relaEntry obj i e)).toNat,
    (relType host (Rela.type obj (relaEntry obj i e)).toNat).elim 1 relWidth⟩

/-- No other entry patches the word of entry `e`. -/
def Alone (host : Host) (obj : Buf) (i e : Nat) : Prop :=
  ∀ e' < relaCount obj i, e' ≠ e →
    (patchRange host obj i e').Apart ⟨(Rela.offset obj (relaEntry obj i e)).toNat, 4⟩

theorem load32_congr {m m' : Mem} {a : Nat} (h : SameOn m m' ⟨a, 4⟩) : load32 m' a = load32 m a := by
  rw [load32, load32, load_congr fun o ho ho' => h o ⟨ho, ho'⟩]

section Words

variable {re : RtldElf} {stubs : RtldElf.Stubs} {obj : Buf} {i e : Nat}

/-- A section that is relocated is one that `rtld_elf_process_rela` accepts, and what holds
of the buffer after each of its entries holds in the end. -/
theorem processRela_induction {b' : Buf} {P : Nat → Buf → Prop} (wf : WellFormed re.host obj)
    (hre : re.reShdr = eShoff obj) (hrun : re.processRela stubs obj i = .ok b')
    (hstart : P 0 obj)
    (hstep : ∀ e b b', e < relaCount obj i → Relocating re obj b → P e b →
      re.relaStep stubs (relaSection obj i) e b = .ok b' → P (e + 1) b') :
    P (relaCount obj i) b' := by
  have hobj := Relocating.refl wf.tableInside hre
  obtain ⟨hi, ⟨hrel, -⟩, -⟩ := hobj.processRela_ok wf.separate hrun
  rw [hobj.processRela_eq stubs hi hrel] at hrun
  refine (forLoop_count (P := fun e b => Relocating re obj b ∧ P e b) (fun e b b' he h hb' => ?_)
    _ 0 (Nat.zero_add _) ⟨hobj, hstart⟩ hrun).2
  exact ⟨h.1.relaStep_ok wf.separate hi hrel he hb', hstep e b b' he h.1 h.2 hb'⟩

/-- **A word that one entry alone patches is what this entry makes of it.** -/
theorem processRela_word {b' : Buf} (wf : WellFormed re.host obj) (hre : re.reShdr = eShoff obj)
    (hrun : re.processRela stubs obj i = .ok b') (he : e < relaCount obj i)
    (halone : Alone re.host obj i e) {f : Word × RtldPatchData → BitVec 32 → BitVec 32}
    (hwrite : ∀ p, relocArgs re stubs obj i e = .ok p → (entryReloc re stubs e p).2 = [.u32 (f p)]) :
    ∃ p, relocArgs re stubs obj i e = .ok p ∧
      load32 b'.mem (patchAt obj i e).toNat = f p (load32 obj.mem (patchAt obj i e).toNat) := by
  obtain ⟨hi, ⟨hrel, hacc⟩, -⟩ :=
    (Relocating.refl wf.tableInside hre).processRela_ok wf.separate hrun
  have hat : ∀ e' < relaCount obj i, (patchAt obj i e').toNat = (shOffset obj (tgtIdx obj i)).toNat +
      (Rela.offset obj (relaEntry obj i e')).toNat :=
    fun e' he' => wf.toNat_patchAt hi hrel (hacc e' he').1
  have hinv := processRela_induction wf hre hrun (P := fun n b =>
    (n ≤ e → load32 b.mem (patchAt obj i e).toNat = load32 obj.mem (patchAt obj i e).toNat) ∧
    (e < n → ∃ p, relocArgs re stubs obj i e = .ok p ∧
      load32 b.mem (patchAt obj i e).toNat = f p (load32 obj.mem (patchAt obj i e).toNat)))
    ⟨fun _ => rfl, fun h => absurd h (Nat.not_lt_zero e)⟩ ?_
  · exact hinv.2 he
  · intro n b b' hn h hP hb'
    obtain ⟨-, -, p, hp, -, hin, rfl⟩ := (h.relaStep_eq_ok_iff hi hrel hn).mp hb'
    by_cases hne : n = e
    · subst hne
      refine ⟨fun hle => by omega, fun _ => ⟨p, hp, ?_⟩⟩
      rw [hwrite p hp] at hin ⊢
      have hend : (patchAt obj i n).toNat + 4 ≤ b.length := by
        rw [h.loading.length]
        exact hin.resolve_left (by simp [writesWidth, Write.width])
      have hword : SameOn ((Write.u32 (f p)).apply b.mem (patchAt obj i n).toNat)
          (b.patch (patchAt obj i n) [.u32 (f p)]).mem ⟨(patchAt obj i n).toNat, 4⟩ :=
        fun o ho => b.mem_patch _ _ (ho.2.trans_le hend)
      rw [load32_congr hword, load32_apply, hP.1 le_rfl]
    · -- the entry patches other bytes
      have hword : load32 (b.patch (patchAt obj i n) (entryReloc re stubs n p).2).mem
          (patchAt obj i e).toNat = load32 b.mem (patchAt obj i e).toNat := by
        refine load32_congr fun o ho => b.mem_patch_of_not_mem _ _ fun _ hmem => ?_
        have hwidth := entryReloc_width hp
        have hapart := halone n hn hne
        simp only [Range.Mem, hat n hn, hat e he] at ho hmem
        simp only [Range.Apart, patchRange] at hapart
        cases htype : relType re.host (Rela.type obj (relaEntry obj i n)).toNat with
        | none =>
            rw [htype, Option.elim_none] at hwidth
            omega
        | some t =>
            rw [htype, Option.elim_some] at hwidth hapart
            omega
      rw [hword]
      exact ⟨fun hle => hP.1 (by omega), fun hlt => hP.2 (by omega)⟩

end Words

end Instrew.Client
