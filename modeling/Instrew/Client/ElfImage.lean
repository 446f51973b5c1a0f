import Instrew.Client.ElfLoad

/-!
# The image of a loaded program

What is in memory when `load_elf_binary` has returned 0. The segments are mapped one after
the other, each over whole pages, and the interpreter's after the program's: if no two of
these page ranges meet, every segment is complete at the end, whatever was mapped after it
(`load_elf_binary_image`). The address that the guest gets as `AT_PHDR` is computed from the
first segment alone; it is where the program headers are, if that segment has them.
-/

namespace Instrew.Client.Elf

open Lib.AddressSpace Lib.Imm Lib.Layout

/-! ## What is loaded -/

/-- A file whose segments are mapped at `bias`. -/
structure MappedFile : Type where
  content : List Byte
  bias : Word
  ehdr : Buf
  table : Buf

namespace MappedFile

/-- The `PT_LOAD` headers. -/
def loads (f : MappedFile) : List Phdr := (phdrs f.ehdr f.table).filter (·.type == PT_LOAD)

/-- The page range of a segment. -/
def Covers (f : MappedFile) (pagesz : Word) (ph : Phdr) (a : Nat) : Prop :=
  pageStart pagesz (f.bias + ph.vaddr) ≤ a ∧ a < pageEnd pagesz (f.bias + ph.vaddr) ph

/-- The headers describe segments in the file and in the address space, in pages of their
own. -/
structure WellFormed (f : MappedFile) (pagesz : Word) : Prop where
  sizes : ∀ ph ∈ f.loads, ph.filesz.toNat ≤ ph.memsz.toNat
  fits : ∀ ph ∈ f.loads, pageEnd pagesz (f.bias + ph.vaddr) ph < 2 ^ 64
  inFile : ∀ ph ∈ f.loads, ph.offset.toNat + ph.filesz.toNat ≤ f.content.length
  apart : f.loads.Pairwise fun p q => ∀ a, f.Covers pagesz p a → ¬ f.Covers pagesz q a

/-- Two files are in different pages. -/
def Apart (f g : MappedFile) (pagesz : Word) : Prop :=
  ∀ p ∈ f.loads, ∀ q ∈ g.loads, ∀ a, f.Covers pagesz p a → ¬ g.Covers pagesz q a

/-- The data of a segment, and the zeros behind it. -/
structure SegmentIn (f : MappedFile) (ph : Phdr) (s : Space) : Prop where
  data : ∀ i < ph.filesz.toNat,
    f.content[ph.offset.toNat + i]? = some (s.byte ((f.bias + ph.vaddr).toNat + i))
  zero : ∀ i, ph.filesz.toNat ≤ i → i < ph.memsz.toNat → s.byte ((f.bias + ph.vaddr).toNat + i) = 0#8

def ImageIn (f : MappedFile) (s : Space) : Prop := ∀ ph ∈ f.loads, f.SegmentIn ph s

end MappedFile

/-- The program and its interpreter. -/
structure LoadedFiles : Type where
  exec : MappedFile
  interp : Option MappedFile

/-- What `load_elf_binary` tells `main`. -/
def LoadedFiles.info (l : LoadedFiles) : BinaryInfo where
  execEntry := match l.interp with
    | none => l.exec.bias + eEntry l.exec.ehdr
    | some f => f.bias + eEntry f.ehdr
  elfEntry := l.exec.bias + eEntry l.exec.ehdr
  machine := eMachine l.exec.ehdr
  phdr := loadAddr l.exec.bias (phdrs l.exec.ehdr l.exec.table) + ePhoff l.exec.ehdr
  phnum := (ePhnum l.exec.ehdr).toNat
  phent := (ePhentsize l.exec.ehdr).toNat

/-- `load_elf_interp`, with the file it has mapped. -/
def mapInterp (env : LoaderEnv) : Option (Buf × Buf) → Run (Option MappedFile)
  | none => pure none
  | some tables => do
      let bias ← loadBias env .interp tables.1 tables.2
      mapSegments env .interp bias (enumerate (phdrs tables.1 tables.2))
      Run.failIf (badAddr bias) (bias.setWidth 32).toInt
      return some ⟨(← Run.get).content .interp, bias, tables.1, tables.2⟩

/-- `load_elf_binary`, with the files it has mapped. -/
def loadFiles (env : LoaderEnv) (filename sysroot : List Byte) : Run LoadedFiles := do
  match env.openFile filename with
  | .error e => Run.throw (-(e.val : Int))
  | .ok content =>
      opened .exec content
      let ehdr ← readEhdr env
      Run.failIf (isElf64 ehdr = false) (-enoexec)
      Run.failIf (isLoadable ehdr = false) (-enoexec)
      match ← loadElfPhdrs env .exec ehdr with
      | none => Run.throw (-enoexec)
      | some table =>
          let interp ← findInterp env sysroot ehdr table
          let bias ← loadBias env .exec ehdr table
          mapSegments env .exec bias (enumerate (phdrs ehdr table))
          let interp ← mapInterp env interp
          return ⟨⟨content, bias, ehdr, table⟩, interp⟩

/-! ## The load bias -/

section Bias

variable {env : LoaderEnv} {fd : Fd} {k : Nat}

/-- The kernel maps at the start of a page. -/
def MmapAligned (env : LoaderEnv) : Prop :=
  ∀ fd a, env.mmapBias fd = .ok a → env.pagesz.toNat ∣ a.toNat

theorem dvd_two_pow_64 {pagesz : Word} (hk : pagesz.toNat = 2 ^ k) : pagesz.toNat ∣ 2 ^ 64 := by
  have hlt := pagesz.isLt
  rw [hk] at hlt ⊢
  exact Nat.pow_dvd_pow 2 ((Nat.pow_lt_pow_iff_right (by decide)).mp hlt).le

theorem loadRange_start {pagesz : Word} (hk : pagesz.toNat = 2 ^ k) (phs : List Phdr) :
    ∀ (start : Option Word) (stop : Word), (∀ v ∈ start, pagesz.toNat ∣ v.toNat) →
      ∀ v ∈ (loadRange pagesz phs start stop).1, pagesz.toNat ∣ v.toNat := by
  induction phs with
  | nil => exact fun start stop h => h
  | cons ph phs ih =>
      intro start stop h
      rw [loadRange]
      split_ifs
      · exact ih start stop h
      · refine ih _ _ fun v hv => ?_
        cases hv
        cases start with
        | none =>
            rw [Option.getD_none, toNat_alignDown hk]
            exact Nat.dvd_mul_left _ _
        | some w => exact h w rfl

theorem badAddr_neg {e : Nat} (hpos : 0 < e) (hlt : e < 4096) :
    badAddr (BitVec.ofInt 64 (-(e : Int))) = true := by
  rw [badAddr, decide_eq_true_eq, BitVec.lt_def]
  simp only [BitVec.toNat_ofInt, BitVec.toNat_ofNat]
  omega

/-- A bias that is no error is a multiple of the page size. -/
theorem elfDetermineLoadBias_aligned (hk : env.pagesz.toNat = 2 ^ k) (hmmap : MmapAligned env)
    {phs : List Phdr} (hgood : badAddr (elfDetermineLoadBias env fd phs) = false) :
    env.pagesz.toNat ∣ (elfDetermineLoadBias env fd phs).toNat := by
  have hstart := loadRange_start hk phs none 0#64 fun v hv => nomatch hv
  rw [elfDetermineLoadBias] at hgood ⊢
  generalize loadRange env.pagesz phs none 0#64 = range at hgood hstart ⊢
  obtain ⟨start, stop⟩ := range
  dsimp only at hgood hstart ⊢
  have herror : ∀ {e : Nat}, 0 < e → e < 4096 → badAddr (BitVec.ofInt 64 (-(e : Int))) ≠ false :=
    fun hpos hlt => by rw [badAddr_neg hpos hlt]; decide
  split_ifs at hgood ⊢
  · exact absurd hgood (herror (by decide : 0 < 8) (by decide))
  · cases hmap : env.mmapBias fd with
    | error e =>
        rw [hmap] at hgood
        exact absurd hgood (herror e.property.1 e.property.2)
    | ok a =>
        have hdvd : env.pagesz.toNat ∣ (start.getD 0#64).toNat := by
          cases start with
          | none => exact Nat.dvd_zero _
          | some v => exact hstart v rfl
        have hneg : env.pagesz.toNat ∣ 2 ^ 64 - (start.getD 0#64).toNat :=
          Nat.dvd_sub (dvd_two_pow_64 hk) hdvd
        rw [BitVec.toNat_sub]
        exact (Nat.dvd_mod_iff (dvd_two_pow_64 hk)).mpr (Nat.dvd_add hneg (hmmap fd a hmap))

theorem loadBias_aligned (hk : env.pagesz.toNat = 2 ^ k) (hmmap : MmapAligned env)
    {ehdr table : Buf} {bias : Word} {s s' : Loader}
    (h : loadBias env fd ehdr table s = some (.ok bias, s')) : env.pagesz.toNat ∣ bias.toNat := by
  rw [loadBias] at h
  split_ifs at h
  · obtain ⟨u, s₁, hfail, h⟩ := Run.exists_of_bind_ok h
    cases h
    -- an error is not used as a bias
    refine elfDetermineLoadBias_aligned hk hmmap ?_
    rw [Run.failIf] at hfail
    split_ifs at hfail with hbad
    · cases hfail
    · exact Bool.eq_false_iff.mpr hbad
  · cases h
    exact Nat.dvd_zero _

end Bias

/-! ## Segments -/

section Segments

variable {env : LoaderEnv} {fd : Fd} {k : Nat}

/-- A segment that `elf_map` has accepted. -/
theorem elfMap_bytes {res : MapResults} {file : List Byte} {pagesz bias : Word} {ph : Phdr}
    {s s' : Space} {retval : Int} (hk : pagesz.toNat = 2 ^ k) (hbias : pagesz.toNat ∣ bias.toNat)
    (hsz : ph.filesz.toNat ≤ ph.memsz.toNat)
    (hfit : pageEnd pagesz (bias + ph.vaddr) ph < 2 ^ 64)
    (hlen : ph.offset.toNat + ph.filesz.toNat ≤ file.length)
    (h : elfMap res file pagesz (bias + ph.vaddr) ph s = some (retval, s')) (hret : ¬ retval < 0) :
    SegmentBytes file pagesz (bias + ph.vaddr) ph s s' := by
  by_cases hcheck : ph.vaddr &&& (pagesz - 1#64) = ph.offset &&& (pagesz - 1#64)
  · have hmask : ∀ v : Word, (v &&& (pagesz - 1#64)).toNat = v.toNat % pagesz.toNat := fun v => by
      rw [toNat_and_ones (toNat_sub_one hk), hk]
    have haddr : (bias + ph.vaddr).toNat % pagesz.toNat = ph.offset.toNat % pagesz.toNat := by
      obtain ⟨c, hc⟩ := hbias
      rw [BitVec.toNat_add, Nat.mod_mod_of_dvd _ (dvd_two_pow_64 hk), hc, Nat.mul_add_mod, ← hmask, ← hmask, hcheck]
    obtain ⟨retval', s'', hrun, himage⟩ := elfMap_spec res s hk hsz hfit hlen haddr hcheck
    rw [hrun] at h
    cases h
    exact (himage hret).1
  · rw [elfMap, if_pos hcheck] at h
    cases h
    exact absurd (by decide) hret

theorem mapSegment_ok {bias : Word} {i : Nat} {ph : Phdr} {s s' : Loader} {u : Unit}
    (h : mapSegment env fd bias i ph s = some (.ok u, s')) :
    s'.content = s.content ∧ ∃ retval, ¬ retval < 0 ∧
      elfMap (env.maps fd i) (s.content fd) env.pagesz (bias + ph.vaddr) ph s.space =
        some (retval, s'.space) := by
  rw [mapSegment] at h
  split at h
  · cases h
  · rename_i retval space hmap
    simp only [Option.some.injEq, Prod.mk.injEq] at h
    obtain ⟨hok, rfl⟩ := h
    refine ⟨rfl, retval, fun hneg => ?_, hmap⟩
    rw [if_pos hneg] at hok
    cases hok

/-- The `PT_LOAD` headers of a list that is still to be mapped. -/
def loadsOf (l : List (Nat × Phdr)) : List Phdr := (l.map Prod.snd).filter (·.type == PT_LOAD)

theorem loadsOf_enumerate (f : MappedFile) : loadsOf (enumerate (phdrs f.ehdr f.table)) = f.loads := by
  rw [loadsOf, enumerate, List.map_snd_zip (by simp)]
  rfl

theorem loadsOf_cons_load {i : Nat} {ph : Phdr} (h : ph.type = PT_LOAD) (l : List (Nat × Phdr)) :
    loadsOf ((i, ph) :: l) = ph :: loadsOf l := by
  simp [loadsOf, h]

theorem loadsOf_cons_other {i : Nat} {ph : Phdr} (h : ph.type ≠ PT_LOAD) (l : List (Nat × Phdr)) :
    loadsOf ((i, ph) :: l) = loadsOf l := by
  simp [loadsOf, h]

/-- What is known of each segment by itself. -/
structure SegmentFits (f : MappedFile) (pagesz : Word) (ph : Phdr) : Prop where
  size : ph.filesz.toNat ≤ ph.memsz.toNat
  fits : pageEnd pagesz (f.bias + ph.vaddr) ph < 2 ^ 64
  inFile : ph.offset.toNat + ph.filesz.toNat ≤ f.content.length

theorem MappedFile.covers_of_lt (f : MappedFile) (pagesz : Word) {ph : Phdr} {i : Nat}
    (hi : i < ph.memsz.toNat) : f.Covers pagesz ph ((f.bias + ph.vaddr).toNat + i) := by
  have hstart := pageStart_le pagesz (f.bias + ph.vaddr)
  have hend : (f.bias + ph.vaddr).toNat + ph.memsz.toNat ≤ pageEnd pagesz (f.bias + ph.vaddr) ph :=
    le_roundUp _ _
  exact ⟨by omega, by omega⟩

/-- A segment stays complete while its pages are left alone. -/
theorem MappedFile.SegmentIn.congr {f : MappedFile} {ph : Phdr} {s s' : Space}
    (h : f.SegmentIn ph s) (pagesz : Word) (hsize : ph.filesz.toNat ≤ ph.memsz.toNat)
    (heq : ∀ a, f.Covers pagesz ph a → s'.byte a = s.byte a) : f.SegmentIn ph s' where
  data := fun i hi => by rw [heq _ (f.covers_of_lt pagesz (by omega)), h.data i hi]
  zero := fun i hlo hhi => by rw [heq _ (f.covers_of_lt pagesz hhi), h.zero i hlo hhi]

/-- **Mapping segment after segment.** Every segment is complete at the end, and only
their pages have been written. -/
theorem mapSegments_image (f : MappedFile) (hk : env.pagesz.toNat = 2 ^ k)
    (hbias : env.pagesz.toNat ∣ f.bias.toNat) (l : List (Nat × Phdr)) :
    ∀ (s s' : Loader) (u : Unit), mapSegments env fd f.bias l s = some (.ok u, s') →
      s.content fd = f.content → (∀ ph ∈ loadsOf l, SegmentFits f env.pagesz ph) →
      ((loadsOf l).Pairwise fun p q => ∀ a, f.Covers env.pagesz p a → ¬ f.Covers env.pagesz q a) →
      s'.content = s.content ∧ (∀ ph ∈ loadsOf l, f.SegmentIn ph s'.space) ∧
        ∀ a, (∀ ph ∈ loadsOf l, ¬ f.Covers env.pagesz ph a) → s'.space.byte a = s.space.byte a := by
  induction l with
  | nil =>
      intro s s' u h _ _ _
      cases h
      exact ⟨rfl, fun _ hph => absurd hph List.not_mem_nil, fun _ _ => rfl⟩
  | cons p l ih =>
      obtain ⟨i, ph⟩ := p
      intro s s' u h hcontent hfit hapart
      rw [mapSegments] at h
      by_cases htype : ph.type = PT_LOAD
      · rw [if_neg (not_not.mpr htype)] at h
        rw [loadsOf_cons_load htype] at hfit hapart ⊢
        obtain ⟨v, s₁, hfirst, hrest⟩ := Run.exists_of_bind_ok h
        obtain ⟨hsame, retval, hret, hmap⟩ := mapSegment_ok hfirst
        rw [hcontent] at hmap
        have hph := hfit ph List.mem_cons_self
        have hbytes := elfMap_bytes hk hbias hph.size hph.fits hph.inFile hmap hret
        rw [List.pairwise_cons] at hapart
        obtain ⟨hkeep, himages, hframe⟩ := ih s₁ s' u hrest (by rw [hsame, hcontent])
          (fun q hq => hfit q (List.mem_cons_of_mem _ hq)) hapart.2
        refine ⟨hkeep.trans hsame, fun q hq => ?_, fun a ha => ?_⟩
        · rcases List.mem_cons.mp hq with rfl | hq
          · -- the later segments are in other pages
            have hnow : f.SegmentIn q s₁.space := ⟨hbytes.data, hbytes.zero⟩
            exact hnow.congr env.pagesz hph.size fun a ha => hframe a fun r hr => hapart.1 r hr a ha
          · exact himages q hq
        · rw [hframe a fun q hq => ha q (List.mem_cons_of_mem _ hq)]
          exact (hbytes.frame a (ha ph List.mem_cons_self)).1
      · rw [if_pos htype] at h
        rw [loadsOf_cons_other htype] at hfit hapart ⊢
        exact ih s s' u h hcontent hfit hapart

theorem MappedFile.WellFormed.segmentFits {f : MappedFile} {pagesz : Word}
    (h : f.WellFormed pagesz) : ∀ ph ∈ f.loads, SegmentFits f pagesz ph :=
  fun ph hph => ⟨h.sizes ph hph, h.fits ph hph, h.inFile ph hph⟩

/-- Mapping a well-formed file. -/
theorem mapFile_image {f : MappedFile} {s s' : Loader} {u : Unit} (hk : env.pagesz.toNat = 2 ^ k)
    (hbias : env.pagesz.toNat ∣ f.bias.toNat) (hwf : f.WellFormed env.pagesz) (hcontent : s.content fd = f.content)
    (h : mapSegments env fd f.bias (enumerate (phdrs f.ehdr f.table)) s = some (.ok u, s')) :
    s'.content = s.content ∧ f.ImageIn s'.space ∧
      ∀ a, (∀ ph ∈ f.loads, ¬ f.Covers env.pagesz ph a) → s'.space.byte a = s.space.byte a := by
  have hrun := mapSegments_image f hk hbias _ s s' u h hcontent
  rw [loadsOf_enumerate] at hrun
  exact hrun hwf.segmentFits hwf.apart

end Segments

/-! ## The files that are read -/

/-- Where a piece returns a value, it has kept a property of the state. -/
def Keeps (P : Loader → Prop) {α : Type} (m : Run α) : Prop :=
  ∀ s a s', m s = some (.ok a, s') → P s → P s'

namespace Keeps

variable {P : Loader → Prop} {α β : Type}

theorem pure (a : α) : Keeps P (pure a : Run α) := fun s b s' h hP => by cases h; exact hP

theorem throw (e : Int) : Keeps P (Run.throw e : Run α) := fun _ _ _ h => nomatch h

theorem failIf (c : Prop) [Decidable c] (e : Int) : Keeps P (Run.failIf c e) := by
  rw [Run.failIf]
  split_ifs
  · exact throw e
  · exact pure ()

theorem bind {m : Run α} {f : α → Run β} (hm : Keeps P m) (hf : ∀ a, Keeps P (f a)) :
    Keeps P (m >>= f) := by
  intro s b s' h hP
  obtain ⟨a, s₁, h₁, h₂⟩ := Run.exists_of_bind_ok h
  exact hf a s₁ b s' h₂ (hm s a s₁ h₁ hP)

end Keeps

section Contents

variable {env : LoaderEnv}

/-- Reading does not change what the files contain. -/
def ContentIs (fd : Fd) (content : List Byte) (s : Loader) : Prop := s.content fd = content

variable {fd : Fd} {content : List Byte}

theorem elfRead_keeps (fd' : Fd) (off : Word) (nbytes : Nat) :
    Keeps (ContentIs fd content) (elfRead env fd' off nbytes) := by
  refine Keeps.bind (fun s a s' h hP => ?_) fun seek => ?_
  · cases h
    exact hP
  split_ifs
  · exact .pure _
  refine Keeps.bind (fun s a s' h hP => ?_) fun before => ?_
  · cases h
    exact hP
  refine Keeps.bind (fun s a s' h hP => ?_) fun r => ?_
  · cases h
    exact hP
  refine Keeps.bind (fun s a s' h hP => ?_) fun _ => ?_
  · cases h
    exact hP
  split_ifs
  · exact .pure _
  · exact .pure _

theorem elfReadOrFail_keeps (fd' : Fd) (off : Word) (nbytes : Nat) :
    Keeps (ContentIs fd content) (elfReadOrFail env fd' off nbytes) := by
  refine (elfRead_keeps fd' off nbytes).bind fun r => ?_
  obtain ⟨code, bytes⟩ := r
  dsimp only
  split_ifs
  · exact .throw _
  · exact .pure _

theorem loadElfPhdrs_keeps (fd' : Fd) (ehdr : Buf) :
    Keeps (ContentIs fd content) (loadElfPhdrs env fd' ehdr) := by
  rw [loadElfPhdrs]
  split_ifs
  · exact .pure _
  · exact .pure _
  · exact .pure _
  · exact .pure _
  · refine (elfRead_keeps _ _ _).bind fun r => ?_
    obtain ⟨code, bytes⟩ := r
    dsimp only
    split_ifs
    · exact .pure _
    · exact .pure _

theorem readEhdr_keeps : Keeps (ContentIs fd content) (readEhdr env) := by
  intro s ehdr s' h hP
  rw [readEhdr, Run.bind_ok rfl, Run.bind_ok rfl] at h
  dsimp only at h
  split_ifs at h
  · cases h
  · cases h
    exact hP

theorem readInterpHeaders_keeps (ehdr : Buf) :
    Keeps (ContentIs fd content) (readInterpHeaders env ehdr) := by
  refine (elfReadOrFail_keeps _ _ _).bind fun _ => (Keeps.failIf _ _).bind fun _ =>
    (Keeps.failIf _ _).bind fun _ => (Keeps.failIf _ _).bind fun _ =>
      (loadElfPhdrs_keeps _ _).bind fun t => ?_
  cases t with
  | none => exact .throw _
  | some table => exact .pure _

/-- Finding the interpreter does not change the program's file. -/
theorem findInterp_keeps (sysroot : List Byte) (ehdr table : Buf) :
    Keeps (ContentIs .exec content) (findInterp env sysroot ehdr table) := by
  rw [findInterp]
  cases (phdrs ehdr table).find? (·.type == PT_INTERP) with
  | none => exact .pure _
  | some ph =>
      refine Keeps.bind ?_ fun _ => .pure _
      refine (Keeps.failIf _ _).bind fun _ => (elfReadOrFail_keeps _ _ _).bind fun bytes =>
        (Keeps.failIf _ _).bind fun _ => ?_
      cases openInterp env sysroot (cString (overwrite env.stackName bytes)) with
      | error e => exact .throw _
      | ok c =>
          refine Keeps.bind (fun s a s' h hP => ?_) fun _ => readInterpHeaders_keeps ehdr
          cases h
          show Function.update s.content .interp c .exec = content
          rw [Function.update_of_ne (by decide)]
          exact hP

theorem loadBias_keeps (P : Loader → Prop) (fd' : Fd) (ehdr table : Buf) :
    Keeps P (loadBias env fd' ehdr table) := by
  rw [loadBias]
  split_ifs
  · exact (Keeps.failIf _ _).bind fun _ => .pure _
  · exact .pure _

theorem mapSegments_keeps (fd' : Fd) (bias : Word) :
    ∀ l, Keeps (ContentIs fd content) (mapSegments env fd' bias l)
  | [] => .pure _
  | (i, ph) :: l => by
      rw [mapSegments]
      split_ifs
      · exact mapSegments_keeps fd' bias l
      · refine Keeps.bind (fun s a s' h hP => ?_) fun _ => mapSegments_keeps fd' bias l
        exact (congrFun (mapSegment_ok h).1 fd).trans hP

end Contents

/-! ## The whole program -/

/-- The first segment has the program headers in its part of the file. -/
def MappedFile.HeadersInFirst (f : MappedFile) : Prop :=
  ∃ ph, (phdrs f.ehdr f.table).find? (·.type == PT_LOAD) = some ph ∧
    ph.offset.toNat ≤ (ePhoff f.ehdr).toNat ∧
    (ePhoff f.ehdr).toNat + phdrSize * (ePhnum f.ehdr).toNat ≤ ph.offset.toNat + ph.filesz.toNat

instance (f : MappedFile) : Decidable f.HeadersInFirst :=
  inferInstanceAs (Decidable (∃ ph ∈ (phdrs f.ehdr f.table).find? (·.type == PT_LOAD),
    ph.offset.toNat ≤ (ePhoff f.ehdr).toNat ∧
    (ePhoff f.ehdr).toNat + phdrSize * (ePhnum f.ehdr).toNat ≤ ph.offset.toNat + ph.filesz.toNat))

section Whole

variable {env : LoaderEnv} {k : Nat}

/-- `AT_PHDR` is the address of the file's program headers. -/
theorem phdr_in_image {l : LoadedFiles} {space : Space} (hwf : l.exec.WellFormed env.pagesz)
    (himage : l.exec.ImageIn space) (hfirst : l.exec.HeadersInFirst) :
    ∀ j < phdrSize * l.info.phnum,
      l.exec.content[(ePhoff l.exec.ehdr).toNat + j]? = some (space.byte (l.info.phdr.toNat + j)) := by
  obtain ⟨ph, hfind, hlo, hhi⟩ := hfirst
  have hmem : ph ∈ l.exec.loads :=
    List.mem_filter.mpr ⟨List.mem_of_find?_eq_some hfind,
      List.find?_some (p := fun q : Phdr => q.type == PT_LOAD) hfind⟩
  have hsize := hwf.sizes ph hmem
  have hend : (l.exec.bias + ph.vaddr).toNat + ph.memsz.toNat ≤
      pageEnd env.pagesz (l.exec.bias + ph.vaddr) ph := le_roundUp _ _
  have hfit := hwf.fits ph hmem
  intro j hj
  have hj' : j < phdrSize * (ePhnum l.exec.ehdr).toNat := hj
  have hphdr : l.info.phdr.toNat = (l.exec.bias + ph.vaddr).toNat +
      ((ePhoff l.exec.ehdr).toNat - ph.offset.toNat) := by
    have haddr : l.info.phdr = l.exec.bias + ph.vaddr + (ePhoff l.exec.ehdr - ph.offset) := by
      simp only [LoadedFiles.info, loadAddr, hfind]
      bv_omega
    have hsub : (ePhoff l.exec.ehdr - ph.offset).toNat =
        (ePhoff l.exec.ehdr).toNat - ph.offset.toNat :=
      BitVec.toNat_sub_of_le hlo
    rw [haddr, BitVec.toNat_add, hsub, Nat.mod_eq_of_lt (by omega)]
  have hdata := (himage ph hmem).data ((ePhoff l.exec.ehdr).toNat - ph.offset.toNat + j) (by omega)
  rw [hphdr, Nat.add_assoc, ← hdata]
  congr 1
  omega

/-- The interpreter's mapping: its image, and only its pages. -/
theorem mapInterp_image {tables : Option (Buf × Buf)} {s s' : Loader} {interp : Option MappedFile}
    (hk : env.pagesz.toNat = 2 ^ k) (hmmap : MmapAligned env)
    (h : mapInterp env tables s = some (.ok interp, s'))
    (hwf : ∀ f ∈ interp, f.WellFormed env.pagesz) :
    (∀ f ∈ interp, f.ImageIn s'.space) ∧
      ∀ a, (∀ f ∈ interp, ∀ ph ∈ f.loads, ¬ f.Covers env.pagesz ph a) →
        s'.space.byte a = s.space.byte a := by
  cases tables with
  | none =>
      cases h
      exact ⟨fun _ hf => absurd hf (Option.not_mem_none _), fun _ _ => rfl⟩
  | some tables =>
      obtain ⟨bias, s₁, hbias, h⟩ := Run.exists_of_bind_ok h
      obtain ⟨u, s₂, hmap, h⟩ := Run.exists_of_bind_ok h
      obtain ⟨u', s₃, hfail, h⟩ := Run.exists_of_bind_ok h
      obtain ⟨s₄, s₅, hget, h⟩ := Run.exists_of_bind_ok h
      cases hget
      cases h
      have hs₁ : s₁ = s := loadBias_keeps (fun t => t = s) .interp _ _ s bias s₁ hbias rfl
      have hs' : s' = s₂ := Keeps.failIf (P := fun t => t = s₂) _ _ s₂ u' s' hfail rfl
      rw [hs₁, ← hs'] at hmap
      have hkeep : ContentIs .interp (s.content .interp) s' :=
        mapSegments_keeps .interp bias _ s u s' hmap rfl
      obtain ⟨-, himage, hframe⟩ := mapFile_image (f := ⟨s'.content .interp, bias, tables.1, tables.2⟩)
        hk (loadBias_aligned hk hmmap hbias) (hwf _ rfl) hkeep.symm hmap
      refine ⟨fun f hf => ?_, fun a ha => hframe a (ha _ rfl)⟩
      cases hf
      exact himage

theorem entryPoint_mapInterp {elfEntry entry : Word} {tables : Option (Buf × Buf)} {s s' : Loader}
    (h : entryPoint env elfEntry tables s = some (.ok entry, s')) :
    ∃ interp, mapInterp env tables s = some (.ok interp, s') ∧
      entry = match interp with
        | none => elfEntry
        | some f => f.bias + eEntry f.ehdr := by
  cases tables with
  | none =>
      cases h
      exact ⟨none, rfl, rfl⟩
  | some tables =>
      obtain ⟨bias, s₁, hbias, h⟩ := Run.exists_of_bind_ok h
      obtain ⟨u, s₂, hmap, h⟩ := Run.exists_of_bind_ok h
      obtain ⟨u', s₃, hfail, h⟩ := Run.exists_of_bind_ok h
      cases h
      refine ⟨some ⟨s'.content .interp, bias, tables.1, tables.2⟩, ?_, rfl⟩
      rw [mapInterp, Run.bind_ok hbias, Run.bind_ok hmap, Run.bind_ok hfail, Run.bind_ok rfl]
      rfl

/-- A successful run: the program's segments are mapped at the bias found for it, in a state
in which its file is the one that was opened, and then the interpreter's. What `main` is told
is about these files. -/
theorem loadElfBinary_files {filename sysroot : List Byte} {s s' : Loader} {info : BinaryInfo}
    (h : loadElfBinary env filename sysroot s = some (.ok info, s')) :
    ∃ files, loadFiles env filename sysroot s = some (.ok files, s') ∧ files.info = info ∧
      env.openFile filename = .ok files.exec.content ∧
      ∃ s₀ s₁ s₂ tables u,
        loadBias env .exec files.exec.ehdr files.exec.table s₀ = some (.ok files.exec.bias, s₁) ∧
        s₁.content .exec = files.exec.content ∧
        mapSegments env .exec files.exec.bias
          (enumerate (phdrs files.exec.ehdr files.exec.table)) s₁ = some (.ok u, s₂) ∧
        mapInterp env tables s₂ = some (.ok files.interp, s') := by
  rw [loadElfBinary] at h
  rw [loadFiles]
  cases hopen : env.openFile filename with
  | error e =>
      rw [hopen] at h
      cases h
  | ok content =>
      rw [hopen] at h
      obtain ⟨u₁, s₁, h₁, h⟩ := Run.exists_of_bind_ok h
      obtain ⟨ehdr, s₂, h₂, h⟩ := Run.exists_of_bind_ok h
      obtain ⟨u₃, s₃, h₃, h⟩ := Run.exists_of_bind_ok h
      obtain ⟨u₄, s₄, h₄, h⟩ := Run.exists_of_bind_ok h
      obtain ⟨t, s₅, h₅, h⟩ := Run.exists_of_bind_ok h
      cases t with
      | none => cases h
      | some table =>
          obtain ⟨interp, s₆, h₆, h⟩ := Run.exists_of_bind_ok h
          obtain ⟨bias, s₇, h₇, h⟩ := Run.exists_of_bind_ok h
          obtain ⟨u₈, s₈, h₈, h⟩ := Run.exists_of_bind_ok h
          obtain ⟨entry, s₉, h₉, h⟩ := Run.exists_of_bind_ok h
          cases h
          obtain ⟨mapped, hmapped, hentry⟩ := entryPoint_mapInterp h₉
          have hcontent : ContentIs .exec content s₇ := by
            have hs₁ : ContentIs .exec content s₁ := by
              cases h₁
              show Function.update s.content .exec content .exec = content
              rw [Function.update_self]
            have hs₂ := readEhdr_keeps _ _ _ h₂ hs₁
            have hs₃ := Keeps.failIf _ _ _ _ _ h₃ hs₂
            have hs₄ := Keeps.failIf _ _ _ _ _ h₄ hs₃
            have hs₅ := loadElfPhdrs_keeps _ _ _ _ _ h₅ hs₄
            have hs₆ := findInterp_keeps _ _ _ _ _ _ h₆ hs₅
            exact loadBias_keeps _ _ _ _ _ _ _ h₇ hs₆
          refine ⟨⟨⟨content, bias, ehdr, table⟩, mapped⟩, ?_, ?_, rfl, s₆, s₇, s₈, interp, u₈, h₇,
            hcontent, h₈, hmapped⟩
          · simp only
            rw [Run.bind_ok h₁, Run.bind_ok h₂, Run.bind_ok h₃, Run.bind_ok h₄, Run.bind_ok h₅]
            simp only
            rw [Run.bind_ok h₆, Run.bind_ok h₇, Run.bind_ok h₈, Run.bind_ok hmapped]
            rfl
          · rw [hentry]
            rfl

/-- **A loaded program is complete.** When `load_elf_binary` returns 0, every segment of the
program and of its interpreter is in memory, with its data from the file and zeros behind it,
if the headers are well formed and no two segments share a page; what is mapped later does not
touch what was mapped before. Of `mmap` it is known that its addresses are multiples of the
page size, and so the biases are. The guest finds its program headers at `AT_PHDR`, if the first
segment has them. -/
theorem load_elf_binary_image (hk : env.pagesz.toNat = 2 ^ k) (hmmap : MmapAligned env)
    (filename sysroot : List Byte) (s s' : Loader) (info : BinaryInfo)
    (h : loadElfBinary env filename sysroot s = some (.ok info, s')) :
    ∃ files, loadFiles env filename sysroot s = some (.ok files, s') ∧ files.info = info ∧
      env.openFile filename = .ok files.exec.content ∧
      (files.exec.WellFormed env.pagesz →
        (∀ f ∈ files.interp, f.WellFormed env.pagesz ∧ files.exec.Apart f env.pagesz) →
        files.exec.ImageIn s'.space ∧ (∀ f ∈ files.interp, f.ImageIn s'.space) ∧
        (files.exec.HeadersInFirst → ∀ j < phdrSize * info.phnum,
          files.exec.content[(ePhoff files.exec.ehdr).toNat + j]? =
            some (s'.space.byte (info.phdr.toNat + j)))) := by
  obtain ⟨files, hfiles, rfl, hopen, s₀, s₁, s₂, tables, u, hbias, hcontent, hmap, hinterp⟩ :=
    loadElfBinary_files h
  refine ⟨files, hfiles, rfl, hopen, fun hwf hwfs => ?_⟩
  obtain ⟨-, hexec, -⟩ := mapFile_image hk (loadBias_aligned hk hmmap hbias) hwf hcontent hmap
  obtain ⟨himages, hframe⟩ := mapInterp_image hk hmmap hinterp fun f hf => (hwfs f hf).1
  have hexec' : files.exec.ImageIn s'.space := by
    intro ph hph
    refine (hexec ph hph).congr env.pagesz (hwf.sizes ph hph) fun a ha => hframe a ?_
    exact fun f hf q hq => (hwfs f hf).2 ph hph q hq a ha
  exact ⟨hexec', himages, phdr_in_image hwf hexec'⟩

end Whole

/-! A program at any address, with two segments and an interpreter. -/

section Dynamic

open Lib.Bytes (le)

/-- The header of an `ET_DYN` file for x86-64, with program headers right behind it. -/
def dynHeader (entry phnum : Nat) : List Byte :=
  [[0x7f#8, 0x45#8, 0x4c#8, 0x46#8, 2#8], List.replicate 11 0#8, le 2 3, le 2 62, le 4 1, le 8 entry,
    le 8 64, le 8 0, le 4 0, le 2 64, le 2 56, le 2 phnum, List.replicate 6 0#8].flatten

def phdrBytes (type : Nat) (ph : Phdr) : List Byte :=
  [le 4 type, le 4 ph.flags.toNat, le 8 ph.offset.toNat, le 8 ph.vaddr.toNat, le 8 ph.vaddr.toNat,
    le 8 ph.filesz.toNat, le 8 ph.memsz.toNat, le 8 0x1000].flatten

/-- The headers and the name of the interpreter. -/
def dynText : Phdr := ⟨PT_LOAD, 5#32, 0#64, 0#64, 235#64, 235#64⟩

/-- Five bytes of data, and zeros behind them. -/
def dynData : Phdr := ⟨PT_LOAD, 6#32, 235#64, 0x10eb#64, 5#64, 0x1000#64⟩

def dynName : Phdr := ⟨PT_INTERP, 4#32, 232#64, 232#64, 3#64, 3#64⟩

def dynProgram : List Byte :=
  [dynHeader 0x40 3, phdrBytes 3 dynName, phdrBytes 1 dynText, phdrBytes 1 dynData,
    [0x2f#8, 0x69#8, 0#8], [1#8, 2#8, 3#8, 4#8, 5#8]].flatten

/-- The whole file of the interpreter. -/
def interpText : Phdr := ⟨PT_LOAD, 5#32, 0#64, 0#64, 120#64, 0x200#64⟩

def interpProgram : List Byte := dynHeader 0x40 1 ++ phdrBytes 1 interpText

def dynEnv : LoaderEnv where
  pagesz := 0x1000#64
  seeks _ := none
  reads _ := .ok 0x1000
  openFile name := .ok (if name = [0x2f#8, 0x69#8] then interpProgram else dynProgram)
  mmapPhdrs _ := none
  mmapBias
    | .exec => .ok 0x555555554000#64
    | .interp => .ok 0x7f0000000000#64
  maps _ _ := ⟨none, none, none, none⟩
  stackName := []
  stackEhdr := []

theorem dynEnv_aligned : MmapAligned dynEnv := by
  intro fd a h
  cases fd <;> cases h <;> decide

theorem dynProgram_loaded :
    ((loadElfBinary dynEnv [] [] initial).map fun p =>
      p.1.toOption.map fun info => (info.phdr, info.phnum)) =
        some (some (0x555555554040#64, 3)) := by
  decide +kernel

theorem dynProgram_exec :
    ((loadFiles dynEnv [] [] initial).map fun p => p.1.toOption.map fun l =>
      (l.exec.bias, l.exec.content, l.exec.loads, ePhoff l.exec.ehdr)) =
      some (some (0x555555554000#64, dynProgram, [dynText, dynData], 64#64)) := by
  decide +kernel

theorem dynProgram_headersInFirst :
    ((loadFiles dynEnv [] [] initial).map fun p => p.1.toOption.map fun l =>
      decide l.exec.HeadersInFirst) = some (some true) := by
  decide +kernel

theorem dynProgram_interp :
    ((loadFiles dynEnv [] [] initial).map fun p => p.1.toOption.map fun l =>
      l.interp.map fun f => (f.bias, f.content, f.loads)) =
      some (some (some (0x7f0000000000#64, interpProgram, [interpText]))) := by
  decide +kernel

/-- Files of which the first ends before the second begins. -/
theorem MappedFile.covers_apart {f g : MappedFile} {pagesz : Word} {p q : Phdr}
    (h : pageEnd pagesz (f.bias + p.vaddr) p ≤ pageStart pagesz (g.bias + q.vaddr)) (a : Nat)
    (ha : f.Covers pagesz p a) : ¬ g.Covers pagesz q a :=
  fun hq => absurd (Nat.lt_of_lt_of_le ha.2 (h.trans hq.1)) (Nat.lt_irrefl a)

theorem dynProgram_wellFormed {f : MappedFile} (hloads : f.loads = [dynText, dynData])
    (hbias : f.bias = 0x555555554000#64) (hcontent : f.content = dynProgram) :
    f.WellFormed dynEnv.pagesz := by
  refine ⟨?_, ?_, ?_, ?_⟩
  · rw [hloads]
    decide
  · rw [hloads, hbias]
    decide
  · rw [hloads, hcontent]
    decide +kernel
  · rw [hloads]
    refine List.pairwise_pair.mpr (MappedFile.covers_apart ?_)
    rw [hbias]
    decide

theorem interpProgram_wellFormed {f : MappedFile} (hloads : f.loads = [interpText])
    (hbias : f.bias = 0x7f0000000000#64) (hcontent : f.content = interpProgram) :
    f.WellFormed dynEnv.pagesz := by
  refine ⟨?_, ?_, ?_, ?_⟩
  · rw [hloads]
    decide
  · rw [hloads, hbias]
    decide
  · rw [hloads, hcontent]
    decide +kernel
  · rw [hloads]
    exact List.pairwise_singleton _ _

theorem load_elf_binary_image_dynamic :
    ∃ (files : LoadedFiles) (info : BinaryInfo) (s' : Loader),
      loadElfBinary dynEnv [] [] initial = some (.ok info, s') ∧
      files.exec.loads = [dynText, dynData] ∧ files.exec.ImageIn s'.space ∧
      (∃ f, files.interp = some f ∧ f.loads = [interpText] ∧ f.ImageIn s'.space) ∧
      ∀ j < 168, dynProgram[64 + j]? = some (s'.space.byte (0x555555554040 + j)) := by
  obtain ⟨⟨res, s'⟩, hrun, hinfo⟩ := Option.map_eq_some_iff.mp dynProgram_loaded
  cases res with
  | error e => cases hinfo
  | ok info =>
      obtain ⟨files, hfiles, -, -, himage⟩ :=
        load_elf_binary_image (k := 12) rfl dynEnv_aligned [] [] initial s' info hrun
      have hexec := dynProgram_exec
      have hfirst := dynProgram_headersInFirst
      have hinterp := dynProgram_interp
      rw [hfiles] at hexec hfirst hinterp
      simp only [Option.map_some, Except.toOption, Option.some.injEq, Prod.mk.injEq,
        decide_eq_true_eq] at hexec hfirst hinterp hinfo
      obtain ⟨hbias, hcontent, hloads, hphoff⟩ := hexec
      obtain ⟨f, hf, hvalues⟩ := Option.map_eq_some_iff.mp hinterp
      obtain ⟨hfbias, hvalues⟩ := Prod.mk.inj hvalues
      obtain ⟨hfcontent, hfloads⟩ := Prod.mk.inj hvalues
      have hapart : files.exec.Apart f dynEnv.pagesz := by
        intro p hp q hq
        refine MappedFile.covers_apart ?_
        revert p q
        rw [hloads, hfloads, hbias, hfbias]
        decide
      obtain ⟨hexec, hfs, hphdr⟩ := himage (dynProgram_wellFormed hloads hbias hcontent) fun g hg => by
        obtain rfl := Option.some.inj (hf.symm.trans hg)
        exact ⟨interpProgram_wellFormed hfloads hfbias hfcontent, hapart⟩
      refine ⟨files, info, s', hrun, hloads, hexec, ⟨f, hf, hfloads, hfs f hf⟩, fun j hj => ?_⟩
      have hbyte := hphdr hfirst j (by rw [hinfo.2]; exact hj)
      rwa [hcontent, hphoff, hinfo.1] at hbyte

end Dynamic

end Instrew.Client.Elf
