import Instrew.Client.SectionLayout
import Instrew.Lib.AddressSpace

/-!
# Mapping a segment of an ELF file

`elf_map` of `client/elf-loader.c`: the pages with the segment's data are mapped from the
file, what follows the data in the last of them is cleared, and anonymous pages are mapped for
the rest. To clear the end of a page that must not be written, write permission is given for a
while; whether it could be taken away again is not checked.

`elf_map_image_iff` states what is in memory when `elf_map` has returned 0. The bytes are
right in any case, the protection exactly if that call has not failed.
-/

namespace Instrew.Client.Elf

open Lib.AddressSpace Lib.Imm Lib.Layout

/-- The fields of `Elf_Phdr` that the loader uses. -/
structure Phdr : Type where
  type : BitVec 32
  flags : BitVec 32
  offset : Word
  vaddr : Word
  filesz : Word
  memsz : Word
deriving DecidableEq

/-- The outcomes of the calls that `elf_map` makes. -/
structure MapResults : Type where
  mmapFile : Option ErrNo
  mprotectWrite : Option ErrNo
  mprotectRestore : Option ErrNo
  mmapZero : Option ErrNo

def enoexec : Int := 8

def pfW : BitVec 32 := 2#32
def pfR : BitVec 32 := 4#32

/-- `prot`. Code is never mapped as executable, since the host cannot execute it. -/
def protOf (flags : BitVec 32) : Prot where
  read := flags &&& pfR != 0#32
  write := flags &&& pfW != 0#32
  exec := false

/-- `ALIGN_DOWN`. -/
def alignDown (v a : Word) : Word := v &&& ~~~(a - 1#64)

/-- The first `mmap`, with its error. -/
def mapFile (res : MapResults) (file : List Byte) (prot : Prot) (mapstart mapend mapoff : Word)
    (s : Space) : Int × Space :=
  if mapstart < mapend then
    match res.mmapFile with
    | some e => (-(e.val : Int), s)
    | none => (0, s.map mapstart.toNat mapend.toNat
        (fun a => file.getD (mapoff.toNat + (a - mapstart.toNat)) 0#8) prot)
  else (0, s)

/-- The data at the last page of the segment that has to be zeroed. -/
def zeroTail (res : MapResults) (pagesz : Word) (prot : Prot) (dataend zeropage : Word)
    (s : Space) : Option (Int × Space) :=
  if dataend < zeropage then
    let page := (alignDown dataend pagesz).toNat
    if prot.write then (s.fill dataend.toNat zeropage.toNat 0#8).map fun s => (0, s)
    else
      match res.mprotectWrite with
      | some e => some (-(e.val : Int), s)
      | none =>
          let writable := s.protect page (page + pagesz.toNat) { prot with write := true }
          (writable.fill dataend.toNat zeropage.toNat 0#8).map fun s =>
            match res.mprotectRestore with
            | some _ => (0, s)
            | none => (0, s.protect page (page + pagesz.toNat) prot)
  else some (0, s)

/-- The entire pages that have to be zeroed. -/
def mapZero (res : MapResults) (pagesz : Word) (prot : Prot) (zeropage allocend : Word)
    (s : Space) : Int × Space :=
  if zeropage < allocend then
    match res.mmapZero with
    | some e => (-(e.val : Int), s)
    | none => (0, s.map zeropage.toNat
        (zeropage.toNat + roundUp (allocend - zeropage).toNat pagesz.toNat) (fun _ => 0#8) prot)
  else (0, s)

/-- `allocend`. -/
def allocEnd (pagesz addr : Word) (ph : Phdr) : Word :=
  if (protOf ph.flags).write then alignUp (addr + ph.memsz) pagesz else addr + ph.memsz

/-- `zeropage`. -/
def zeroPage (pagesz dataend allocend : Word) : Word :=
  if allocend < alignUp dataend pagesz then allocend else alignUp dataend pagesz

def elfMap (res : MapResults) (file : List Byte) (pagesz addr : Word) (ph : Phdr) (s : Space) :
    Option (Int × Space) :=
  let prot := protOf ph.flags
  let dataend := addr + ph.filesz
  let allocend := allocEnd pagesz addr ph
  if ph.vaddr &&& (pagesz - 1#64) ≠ ph.offset &&& (pagesz - 1#64) then some (-enoexec, s)
  else
    let (retval, s) := mapFile res file prot (alignDown addr pagesz) (alignUp dataend pagesz)
      (alignDown ph.offset pagesz) s
    if retval < 0 then some (retval, s)
    else if dataend < allocend then
      let zeropage := zeroPage pagesz dataend allocend
      match zeroTail res pagesz prot dataend zeropage s with
      | none => none
      | some (retval, s) =>
          if retval < 0 then some (retval, s) else some (mapZero res pagesz prot zeropage allocend s)
    else some (0, s)

/-! ## What the calls leave behind -/

section Stages

variable {res : MapResults} {file : List Byte} {prot : Prot} {pagesz : Word} {s s' : Space} {a : Nat}

/-- The file's bytes are in place from `mapstart` on. -/
structure FileMapped (file : List Byte) (prot : Prot) (lo hi off : Nat) (s s' : Space) : Prop where
  byte : ∀ a, s'.byte a = if lo ≤ a ∧ a < hi then file.getD (off + (a - lo)) 0#8 else s.byte a
  prot : ∀ a, s'.prot a = if lo ≤ a ∧ a < hi then some prot else s.prot a

theorem mapFile_spec {mapstart mapend mapoff : Word}
    (h : ¬ (mapFile res file prot mapstart mapend mapoff s).1 < 0) :
    FileMapped file prot mapstart.toNat mapend.toNat mapoff.toNat s
      (mapFile res file prot mapstart mapend mapoff s).2 := by
  rw [mapFile] at h ⊢
  split_ifs at h ⊢ with hlt
  · cases hres : res.mmapFile with
    | some e =>
        rw [hres] at h
        have hpos := e.property.1
        exact absurd (show -(e.val : Int) < 0 by omega) h
    | none => exact ⟨fun _ => rfl, fun _ => rfl⟩
  · -- nothing to map
    have hnone : ∀ a, ¬ (mapstart.toNat ≤ a ∧ a < mapend.toNat) := by
      intro a ha
      rw [BitVec.lt_def] at hlt
      omega
    exact ⟨fun a => (if_neg (hnone a)).symm, fun a => (if_neg (hnone a)).symm⟩

/-- Write permission is left behind. -/
def RestoreFailed (res : MapResults) (prot : Prot) (dataend zeropage : Word) : Prop :=
  prot.write = false ∧ dataend < zeropage ∧ res.mprotectRestore ≠ none

/-- The bytes from `dataend` to `zeropage` are cleared. -/
structure TailZeroed (res : MapResults) (pagesz : Word) (prot : Prot) (dataend zeropage : Word)
    (s s' : Space) : Prop where
  byte : ∀ a, s'.byte a =
    if dataend.toNat ≤ a ∧ a < zeropage.toNat then 0#8 else s.byte a
  kept : ¬ RestoreFailed res prot dataend zeropage → s'.prot = s.prot
  left : RestoreFailed res prot dataend zeropage → ∀ a, s'.prot a =
    if (alignDown dataend pagesz).toNat ≤ a ∧
        a < (alignDown dataend pagesz).toNat + pagesz.toNat then some { prot with write := true }
    else s.prot a

theorem tailZeroed_nil {dataend zeropage : Word} (h : ¬ dataend < zeropage) :
    TailZeroed res pagesz prot dataend zeropage s s where
  byte a := by
    rw [BitVec.lt_def] at h
    exact (if_neg (by omega)).symm
  kept _ := rfl
  left hfailed := absurd hfailed.2.1 h

/-- If the page of `dataend` is mapped as the segment asks for, the end of it is cleared
without a fault. -/
theorem zeroTail_spec (res : MapResults) {dataend zeropage : Word}
    (hprot : dataend < zeropage → ∀ a, (alignDown dataend pagesz).toNat ≤ a →
      a < (alignDown dataend pagesz).toNat + pagesz.toNat → s.prot a = some prot)
    (hlo : (alignDown dataend pagesz).toNat ≤ dataend.toNat)
    (hhi : dataend < zeropage →
      zeropage.toNat ≤ (alignDown dataend pagesz).toNat + pagesz.toNat) :
    ∃ retval s', zeroTail res pagesz prot dataend zeropage s = some (retval, s') ∧
      (¬ retval < 0 → TailZeroed res pagesz prot dataend zeropage s s') := by
  by_cases hlt : dataend < zeropage
  swap
  · exact ⟨0, s, by rw [zeroTail, if_neg hlt], fun _ => tailZeroed_nil hlt⟩
  have hprot := hprot hlt
  have hhi := hhi hlt
  rw [zeroTail, if_pos hlt]
  dsimp only
  cases hw : prot.write with
  | true =>
      have hfill := Space.fill_of_writable s dataend.toNat zeropage.toNat
        (fun a ha ha' => Space.writable_of_prot (hprot a (by omega) (by omega)) hw) 0#8
      rw [if_pos rfl, hfill]
      have hnot : ¬ RestoreFailed res prot dataend zeropage :=
        fun h => Bool.false_ne_true (h.1.symm.trans hw)
      exact ⟨_, _, rfl, fun _ => ⟨fun _ => rfl, fun _ => rfl, fun h => absurd h hnot⟩⟩
  | false =>
      rw [if_neg Bool.false_ne_true]
      cases res.mprotectWrite with
      | some e =>
          have hpos := e.property.1
          exact ⟨_, _, rfl, fun hnonneg => by omega⟩
      | none =>
          have hfill := (s.protect (alignDown dataend pagesz).toNat
              ((alignDown dataend pagesz).toNat + pagesz.toNat)
              { prot with write := true }).fill_of_writable dataend.toNat
            zeropage.toNat (fun a ha ha' => Space.writable_of_prot (if_pos (by omega)) rfl) 0#8
          rw [hfill]
          cases hres : res.mprotectRestore with
          | some e =>
              have hfailed : RestoreFailed res prot dataend zeropage := ⟨hw, hlt, by rw [hres]; simp⟩
              exact ⟨_, _, rfl, fun _ => ⟨fun _ => rfl, fun h => absurd hfailed h, fun _ _ => rfl⟩⟩
          | none =>
              refine ⟨_, _, rfl, fun _ => ⟨fun _ => rfl, fun _ => funext fun a => ?_,
                fun h => absurd hres h.2.2⟩⟩
              -- the two changes are to the same page, which had this protection before
              simp only [Space.protect]
              split_ifs with ha
              · exact (hprot a ha.1 ha.2).symm
              · rfl

/-- A range is mapped to zero pages. -/
structure PagesZeroed (prot : Prot) (lo hi : Nat) (s s' : Space) : Prop where
  byte : ∀ a, s'.byte a = if lo ≤ a ∧ a < hi then 0#8 else s.byte a
  prot : ∀ a, s'.prot a = if lo ≤ a ∧ a < hi then some prot else s.prot a

theorem mapZero_spec {zeropage allocend : Word} {hi : Nat}
    (hmap : zeropage < allocend →
      zeropage.toNat + roundUp (allocend - zeropage).toNat pagesz.toNat = hi)
    (hnone : ¬ zeropage < allocend → hi ≤ zeropage.toNat)
    (h : ¬ (mapZero res pagesz prot zeropage allocend s).1 < 0) :
    PagesZeroed prot zeropage.toNat hi s (mapZero res pagesz prot zeropage allocend s).2 := by
  rw [mapZero] at h ⊢
  split_ifs at h ⊢ with hlt
  · cases hres : res.mmapZero with
    | some e =>
        rw [hres] at h
        have hpos := e.property.1
        exact absurd (show -(e.val : Int) < 0 by omega) h
    | none =>
        rw [hmap hlt]
        exact ⟨fun _ => rfl, fun _ => rfl⟩
  · have hempty : ∀ a, ¬ (zeropage.toNat ≤ a ∧ a < hi) := by
      intro a ha
      have := hnone hlt
      omega
    exact ⟨fun a => (if_neg (hempty a)).symm, fun a => (if_neg (hempty a)).symm⟩

end Stages

/-! ## The two roundings -/

section Bounds

variable {pagesz addr : Word} {k : Nat} {ph : Phdr}

/-- The page-rounded range of a segment. -/
def pageStart (pagesz addr : Word) : Nat := addr.toNat / pagesz.toNat * pagesz.toNat

def pageEnd (pagesz addr : Word) (ph : Phdr) : Nat :=
  roundUp (addr.toNat + ph.memsz.toNat) pagesz.toNat

theorem toNat_alignDown (hk : pagesz.toNat = 2 ^ k) (v : Word) :
    (alignDown v pagesz).toNat = v.toNat / pagesz.toNat * pagesz.toNat := by
  rw [alignDown, toNat_and_not_sub_one hk, hk]

theorem toNat_alignUp_of_lt (hk : pagesz.toNat = 2 ^ k) {v : Word}
    (h : roundUp v.toNat pagesz.toNat < 2 ^ 64) :
    (alignUp v pagesz).toNat = roundUp v.toNat pagesz.toNat := by
  rcases alignUp_cases v (.inr ⟨k, hk⟩) with heq | ⟨-, -, hzero | hge⟩
  · exact heq
  · have hpos : 0 < 2 ^ k := by positivity
    rw [hzero] at hk
    exact absurd hk hpos.ne
  · exact absurd h (Nat.not_lt.mpr hge)

/-- The addresses of `elf_map` for a segment that does not wrap. -/
structure Bounds (pagesz addr : Word) (ph : Phdr) : Prop where
  dataend : (addr + ph.filesz).toNat = addr.toNat + ph.filesz.toNat
  mapend : (alignUp (addr + ph.filesz) pagesz).toNat =
    roundUp (addr.toNat + ph.filesz.toNat) pagesz.toNat
  mapend_le : roundUp (addr.toNat + ph.filesz.toNat) pagesz.toNat ≤ pageEnd pagesz addr ph
  allocend : (allocEnd pagesz addr ph).toNat = if (protOf ph.flags).write then pageEnd pagesz addr ph
    else addr.toNat + ph.memsz.toNat

theorem bounds (hk : pagesz.toNat = 2 ^ k) (hsz : ph.filesz.toNat ≤ ph.memsz.toNat)
    (hfit : pageEnd pagesz addr ph < 2 ^ 64) : Bounds pagesz addr ph := by
  have hle : addr.toNat + ph.memsz.toNat ≤ pageEnd pagesz addr ph := le_roundUp _ _
  have hmono : roundUp (addr.toNat + ph.filesz.toNat) pagesz.toNat ≤ pageEnd pagesz addr ph :=
    roundUp_mono _ (by omega)
  have hdata : (addr + ph.filesz).toNat = addr.toNat + ph.filesz.toNat := by
    rw [BitVec.toNat_add]
    exact Nat.mod_eq_of_lt (by omega)
  have halloc : (addr + ph.memsz).toNat = addr.toNat + ph.memsz.toNat := by
    rw [BitVec.toNat_add]
    exact Nat.mod_eq_of_lt (by omega)
  refine ⟨hdata, ?_, hmono, ?_⟩
  · rw [toNat_alignUp_of_lt hk (by rw [hdata]; omega), hdata]
  · rw [allocEnd]
    split_ifs
    · rw [toNat_alignUp_of_lt hk (by rw [halloc]; exact hfit), halloc]
      rfl
    · exact halloc

theorem toNat_zeroPage (hb : Bounds pagesz addr ph) :
    (zeroPage pagesz (addr + ph.filesz) (allocEnd pagesz addr ph)).toNat =
      min (allocEnd pagesz addr ph).toNat
        (roundUp (addr.toNat + ph.filesz.toNat) pagesz.toNat) := by
  rw [zeroPage]
  split_ifs with hlt
  · rw [BitVec.lt_def, hb.mapend] at hlt
    exact (min_eq_left hlt.le).symm
  · rw [BitVec.lt_def, hb.mapend] at hlt
    rw [hb.mapend, min_eq_right (Nat.le_of_not_lt hlt)]

/-- `allocend` lies between the end of the segment and the end of its last page. -/
theorem Bounds.allocend_between (hb : Bounds pagesz addr ph) :
    addr.toNat + ph.memsz.toNat ≤ (allocEnd pagesz addr ph).toNat ∧
      (allocEnd pagesz addr ph).toNat ≤ pageEnd pagesz addr ph := by
  have hle : addr.toNat + ph.memsz.toNat ≤ pageEnd pagesz addr ph := le_roundUp _ _
  rw [hb.allocend]
  split_ifs <;> omega

theorem Bounds.roundUp_allocend (hb : Bounds pagesz addr ph) (hpos : 0 < pagesz.toNat) :
    roundUp (allocEnd pagesz addr ph).toNat pagesz.toNat = pageEnd pagesz addr ph := by
  obtain ⟨hge, hle⟩ := hb.allocend_between
  have hdvd : pagesz.toNat ∣ pageEnd pagesz addr ph := dvd_roundUp _ hpos.ne'
  exact Nat.le_antisymm (roundUp_le_of_dvd hdvd hle) (roundUp_mono _ hge)

end Bounds

/-! ## The image of the segment -/

/-- The bytes of a segment are in memory, and nothing else has changed. -/
structure SegmentBytes (file : List Byte) (pagesz addr : Word) (ph : Phdr) (s s' : Space) : Prop where
  data : ∀ i < ph.filesz.toNat, file[ph.offset.toNat + i]? = some (s'.byte (addr.toNat + i))
  zero : ∀ i, ph.filesz.toNat ≤ i → i < ph.memsz.toNat → s'.byte (addr.toNat + i) = 0#8
  frame : ∀ a, ¬ (pageStart pagesz addr ≤ a ∧ a < pageEnd pagesz addr ph) →
    s'.byte a = s.byte a ∧ s'.prot a = s.prot a

/-- The pages of a segment have its protection. -/
def SegmentProt (pagesz addr : Word) (ph : Phdr) (s' : Space) : Prop :=
  ∀ a, pageStart pagesz addr ≤ a → a < pageEnd pagesz addr ph → s'.prot a = some (protOf ph.flags)

section Image

variable {res : MapResults} {file : List Byte} {pagesz addr : Word} {k : Nat} {ph : Phdr}
  {s s₁ s₂ s' : Space}

/-- The byte of the file that is mapped at an address. -/
theorem mapped_offset (hmod : addr.toNat % pagesz.toNat = ph.offset.toNat % pagesz.toNat) (i : Nat) :
    ph.offset.toNat / pagesz.toNat * pagesz.toNat + (addr.toNat + i - pageStart pagesz addr) =
      ph.offset.toNat + i := by
  have haddr := Nat.div_add_mod' addr.toNat pagesz.toNat
  have hoff := Nat.div_add_mod' ph.offset.toNat pagesz.toNat
  rw [pageStart]
  omega

theorem pageStart_le (pagesz addr : Word) : pageStart pagesz addr ≤ addr.toNat :=
  Nat.div_mul_le_self _ _

/-- Nothing follows the data: the pages of the file are all there is. -/
theorem image_of_file (hb : Bounds pagesz addr ph)
    (hsz : ph.filesz.toNat ≤ ph.memsz.toNat)
    (hlen : ph.offset.toNat + ph.filesz.toNat ≤ file.length)
    (hmod : addr.toNat % pagesz.toNat = ph.offset.toNat % pagesz.toNat)
    (hend : ¬ addr + ph.filesz < allocEnd pagesz addr ph)
    (hfile : FileMapped file (protOf ph.flags) (pageStart pagesz addr)
      (roundUp (addr.toNat + ph.filesz.toNat) pagesz.toNat)
      (ph.offset.toNat / pagesz.toNat * pagesz.toNat) s s₁) :
    ph.filesz.toNat = ph.memsz.toNat ∧ SegmentBytes file pagesz addr ph s s₁ ∧
      SegmentProt pagesz addr ph s₁ := by
  have hstart := pageStart_le pagesz addr
  have hdata := le_roundUp (addr.toNat + ph.filesz.toNat) pagesz.toNat
  obtain ⟨hge, -⟩ := hb.allocend_between
  rw [BitVec.lt_def, hb.dataend] at hend
  have heq : ph.filesz.toNat = ph.memsz.toNat := by omega
  have hlast : pageEnd pagesz addr ph = roundUp (addr.toNat + ph.filesz.toNat) pagesz.toNat := by
    rw [pageEnd, heq]
  refine ⟨heq, ⟨fun i hi => ?_, fun i hi hi' => by omega, fun a ha => ?_⟩, fun a hlo hhi => ?_⟩
  · rw [hfile.byte, if_pos (by omega), mapped_offset hmod, List.getD_eq_getElem?_getD,
      List.getElem?_eq_getElem (by omega)]
    rfl
  · rw [hlast] at ha
    rw [hfile.byte, hfile.prot, if_neg ha, if_neg ha]
    exact ⟨rfl, rfl⟩
  · rw [hlast] at hhi
    rw [hfile.prot, if_pos ⟨hlo, hhi⟩]

/-- The end of the last range that is mapped to zero pages. -/
def zeroEnd (pagesz addr : Word) (ph : Phdr) (zeropage : Word) : Nat :=
  if zeropage < allocEnd pagesz addr ph then pageEnd pagesz addr ph else zeropage.toNat

/-- How the ranges lie. -/
structure Ranges (pagesz addr : Word) (ph : Phdr) (zeropage : Word) : Prop where
  start_le : pageStart pagesz addr ≤ addr.toNat
  dataend_le : addr.toNat + ph.filesz.toNat ≤ zeropage.toNat
  zeropage_le : zeropage.toNat ≤ roundUp (addr.toNat + ph.filesz.toNat) pagesz.toNat
  mapend_le : roundUp (addr.toNat + ph.filesz.toNat) pagesz.toNat ≤ pageEnd pagesz addr ph
  /-- The last page of the file, or the zero pages, go up to the end. -/
  covered : zeroEnd pagesz addr ph zeropage = pageEnd pagesz addr ph ∧
      zeropage.toNat = roundUp (addr.toNat + ph.filesz.toNat) pagesz.toNat ∨
    zeroEnd pagesz addr ph zeropage = zeropage.toNat ∧
      addr.toNat + ph.memsz.toNat ≤ zeropage.toNat ∧
      pageEnd pagesz addr ph = roundUp (addr.toNat + ph.filesz.toNat) pagesz.toNat
  last_page : addr + ph.filesz < zeropage →
    pageStart pagesz addr ≤ (addr.toNat + ph.filesz.toNat) / pagesz.toNat * pagesz.toNat ∧
    (addr.toNat + ph.filesz.toNat) / pagesz.toNat * pagesz.toNat + pagesz.toNat =
      roundUp (addr.toNat + ph.filesz.toNat) pagesz.toNat

theorem ranges (hpos : 0 < pagesz.toNat) (hb : Bounds pagesz addr ph)
    (hend : addr + ph.filesz < allocEnd pagesz addr ph) :
    Ranges pagesz addr ph (zeroPage pagesz (addr + ph.filesz) (allocEnd pagesz addr ph)) := by
  have hzp := toNat_zeroPage hb
  have hdvd := dvd_roundUp (addr.toNat + ph.filesz.toNat) hpos.ne'
  have hdata := le_roundUp (addr.toNat + ph.filesz.toNat) pagesz.toNat
  obtain ⟨hge, hle⟩ := hb.allocend_between
  rw [BitVec.lt_def, hb.dataend] at hend
  refine ⟨pageStart_le _ _, by omega, by omega, hb.mapend_le, ?_, fun hlt => ?_⟩
  · by_cases hmore : zeroPage pagesz (addr + ph.filesz) (allocEnd pagesz addr ph) <
        allocEnd pagesz addr ph
    · left
      rw [zeroEnd, if_pos hmore]
      rw [BitVec.lt_def] at hmore
      exact ⟨rfl, by omega⟩
    · right
      rw [zeroEnd, if_neg hmore]
      rw [BitVec.lt_def] at hmore
      refine ⟨rfl, by omega, Nat.le_antisymm ?_ hb.mapend_le⟩
      exact roundUp_le_of_dvd hdvd (by omega)
  · rw [BitVec.lt_def, hb.dataend] at hlt
    refine ⟨Nat.mul_le_mul_right _ (Nat.div_le_div_right (Nat.le_add_right _ _)),
      Nat.le_antisymm (div_mul_add_le hdvd (by omega)) (roundUp_le_of_dvd ?_ ?_)⟩
    · exact Nat.dvd_add (Nat.dvd_mul_left _ _) (dvd_refl _)
    · have hmod := Nat.div_add_mod' (addr.toNat + ph.filesz.toNat) pagesz.toNat
      have hlt' := Nat.mod_lt (addr.toNat + ph.filesz.toNat) hpos
      omega

theorem Ranges.dvd_zeropage {zeropage : Word} (hr : Ranges pagesz addr ph zeropage)
    (hpos : 0 < pagesz.toNat) (hlt : zeropage < allocEnd pagesz addr ph) :
    pagesz.toNat ∣ zeropage.toNat := by
  rcases hr.covered with ⟨-, heq⟩ | ⟨heq, -, -⟩
  · rw [heq]
    exact dvd_roundUp _ hpos.ne'
  · rw [← heq, zeroEnd, if_pos hlt]
    exact dvd_roundUp _ hpos.ne'

/-- The zero pages go up to the end of the last page. -/
theorem Ranges.add_roundUp_eq_zeroEnd {zeropage : Word} (hr : Ranges pagesz addr ph zeropage)
    (hpos : 0 < pagesz.toNat) (hb : Bounds pagesz addr ph)
    (hlt : zeropage < allocEnd pagesz addr ph) :
    zeropage.toNat + roundUp (allocEnd pagesz addr ph - zeropage).toNat pagesz.toNat =
      zeroEnd pagesz addr ph zeropage := by
  rw [zeroEnd, if_pos hlt, add_roundUp (hr.dvd_zeropage hpos hlt),
    BitVec.toNat_sub_of_le (BitVec.le_of_lt hlt), Nat.add_sub_cancel' (BitVec.le_of_lt hlt),
    hb.roundUp_allocend hpos]

/-! The three steps together. -/

section Stages

variable {zeropage : Word} (hk : pagesz.toNat = 2 ^ k) (hb : Bounds pagesz addr ph)
  (hr : Ranges pagesz addr ph zeropage)
  (hfile : FileMapped file (protOf ph.flags) (pageStart pagesz addr)
    (roundUp (addr.toNat + ph.filesz.toNat) pagesz.toNat)
    (ph.offset.toNat / pagesz.toNat * pagesz.toNat) s s₁)
  (htail : TailZeroed res pagesz (protOf ph.flags) (addr + ph.filesz) zeropage s₁ s₂)
  (hzero : PagesZeroed (protOf ph.flags) zeropage.toNat (zeroEnd pagesz addr ph zeropage) s₂ s')

include hk hb hr hfile htail hzero

theorem bytes_of_stages (hlen : ph.offset.toNat + ph.filesz.toNat ≤ file.length)
    (hmod : addr.toNat % pagesz.toNat = ph.offset.toNat % pagesz.toNat) :
    SegmentBytes file pagesz addr ph s s' := by
  obtain ⟨hstart, hdata, hpage, hmapend, hcovered, hlast⟩ := hr
  have hpage' := toNat_alignDown hk (addr + ph.filesz)
  rw [hb.dataend] at hpage'
  have hbyte : ∀ a, s'.byte a = if zeropage.toNat ≤ a ∧ a < zeroEnd pagesz addr ph zeropage then 0#8
      else if addr.toNat + ph.filesz.toNat ≤ a ∧ a < zeropage.toNat then 0#8 else s₁.byte a := by
    intro a
    rw [hzero.byte, htail.byte, hb.dataend]
  refine ⟨?_, ?_, ?_⟩
  · intro i hi
    rw [hbyte, if_neg (by omega), if_neg (by omega), hfile.byte, if_pos (by omega),
      mapped_offset hmod, List.getD_eq_getElem?_getD, List.getElem?_eq_getElem (by omega)]
    rfl
  · intro i hi hi'
    have hend : addr.toNat + ph.memsz.toNat ≤ pageEnd pagesz addr ph := le_roundUp _ _
    rw [hbyte]
    split_ifs with h₁ h₂
    · rfl
    · rfl
    · omega
  · intro a ha
    have htail' : s₂.prot a = s₁.prot a := by
      by_cases hfailed : RestoreFailed res (protOf ph.flags) (addr + ph.filesz) zeropage
      · have := hlast hfailed.2.1
        rw [htail.left hfailed, hpage', if_neg (by omega)]
      · rw [htail.kept hfailed]
    constructor
    · rw [hbyte, if_neg (by omega), if_neg (by omega), hfile.byte, if_neg (by omega)]
    · rw [hzero.prot, if_neg (by omega), htail', hfile.prot, if_neg (by omega)]

theorem prot_of_stages_iff : SegmentProt pagesz addr ph s' ↔
    ¬ RestoreFailed res (protOf ph.flags) (addr + ph.filesz) zeropage := by
  obtain ⟨hstart, hdata, hpage, hmapend, hcovered, hlast⟩ := hr
  constructor
  · -- the page that was made writable still is
    intro hseg hfailed
    have hpage' := toNat_alignDown hk (addr + ph.filesz)
    have hlast := hlast hfailed.2.1
    have hlt := hfailed.2.1
    rw [hb.dataend] at hpage'
    rw [BitVec.lt_def, hb.dataend] at hlt
    have hle := Nat.div_mul_le_self (addr.toNat + ph.filesz.toNat) pagesz.toNat
    have hprot := hseg _ hlast.1 (by omega)
    rw [hzero.prot, if_neg (by omega), htail.left hfailed, hpage', if_pos (by omega)] at hprot
    have hwrite := congrArg Prot.write (Option.some.inj hprot)
    exact Bool.false_ne_true (hfailed.1.symm.trans hwrite.symm)
  · intro hkept a hlo hhi
    rw [hzero.prot, htail.kept hkept]
    split_ifs with hin
    · rfl
    · rw [hfile.prot, if_pos (by omega)]

end Stages

/-- The protection of a read-only page with data and zeros in it could not be restored. -/
def RestoreFails (res : MapResults) (pagesz addr : Word) (ph : Phdr) : Prop :=
  (protOf ph.flags).write = false ∧ ph.filesz.toNat < ph.memsz.toNat ∧
    ¬ pagesz.toNat ∣ addr.toNat + ph.filesz.toNat ∧ res.mprotectRestore ≠ none

theorem restoreFailed_iff (hpos : 0 < pagesz.toNat) (hb : Bounds pagesz addr ph) :
    RestoreFailed res (protOf ph.flags) (addr + ph.filesz)
        (zeroPage pagesz (addr + ph.filesz) (allocEnd pagesz addr ph)) ↔
      RestoreFails res pagesz addr ph := by
  have hzp := toNat_zeroPage hb
  rw [RestoreFailed, RestoreFails, BitVec.lt_def, hb.dataend, hzp, ← lt_roundUp_iff hpos.ne', lt_min_iff]
  refine and_congr_right fun hwrite => ?_
  rw [hb.allocend, hwrite, if_neg Bool.false_ne_true, Nat.add_lt_add_iff_left, and_assoc]

/-- `elf_map` on a segment whose address and offset agree: the three steps. -/
theorem elfMap_spec (res : MapResults) (s : Space) (hk : pagesz.toNat = 2 ^ k) (hsz : ph.filesz.toNat ≤ ph.memsz.toNat)
    (hfit : pageEnd pagesz addr ph < 2 ^ 64)
    (hlen : ph.offset.toNat + ph.filesz.toNat ≤ file.length)
    (hmod : addr.toNat % pagesz.toNat = ph.offset.toNat % pagesz.toNat)
    (hcheck : ph.vaddr &&& (pagesz - 1#64) = ph.offset &&& (pagesz - 1#64)) :
    ∃ retval s', elfMap res file pagesz addr ph s = some (retval, s') ∧
      (¬ retval < 0 → SegmentBytes file pagesz addr ph s s' ∧
        (SegmentProt pagesz addr ph s' ↔ ¬ RestoreFails res pagesz addr ph)) := by
  have hpos : 0 < pagesz.toNat := by rw [hk]; positivity
  have hb := bounds hk hsz hfit
  have hstart := toNat_alignDown hk addr
  rw [elfMap, if_neg (not_not.mpr hcheck)]
  dsimp only
  by_cases hneg : (mapFile res file (protOf ph.flags) (alignDown addr pagesz)
      (alignUp (addr + ph.filesz) pagesz) (alignDown ph.offset pagesz) s).1 < 0
  · rw [if_pos hneg]
    exact ⟨_, _, rfl, fun h => absurd hneg h⟩
  have hfile := mapFile_spec hneg
  rw [if_neg hneg]
  rw [hb.mapend, hstart, toNat_alignDown hk ph.offset] at hfile
  generalize (mapFile res file (protOf ph.flags) (alignDown addr pagesz)
    (alignUp (addr + ph.filesz) pagesz) (alignDown ph.offset pagesz) s).2 = s₁ at hfile ⊢
  by_cases hend : addr + ph.filesz < allocEnd pagesz addr ph
  swap
  · obtain ⟨heq, hbytes, hprot⟩ := image_of_file hb hsz hlen hmod hend hfile
    rw [if_neg hend]
    exact ⟨_, _, rfl, fun _ => ⟨hbytes, iff_of_true hprot fun h => absurd heq h.2.1.ne⟩⟩
  rw [if_pos hend]
  have hr := ranges hpos hb hend
  rw [← restoreFailed_iff hpos hb]
  generalize zeroPage pagesz (addr + ph.filesz) (allocEnd pagesz addr ph) = zeropage at hr ⊢
  have hpage := toNat_alignDown hk (addr + ph.filesz)
  have hle := Nat.div_mul_le_self (addr.toNat + ph.filesz.toNat) pagesz.toNat
  rw [hb.dataend] at hpage
  have hprot : addr + ph.filesz < zeropage → ∀ a, (alignDown (addr + ph.filesz) pagesz).toNat ≤ a →
      a < (alignDown (addr + ph.filesz) pagesz).toNat + pagesz.toNat →
      s₁.prot a = some (protOf ph.flags) := by
    intro hlt a hlo hhi
    obtain ⟨hfirst, hnext⟩ := hr.last_page hlt
    rw [hpage] at hlo hhi
    rw [hfile.prot, if_pos ⟨hfirst.trans hlo, hnext ▸ hhi⟩]
  have hhi : addr + ph.filesz < zeropage →
      zeropage.toNat ≤ (alignDown (addr + ph.filesz) pagesz).toNat + pagesz.toNat := by
    intro hlt
    rw [hpage, (hr.last_page hlt).2]
    exact hr.zeropage_le
  obtain ⟨retval, s₂, htail, hzeroed⟩ := zeroTail_spec res hprot (by rw [hpage, hb.dataend]; exact hle) hhi
  rw [htail]
  dsimp only
  by_cases hneg₂ : retval < 0
  · rw [if_pos hneg₂]
    exact ⟨_, _, rfl, fun h => absurd hneg₂ h⟩
  rw [if_neg hneg₂]
  refine ⟨_, _, rfl, fun hneg₃ => ?_⟩
  have hzero : PagesZeroed (protOf ph.flags) zeropage.toNat (zeroEnd pagesz addr ph zeropage) s₂ _ :=
    mapZero_spec (fun hlt => hr.add_roundUp_eq_zeroEnd hpos hb hlt) (fun hnot => (if_neg hnot).le) hneg₃
  exact ⟨bytes_of_stages hk hb hr hfile (hzeroed hneg₂) hzero hlen hmod,
    prot_of_stages_iff hk hb hr hfile (hzeroed hneg₂) hzero⟩

end Image

/-- **What `elf_map` has done when it returns 0.** -/
theorem elf_map_image_iff (res : MapResults) (file : List Byte) (pagesz bias : Word) (ph : Phdr)
    (s : Space) (k : Nat) (hk : pagesz.toNat = 2 ^ k) (hbias : pagesz.toNat ∣ bias.toNat)
    (hsz : ph.filesz.toNat ≤ ph.memsz.toNat)
    (hfit : pageEnd pagesz (bias + ph.vaddr) ph < 2 ^ 64)
    (hlen : ph.offset.toNat + ph.filesz.toNat ≤ file.length) :
    (ph.vaddr.toNat % pagesz.toNat ≠ ph.offset.toNat % pagesz.toNat →
        elfMap res file pagesz (bias + ph.vaddr) ph s = some (-enoexec, s)) ∧
      elfMap res file pagesz (bias + ph.vaddr) ph s ≠ none ∧
      ∀ s', elfMap res file pagesz (bias + ph.vaddr) ph s = some (0, s') →
        SegmentBytes file pagesz (bias + ph.vaddr) ph s s' ∧
        (SegmentProt pagesz (bias + ph.vaddr) ph s' ↔
          ¬ RestoreFails res pagesz (bias + ph.vaddr) ph) := by
  have hmask : ∀ v : Word, (v &&& (pagesz - 1#64)).toNat = v.toNat % pagesz.toNat := fun v => by
    rw [toNat_and_ones (toNat_sub_one hk), hk]
  by_cases hcheck : ph.vaddr &&& (pagesz - 1#64) = ph.offset &&& (pagesz - 1#64)
  · have hmod : ph.vaddr.toNat % pagesz.toNat = ph.offset.toNat % pagesz.toNat := by
      rw [← hmask, ← hmask, hcheck]
    have haddr : (bias + ph.vaddr).toNat % pagesz.toNat = ph.offset.toNat % pagesz.toNat := by
      have hdvd : pagesz.toNat ∣ 2 ^ 64 := by
        have hlt := pagesz.isLt
        rw [hk] at hlt ⊢
        exact Nat.pow_dvd_pow 2 ((Nat.pow_lt_pow_iff_right (by decide)).mp hlt).le
      obtain ⟨c, hc⟩ := hbias
      rw [BitVec.toNat_add, Nat.mod_mod_of_dvd _ hdvd, hc, Nat.mul_add_mod, hmod]
    obtain ⟨retval, s', hrun, himage⟩ := elfMap_spec res s hk hsz hfit hlen haddr hcheck
    rw [hrun]
    refine ⟨fun hne => absurd hmod hne, Option.some_ne_none _, fun s'' h => ?_⟩
    cases h
    exact himage (lt_irrefl 0)
  · have hne : ph.vaddr.toNat % pagesz.toNat ≠ ph.offset.toNat % pagesz.toNat := by
      rw [← hmask, ← hmask]
      exact fun h => hcheck (BitVec.eq_of_toNat_eq h)
    have hrun : elfMap res file pagesz (bias + ph.vaddr) ph s = some (-enoexec, s) := by
      rw [elfMap, if_pos hcheck]
    rw [hrun]
    exact ⟨fun _ => rfl, Option.some_ne_none _, fun s' h => nomatch h⟩

/-- A read-only segment that ends in the last eight bytes of a page and has zeros behind. -/
def readOnlyBss : Phdr := ⟨1#32, 4#32, 0xf00#64, 0xf00#64, 0xf8#64, 0x200#64⟩

def sampleFile : List Byte := List.replicate 0xff8 0x41#8

def unmapped : Space := ⟨fun _ => 0#8, fun _ => none⟩

theorem readOnlyBss_mapped : ∃ s', elfMap ⟨none, none, none, none⟩ sampleFile 0x1000#64
      (0x555555554000#64 + readOnlyBss.vaddr) readOnlyBss unmapped = some (0, s') ∧
    SegmentBytes sampleFile 0x1000#64 (0x555555554000#64 + readOnlyBss.vaddr) readOnlyBss unmapped s' ∧
    SegmentProt 0x1000#64 (0x555555554000#64 + readOnlyBss.vaddr) readOnlyBss s' := by
  obtain ⟨-, -, himage⟩ := elf_map_image_iff ⟨none, none, none, none⟩ sampleFile 0x1000#64
    0x555555554000#64 readOnlyBss unmapped 12 rfl (by decide) (by decide) (by decide)
    (by rw [sampleFile, List.length_replicate]; decide)
  obtain ⟨hbytes, hprot⟩ := himage _ rfl
  exact ⟨_, rfl, hbytes, hprot.mpr fun h => h.2.2.2 rfl⟩

/-- The second `mprotect` fails for lack of memory: 0 is returned, and the page can be written. -/
theorem readOnlyBss_left_writable : ∃ s', elfMap ⟨none, none, some ⟨12, by decide⟩, none⟩ sampleFile
      0x1000#64 (0x555555554000#64 + readOnlyBss.vaddr) readOnlyBss unmapped = some (0, s') ∧
    s'.prot 0x555555554f00 = some ⟨true, true, false⟩ ∧
    protOf readOnlyBss.flags = ⟨true, false, false⟩ ∧
    ¬ SegmentProt 0x1000#64 (0x555555554000#64 + readOnlyBss.vaddr) readOnlyBss s' := by
  refine ⟨_, rfl, rfl, rfl, fun hprot => ?_⟩
  exact absurd (hprot 0x555555554f00 (by decide) (by decide)) (by decide)

end Instrew.Client.Elf
