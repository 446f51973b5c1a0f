import Instrew.Client.ProcessRela
import Mathlib.Data.List.GetD

/-!
# Loading an object, with checked accesses

`rtld_add_object` of `client/rtld.c` with every access to the received buffer checked:
the section headers, symbols and relocation entries it reads, the names, the section
contents it copies, the section addresses and relocated bytes it writes.

The loader changes the buffer that it reads from. `Kept` are the bytes that it reads and
does not change itself in a separate object; `Loading` says of a state of the buffer that
they are as they were, and gives what can be read from it then.
-/

namespace Instrew.Client

open Lib.Access Lib.ByteMem

/-! ## `rtld_add_object` -/

namespace RtldElf

/-- `EM_CURRENT`. -/
def emCurrent : Host → BitVec 16
  | .x86_64 => 62#16
  | .aarch64 => 183#16
  | .riscv => 243#16

/-- What the loader asks of the code arena: the block for the object, the copying of a
section, and the stubs of each relocation section. -/
structure Arena : Type where
  memAllocCode : Word → Word → Except Errno Word
  memWriteCode : Word → Buf → Word → Word → Except Errno Unit
  stubs : Nat → Stubs

variable (re : RtldElf) (arena : Arena)

/-- The surroundings of the unchecked loader, with the relocation of a section as it is.
What happens after a fault is not said; `EFAULT` stands for it. -/
def loadEnv : LoadEnv where
  emCurrent := emCurrent re.host
  memAllocCode := arena.memAllocCode
  memWriteCode := arena.memWriteCode
  rtldElfProcessRela := fun objects skew b i =>
    match processRela { re with reShdr := eShoff b, skew, objects } (arena.stubs i) b i with
    | .ok b => .ok b
    | .error (.err e) => .error e
    | .error .fault => .error .EFAULT

/-- The first pass on section `i`. -/
def layout (i : Nat) (st : Buf × Word × Word) : Checked Errno (Buf × Word × Word) := do
  let (b, totsz, totalign) := st
  let h := re.shdr i
  need (b.Inside h shdrSize)
  reject (Shdr.flags b h &&& ~~~acceptedFlags ≠ 0#64) .EINVAL
  if Shdr.flags b h &&& SHF_ALLOC = 0#64 then return st
  else
    let off := alignUp totsz (Shdr.addralign b h)
    return (b.setU64 (h + 16#64) off, off + Shdr.size b h,
      if totalign < Shdr.addralign b h then Shdr.addralign b h else totalign)

/-- Add the allocated base to the address of section `i`. -/
def rebase (base : Word) (i : Nat) (b : Buf) : Checked Errno Buf := do
  let h := re.shdr i
  need (b.Inside h shdrSize)
  if Shdr.flags b h &&& SHF_ALLOC = 0#64 then return b
  else return b.setU64 (h + 16#64) (Shdr.addr b h + base)

/-- The second pass on section `i`. -/
def relocate (i : Nat) (b : Buf) : Checked Errno Buf := do
  let h := re.shdr i
  need (b.Inside h shdrSize)
  if Shdr.type b h ≠ SHT_RELA then return b
  else re.processRela (arena.stubs i) b i

/-- The third pass on section `i`. -/
def copy (i : Nat) (b : Buf) : Checked Errno Buf := do
  let h := re.shdr i
  need (b.Inside h shdrSize)
  if Shdr.type b h ≠ SHT_PROGBITS then return b
  else do
    need (b.Covers (Shdr.offset b h) (Shdr.size b h).toNat)
    call (arena.memWriteCode (Shdr.addr b h) b (Shdr.offset b h) (Shdr.size b h))
    return b

/-- The last pass on a function at `entry`, with its name at `off`. The flag says that the
loader is left with code 0, at a name that is not decoded. -/
def registerName (b : Buf) (objBase entry off : Word) (objects : Objects) :
    Checked Errno (Bool × Objects) := do
  let name ← readName b off
  match rtldElfDecodeName re.skew name 0#64 with
  | (.error e, _) => fail e
  | (.ok _, addr) =>
      if addr = 0#64 then do
        -- the name is printed, up to its NUL
        need (0#8 ∈ b.drop off.toNat)
        return (true, objects)
      else
        match rtldSet objects ⟨addr, entry, objBase, BitVec.ofNat 64 b.length⟩ with
        | (.error e, _) => fail e
        | (.ok _, objects) => return (false, objects)

/-- The last pass on one symbol of the table with header `h`. -/
def register (b : Buf) (objBase : Word) (h sym : Word) (objects : Objects) :
    Checked Errno (Bool × Objects) := do
  need (b.Inside sym symSize)
  if isGlobalFunc b sym = false then return (false, objects)
  else do
    reject ((eShnum b).toNat ≤ (stShndx b sym).toNat) .EINVAL
    let tgtShdr := re.shdr (stShndx b sym).toNat
    need (b.Inside tgtShdr shdrSize)
    let off ← orFail .EINVAL (re.resolveStr b (Shdr.link b h).toNat (stName b sym).toNat)
    re.registerName b objBase (Shdr.addr b tgtShdr + stValue b sym) off objects

/-- The last pass on section `i`. -/
def registerTable (b : Buf) (objBase : Word) (i : Nat) (st : Bool × Objects) :
    Checked Errno (Bool × Objects) := do
  let h := re.shdr i
  need (b.Inside h shdrSize)
  if Shdr.type b h ≠ SHT_SYMTAB then return st
  else do
    reject ((Shdr.entsize b h).toNat ≠ symSize) .EINVAL
    let n := (Shdr.size b h).toNat / symSize
    forLoop (fun k st => k < n && !st.1)
      (fun k st => re.register b objBase h
        (Shdr.offset b h + BitVec.ofNat 64 (symSize * k)) st.2) n 0 st

/-- A pass over the section headers. The loops test `e_shnum` anew in every round; it is a
16-bit field, so no pass has more rounds than the fuel. -/
def pass {σ : Type} (buf : σ → Buf) (left : σ → Bool) (body : Nat → σ → Checked Errno σ) (s : σ) :
    Checked Errno σ :=
  forLoop (fun i s => i < (eShnum (buf s)).toNat && !left s) body (2 ^ 16) 0 s

/-- `rtld_elf_init`. -/
def init (b : Buf) : Checked Errno Unit := do
  reject (b.length < ehdrSize) .EINVAL
  need (b.Inside 0#64 ehdrSize)
  call (rtldElfInit (re.loadEnv arena) b)

/-- `rtld_add_object` on a buffer at `objBase`: the index afterwards. The section table of
`re` is the one `rtld_elf_init` finds. -/
def addObject (obj : Buf) (objBase : Word) : Checked Errno Objects := do
  re.init arena obj
  let re := { re with reShdr := eShoff obj }
  let (b, totsz, totalign) ← pass (·.1) (fun _ => false) re.layout (obj, 0#64, 1#64)
  let base ← call (arena.memAllocCode totsz totalign)
  let b ← pass id (fun _ => false) (re.rebase base) b
  let b ← pass id (fun _ => false) (re.relocate arena) b
  let b ← pass id (fun _ => false) (re.copy arena) b
  let st ← pass (fun _ => b) (·.1) (re.registerTable b objBase) (false, re.objects)
  return st.2

end RtldElf

/-! ## The parts of an object -/

def shInfo (b : Buf) (i : Nat) : BitVec 32 := b.u32 (shdrAt b i + 44#64)

def shnum (b : Buf) : Nat := (eShnum b).toNat

/-- Section `i` gets memory. -/
def Allocated (b : Buf) (i : Nat) : Prop := shFlags b i &&& SHF_ALLOC ≠ 0#64

instance (b : Buf) (i : Nat) : Decidable (Allocated b i) := inferInstanceAs (Decidable (_ ≠ _))

/-- The section that relocation section `i` patches. -/
def tgtIdx (b : Buf) (i : Nat) : Nat := (shInfo b i).toNat

/-- Section `i` passes the checks of `rtld_elf_process_rela`. -/
@[mk_iff]
structure Relocates (b : Buf) (i : Nat) : Prop where
  ne_zero : i ≠ 0
  rela : shType b i = SHT_RELA
  entsize : (shEntsize b i).toNat = relaSize
  tgt_ne_zero : shInfo b i ≠ 0#32
  tgt_lt : tgtIdx b i < shnum b
  allocated : Allocated b (tgtIdx b i)

instance (b : Buf) (i : Nat) : Decidable (Relocates b i) :=
  decidable_of_iff _ (relocates_iff b i).symm

/-- Entry `e` of relocation section `i`. -/
def relaEntry (b : Buf) (i e : Nat) : Word := RtldElf.relaAt (shOffset b i) e

def relaCount (b : Buf) (i : Nat) : Nat := (shSize b i).toNat / relaSize

/-- Where entry `e` patches. -/
def patchAt (b : Buf) (i e : Nat) : Word :=
  shOffset b (tgtIdx b i) + Rela.offset b (relaEntry b i e)

/-- The number of bytes a relocation patches. -/
def relWidth : RelType → Nat
  | .R_X86_64_64 | .R_X86_64_PC64 | .R_AARCH64_PREL64 | .R_RISCV_64 | .R_RISCV_ADD64
  | .R_RISCV_SUB64 | .R_RISCV_CALL | .R_RISCV_CALL_PLT => 8
  | .R_RISCV_ADD16 | .R_RISCV_SUB16 | .R_RISCV_SET16 | .R_RISCV_RVC_BRANCH
  | .R_RISCV_RVC_JUMP => 2
  | .R_RISCV_ADD8 | .R_RISCV_SUB8 | .R_RISCV_SUB6 | .R_RISCV_SET6 | .R_RISCV_SET8 => 1
  | _ => 4

/-- The string with index `k` in section `t`, and that `rtld_elf_resolve_str` finds it. -/
def strAt (b : Buf) (t k : Nat) : Word := shOffset b t + BitVec.ofNat 64 k

def FindsStr (b : Buf) (t k : Nat) : Prop :=
  t ≠ 0 ∧ t < shnum b ∧ shType b t = SHT_STRTAB ∧ k < (shSize b t).toNat

instance (b : Buf) (t k : Nat) : Decidable (FindsStr b t k) :=
  inferInstanceAs (Decidable (_ ∧ _ ∧ _ ∧ _))

/-- The index of the name of a symbol of table `i`, and where the name is. -/
def FindsName (b : Buf) (i : Nat) (sym : Word) : Prop :=
  FindsStr b (shLink b i).toNat (stName b sym).toNat

instance (b : Buf) (i : Nat) (sym : Word) : Decidable (FindsName b i sym) :=
  inferInstanceAs (Decidable (FindsStr _ _ _))

def nameAt (b : Buf) (i : Nat) (sym : Word) : Word :=
  strAt b (shLink b i).toNat (stName b sym).toNat

/-- A name with its NUL, or the rest of the object. -/
def nameRange (b : Buf) (off : Word) : Range := ⟨off.toNat, (b.cstr off).length + 1⟩

def ehdrRange : Range := ⟨0, ehdrSize⟩

/-- The section table. -/
def tableRange (b : Buf) : Range := ⟨(eShoff b).toNat, shdrSize * shnum b⟩

/-- The contents of section `i`. -/
def sectionRange (b : Buf) (i : Nat) : Range := ⟨(shOffset b i).toNat, (shSize b i).toNat⟩

/-- An object whose section table lies in it, with no address to be written in the file
header. -/
structure TableInside (obj : Buf) : Prop where
  size : obj.length < 2 ^ 64
  table : (eShoff obj).toNat + shdrSize * shnum obj ≤ obj.length
  apart : ∀ i < shnum obj, Allocated obj i →
    Range.Apart ⟨(shdrAt obj i).toNat + 16, 8⟩ ehdrRange

/-! ## Reading from a changed buffer -/

theorem toNat_add_of_lt {off : Word} {k : Nat} (h : off.toNat + k < 2 ^ 64) :
    (off + BitVec.ofNat 64 k).toNat = off.toNat + k := by
  rw [BitVec.toNat_add, BitVec.toNat_ofNat]
  omega

section SameOn

variable {b b' : Buf} {off : Word}

theorem u8_same (h : SameOn b.mem b'.mem ⟨off.toNat, 1⟩) : b'.u8 off = b.u8 off :=
  h off.toNat ⟨le_rfl, Nat.lt_succ_self _⟩

theorem u16_same (hoff : off.toNat + 2 ≤ 2 ^ 64) (h : SameOn b.mem b'.mem ⟨off.toNat, 2⟩) :
    b'.u16 off = b.u16 off := by
  have hnext : (off + 1#64).toNat = off.toNat + 1 := toNat_add_of_lt (by omega)
  have hlo : SameOn b.mem b'.mem ⟨off.toNat, 1⟩ := h.sub ⟨le_rfl, by simp⟩
  have hhi : SameOn b.mem b'.mem ⟨(off + 1#64).toNat, 1⟩ :=
    h.sub ⟨by simp only; omega, by simp only; omega⟩
  rw [Buf.u16, Buf.u16, u8_same hlo, u8_same hhi]

theorem u32_same (hoff : off.toNat + 4 ≤ 2 ^ 64) (h : SameOn b.mem b'.mem ⟨off.toNat, 4⟩) :
    b'.u32 off = b.u32 off := by
  have hnext : (off + 2#64).toNat = off.toNat + 2 := toNat_add_of_lt (by omega)
  have hlo : SameOn b.mem b'.mem ⟨off.toNat, 2⟩ := h.sub ⟨le_rfl, by simp⟩
  have hhi : SameOn b.mem b'.mem ⟨(off + 2#64).toNat, 2⟩ :=
    h.sub ⟨by simp only; omega, by simp only; omega⟩
  rw [Buf.u32, Buf.u32, u16_same (by omega) hlo, u16_same (by omega) hhi]

theorem u64_same (hoff : off.toNat + 8 ≤ 2 ^ 64) (h : SameOn b.mem b'.mem ⟨off.toNat, 8⟩) :
    b'.u64 off = b.u64 off := by
  have hnext : (off + 4#64).toNat = off.toNat + 4 := toNat_add_of_lt (by omega)
  have hlo : SameOn b.mem b'.mem ⟨off.toNat, 4⟩ := h.sub ⟨le_rfl, by simp⟩
  have hhi : SameOn b.mem b'.mem ⟨(off + 4#64).toNat, 4⟩ :=
    h.sub ⟨by simp only; omega, by simp only; omega⟩
  rw [Buf.u64, Buf.u64, u32_same (by omega) hlo, u32_same (by omega) hhi]

variable {lo len k : Nat}

/-- A field at `k` of a record, from the part of the record that is unchanged. -/
theorem field32_same (h : SameOn b.mem b'.mem ⟨off.toNat + lo, len⟩)
    (hlen : off.toNat + lo + len ≤ 2 ^ 64) (hlo : lo ≤ k) (hk : k + 4 ≤ lo + len) :
    b'.u32 (off + BitVec.ofNat 64 k) = b.u32 (off + BitVec.ofNat 64 k) := by
  have hoff : (off + BitVec.ofNat 64 k).toNat = off.toNat + k := toNat_add_of_lt (by omega)
  exact u32_same (by omega) (h.sub ⟨by simp only; omega, by simp only; omega⟩)

theorem field64_same (h : SameOn b.mem b'.mem ⟨off.toNat + lo, len⟩)
    (hlen : off.toNat + lo + len ≤ 2 ^ 64) (hlo : lo ≤ k) (hk : k + 8 ≤ lo + len) :
    b'.u64 (off + BitVec.ofNat 64 k) = b.u64 (off + BitVec.ofNat 64 k) := by
  have hoff : (off + BitVec.ofNat 64 k).toNat = off.toNat + k := toNat_add_of_lt (by omega)
  exact u64_same (by omega) (h.sub ⟨by simp only; omega, by simp only; omega⟩)

end SameOn

/-! ## What stays as it was -/

/-- The fields of a section header that the loader does not write: all but `sh_addr`. -/
structure SameHeader (b b' : Buf) (h : Word) : Prop where
  front : SameOn b.mem b'.mem ⟨h.toNat + 0, 16⟩
  back : SameOn b.mem b'.mem ⟨h.toNat + 24, 40⟩
  fits : h.toNat + 64 ≤ 2 ^ 64

namespace SameHeader

variable {b b' : Buf} {h : Word} (hs : SameHeader b b' h)

include hs

theorem type : Shdr.type b' h = Shdr.type b h :=
  field32_same hs.front (Nat.le_trans (by omega) hs.fits) (by omega) (by omega)

theorem flags : Shdr.flags b' h = Shdr.flags b h :=
  field64_same hs.front (Nat.le_trans (by omega) hs.fits) (by omega) (by omega)

theorem offset : Shdr.offset b' h = Shdr.offset b h :=
  field64_same hs.back (Nat.le_trans (by omega) hs.fits) (by omega) (by omega)

theorem size : Shdr.size b' h = Shdr.size b h :=
  field64_same hs.back (Nat.le_trans (by omega) hs.fits) (by omega) (by omega)

theorem link : Shdr.link b' h = Shdr.link b h :=
  field32_same hs.back (Nat.le_trans (by omega) hs.fits) (by omega) (by omega)

theorem info : Shdr.info b' h = Shdr.info b h :=
  field32_same hs.back (Nat.le_trans (by omega) hs.fits) (by omega) (by omega)

theorem addralign : Shdr.addralign b' h = Shdr.addralign b h :=
  field64_same hs.back (Nat.le_trans (by omega) hs.fits) (by omega) (by omega)

theorem entsize : Shdr.entsize b' h = Shdr.entsize b h :=
  field64_same hs.back (Nat.le_trans (by omega) hs.fits) (by omega) (by omega)

end SameHeader

theorem Buf.length_patch (b : Buf) (off : Word) (ws : List Write) :
    (b.patch off ws).length = b.length := List.length_ofFn

theorem Buf.mem_patch (b : Buf) (off : Word) (ws : List Write) {o : Nat} (ho : o < b.length) :
    (b.patch off ws).mem o = applyWrites ws b.mem off.toNat o := by
  rw [Buf.mem, List.getD_eq_getElem _ _ (by rwa [Buf.length_patch])]
  exact List.getElem_ofFn _

/-- A write changes nothing but the written bytes of the buffer. -/
theorem Buf.mem_patch_of_not_mem (b : Buf) (off : Word) (ws : List Write) {o : Nat}
    (ho : o < b.length → ¬ Range.Mem ⟨off.toNat, writesWidth ws⟩ o) :
    (b.patch off ws).mem o = b.mem o := by
  by_cases hlt : o < b.length
  · rw [Buf.mem_patch b off ws hlt]
    exact applyWrites_of_not_mem ws b.mem off.toNat o (ho hlt)
  · rw [Buf.mem, Buf.mem, List.getD_eq_default _ _ (by rw [Buf.length_patch]; omega),
      List.getD_eq_default _ _ (by omega)]

theorem Buf.length_setU64 (b : Buf) (off v : Word) : (b.setU64 off v).length = b.length := by
  simp [Buf.setU64, List.range_succ]

theorem Buf.mem_setU64_of_not_mem (b : Buf) {off : Word} (v : Word) (hoff : off.toNat + 8 ≤ 2 ^ 64)
    {o : Nat} (ho : ¬ Range.Mem ⟨off.toNat, 8⟩ o) : (b.setU64 off v).mem o = b.mem o := by
  have hbyte : ∀ (b : Buf) (j : Nat) (x : Byte), j < 8 →
      Buf.mem (b.set (off + BitVec.ofNat 64 j).toNat x) o = b.mem o := by
    intro b j x hj
    rw [toNat_add_of_lt (by omega), Buf.mem, Buf.mem, List.getD_eq_getElem?_getD,
      List.getElem?_set_ne (by simp only [Range.Mem] at ho; omega), List.getD_eq_getElem?_getD]
  -- eight stores, each of one byte
  simp only [Buf.setU64, List.range_succ, List.range_zero, List.nil_append, List.cons_append,
    List.foldl_cons, List.foldl_nil]
  repeat rw [hbyte _ _ _ (by omega)]

/-! ## What stays as it was -/

/-- The bytes of the symbols and of their names, and of the relocation entries. -/
def EntryByte (obj : Buf) (o : Nat) : Prop :=
  (∃ i < shnum obj, shType obj i = SHT_SYMTAB ∧ ∃ k < symCount obj i,
    Range.Mem ⟨(symAt obj i k).toNat, symSize⟩ o ∨
    obj.Inside (symAt obj i k) symSize ∧ FindsName obj i (symAt obj i k) ∧
      (nameRange obj (nameAt obj i (symAt obj i k))).Mem o) ∨
  ∃ i < shnum obj, Relocates obj i ∧ ∃ e < relaCount obj i,
    Range.Mem ⟨(relaEntry obj i e).toNat, relaSize⟩ o

/-- The bytes that keep their value while an object is loaded: the file header, the section
headers without the addresses, and the entries. -/
def Kept (obj : Buf) (o : Nat) : Prop :=
  ehdrRange.Mem o ∨
  (∃ i < shnum obj, Range.Mem ⟨(shdrAt obj i).toNat + 0, 16⟩ o ∨
    Range.Mem ⟨(shdrAt obj i).toNat + 24, 40⟩ o) ∨
  EntryByte obj o

/-- A state of the buffer while an object is loaded. -/
structure Loading (re : RtldElf) (obj b : Buf) : Prop where
  inside : TableInside obj
  reShdr : re.reShdr = eShoff obj
  length : b.length = obj.length
  kept : ∀ o, Kept obj o → b.mem o = obj.mem o

/-- Section headers lie one behind the other. -/
theorem toNat_shdrAt {obj : Buf} {i : Nat} (hsize : obj.length < 2 ^ 64)
    (htable : (eShoff obj).toNat + shdrSize * shnum obj ≤ obj.length) (hi : i < shnum obj) :
    (shdrAt obj i).toNat = (eShoff obj).toNat + shdrSize * i ∧
      shdrSize * i + shdrSize ≤ shdrSize * shnum obj := by
  have hlast : shdrSize * i + shdrSize ≤ shdrSize * shnum obj := by
    rw [← Nat.mul_succ]
    exact Nat.mul_le_mul_left _ hi
  exact ⟨toNat_add_of_lt (by rw [shdrSize] at *; omega), hlast⟩

theorem TableInside.shdr {obj : Buf} {i : Nat} (ht : TableInside obj) (hi : i < shnum obj) :
    (shdrAt obj i).toNat = (eShoff obj).toNat + 64 * i ∧
      (shdrAt obj i).toNat + 64 ≤ obj.length := by
  obtain ⟨hat, hlast⟩ := toNat_shdrAt ht.size ht.table hi
  have htable := ht.table
  rw [shdrSize] at *
  omega

/-- The fields of an unchanged symbol. -/
theorem sym_same {b b' : Buf} {sym : Word} (hs : SameOn b.mem b'.mem ⟨sym.toNat + 0, symSize⟩)
    (hfits : sym.toNat + symSize ≤ 2 ^ 64) :
    stShndx b' sym = stShndx b sym ∧ stName b' sym = stName b sym ∧
      stValue b' sym = stValue b sym ∧ isGlobalFunc b' sym = isGlobalFunc b sym := by
  rw [symSize] at *
  have hat₄ : (sym + 4#64).toNat = sym.toNat + 4 := toNat_add_of_lt (by omega)
  have hat₅ : (sym + 5#64).toNat = sym.toNat + 5 := toNat_add_of_lt (by omega)
  have hat₆ : (sym + 6#64).toNat = sym.toNat + 6 := toNat_add_of_lt (by omega)
  have hshndx : stShndx b' sym = stShndx b sym :=
    u16_same (by omega) (hs.sub ⟨by simp only; omega, by simp only; omega⟩)
  have hinfo : stInfo b' sym = stInfo b sym :=
    u8_same (hs.sub ⟨by simp only; omega, by simp only; omega⟩)
  have hother : stOther b' sym = stOther b sym :=
    u8_same (hs.sub ⟨by simp only; omega, by simp only; omega⟩)
  refine ⟨hshndx, ?_, ?_, ?_⟩
  · exact u32_same (by omega) (hs.sub ⟨le_rfl, by simp⟩)
  · exact field64_same hs (by omega) (by omega) (by omega)
  · rw [isGlobalFunc, isGlobalFunc, hinfo, hother, hshndx]

/-- The fields of an unchanged relocation entry. -/
theorem rela_same {b b' : Buf} {r : Word} (hs : SameOn b.mem b'.mem ⟨r.toNat + 0, relaSize⟩)
    (hfits : r.toNat + relaSize ≤ 2 ^ 64) :
    Rela.offset b' r = Rela.offset b r ∧ Rela.type b' r = Rela.type b r ∧
      Rela.sym b' r = Rela.sym b r ∧ Rela.addend b' r = Rela.addend b r := by
  rw [relaSize] at *
  have hinfo := field64_same hs (k := 8) (by omega) (by omega) (by omega)
  refine ⟨?_, ?_, ?_, ?_⟩
  · exact u64_same (by omega) (hs.sub ⟨le_rfl, by simp⟩)
  · rw [Rela.type, Rela.type, hinfo]
  · rw [Rela.sym, Rela.sym, hinfo]
  · exact field64_same hs (by omega) (by omega) (by omega)

/-! ## Names -/

theorem nameEnds_of_nul {s : List Byte} (h : 0#8 ∈ s) : NameEnds s := by
  cases s with
  | nil => cases h
  | cons c s =>
      rw [NameEnds]
      split_ifs with hc
      · rcases List.mem_cons.mp h with rfl | h
        · exact absurd hc (by decide)
        · exact ⟨0#8, h, by decide⟩
      · exact h

/-- Two strings that agree up to the NUL of one of them, or as a whole. -/
theorem string_cases {s s' : List Byte} (hlen : s'.length = s.length)
    (h : ∀ j ≤ (s.takeWhile (· ≠ 0#8)).length, s'.getD j 0#8 = s.getD j 0#8) :
    s' = s ∨ 0#8 ∈ s ∧ 0#8 ∈ s' ∧ s'.takeWhile (· ≠ 0#8) = s.takeWhile (· ≠ 0#8) := by
  induction s generalizing s' with
  | nil => exact .inl (List.length_eq_zero_iff.mp hlen)
  | cons c s ih =>
      cases s' with
      | nil => cases hlen
      | cons c' s' =>
          obtain rfl : c' = c := h 0 (Nat.zero_le _)
          by_cases hc : c' = 0#8
          · subst hc
            exact .inr ⟨List.mem_cons_self, List.mem_cons_self, rfl⟩
          · have htake : ∀ t : List Byte, (c' :: t).takeWhile (· ≠ 0#8) = c' :: t.takeWhile (· ≠ 0#8) :=
              fun t => List.takeWhile_cons_of_pos (by simpa using hc)
            rw [htake] at h
            rcases ih (Nat.succ.inj hlen) (fun j hj => h (j + 1) (Nat.succ_le_succ hj)) with
              rfl | ⟨hs, hs', hsame⟩
            · exact .inl rfl
            · rw [htake, htake, hsame]
              exact .inr ⟨List.mem_cons_of_mem _ hs, List.mem_cons_of_mem _ hs', rfl⟩

section Loading

variable {re : RtldElf} {obj b : Buf} {i j k e : Nat}

/-- What is read of an unchanged name. -/
theorem name_same {off : Word} (hlen : b.length = obj.length)
    (hs : SameOn obj.mem b.mem (nameRange obj off)) :
    (NameEnds (b.drop off.toNat) ↔ NameEnds (obj.drop off.toNat)) ∧
      (0#8 ∈ b.drop off.toNat ↔ 0#8 ∈ obj.drop off.toNat) ∧ b.cstr off = obj.cstr off := by
  have hbytes : ∀ j ≤ ((obj.drop off.toNat).takeWhile (· ≠ 0#8)).length,
      (b.drop off.toNat).getD j 0#8 = (obj.drop off.toNat).getD j 0#8 := by
    intro j hj
    rw [List.getD_eq_getElem?_getD, List.getD_eq_getElem?_getD, List.getElem?_drop,
      List.getElem?_drop, ← List.getD_eq_getElem?_getD, ← List.getD_eq_getElem?_getD]
    refine hs _ ⟨Nat.le_add_right _ _, ?_⟩
    exact Nat.add_lt_add_left (Nat.lt_succ_of_le hj) _
  rcases string_cases (by rw [List.length_drop, List.length_drop, hlen]) hbytes with
    hsame | ⟨hnul, hnul', hsame⟩
  · rw [hsame, Buf.cstr, Buf.cstr, hsame]
    exact ⟨Iff.rfl, Iff.rfl, rfl⟩
  · exact ⟨iff_of_true (nameEnds_of_nul hnul') (nameEnds_of_nul hnul), iff_of_true hnul' hnul, hsame⟩

theorem readName_same {off : Word} (hlen : b.length = obj.length)
    (hs : SameOn obj.mem b.mem (nameRange obj off)) :
    RtldElf.readName b off = RtldElf.readName obj off := by
  obtain ⟨hends, -, hstr⟩ := name_same hlen hs
  refine need_congr hends fun _ => ?_
  rw [hstr]

/-- The object as it was. -/
theorem Loading.refl (ht : TableInside obj) (hre : re.reShdr = eShoff obj) : Loading re obj obj :=
  ⟨ht, hre, rfl, fun _ _ => rfl⟩

namespace Loading

variable (h : Loading re obj b)

include h

theorem shdr (i : Nat) : re.shdr i = shdrAt obj i := by
  rw [RtldElf.shdr, h.reShdr, shdrAt]

theorem eShnum_same : eShnum b = eShnum obj :=
  u16_same (by decide) fun o ho => h.kept o (.inl (Range.Within.mem (by decide) ho))

theorem eShoff_same : eShoff b = eShoff obj :=
  u64_same (by decide) fun o ho => h.kept o (.inl (Range.Within.mem (by decide) ho))

theorem shnum_same : shnum b = shnum obj := congrArg BitVec.toNat h.eShnum_same

theorem shdrAt_same (j : Nat) : shdrAt b j = shdrAt obj j := by
  rw [shdrAt, shdrAt, h.eShoff_same]

theorem inside_iff (off : Word) (len : Nat) : b.Inside off len ↔ obj.Inside off len := by
  rw [Buf.Inside, Buf.Inside, h.length]

theorem covers_iff (off : Word) (len : Nat) : b.Covers off len ↔ obj.Covers off len := by
  rw [Buf.Covers, Buf.Covers, h.inside_iff]

theorem inside_shdr (hi : i < shnum obj) : b.Inside (re.shdr i) shdrSize := by
  rw [h.inside_iff, h.shdr]
  exact (h.inside.shdr hi).2

theorem header (hi : i < shnum obj) : SameHeader obj b (shdrAt obj i) where
  front := fun o ho => h.kept o (.inr (.inl ⟨i, hi, .inl ho⟩))
  back := fun o ho => h.kept o (.inr (.inl ⟨i, hi, .inr ho⟩))
  fits := (h.inside.shdr hi).2.trans h.inside.size.le

/-- The fields of a header but its address. -/
theorem at_shdr (hi : i < shnum obj) :
    Shdr.type b (re.shdr i) = shType obj i ∧ Shdr.flags b (re.shdr i) = shFlags obj i ∧
      Shdr.offset b (re.shdr i) = shOffset obj i ∧ Shdr.size b (re.shdr i) = shSize obj i ∧
      Shdr.link b (re.shdr i) = shLink obj i ∧ Shdr.info b (re.shdr i) = shInfo obj i ∧
      Shdr.addralign b (re.shdr i) = shAddralign obj i ∧
      Shdr.entsize b (re.shdr i) = shEntsize obj i := by
  have hhdr := h.header hi
  rw [h.shdr]
  exact ⟨hhdr.type, hhdr.flags, hhdr.offset, hhdr.size, hhdr.link, hhdr.info, hhdr.addralign,
    hhdr.entsize⟩

theorem fields (hi : i < shnum obj) :
    shType b i = shType obj i ∧ shFlags b i = shFlags obj i ∧ shOffset b i = shOffset obj i ∧
      shSize b i = shSize obj i ∧ shLink b i = shLink obj i ∧ shInfo b i = shInfo obj i ∧
      shAddralign b i = shAddralign obj i ∧ shEntsize b i = shEntsize obj i := by
  have hfields := h.at_shdr hi
  rwa [h.shdr, ← h.shdrAt_same] at hfields

/-! ## Entries -/

theorem symbol_same (hi : i < shnum obj) (htype : shType obj i = SHT_SYMTAB)
    (hk : k < symCount obj i) (hin : obj.Inside (symAt obj i k) symSize) :
    stShndx b (symAt obj i k) = stShndx obj (symAt obj i k) ∧
      stName b (symAt obj i k) = stName obj (symAt obj i k) ∧
      stValue b (symAt obj i k) = stValue obj (symAt obj i k) ∧
      isGlobalFunc b (symAt obj i k) = isGlobalFunc obj (symAt obj i k) :=
  sym_same (fun o ho => h.kept o (.inr (.inr (.inl ⟨i, hi, htype, k, hk, .inl ho⟩))))
    (hin.trans h.inside.size.le)

theorem name (hi : i < shnum obj) (htype : shType obj i = SHT_SYMTAB) (hk : k < symCount obj i)
    (hin : obj.Inside (symAt obj i k) symSize) (hfind : FindsName obj i (symAt obj i k)) :
    SameOn obj.mem b.mem (nameRange obj (nameAt obj i (symAt obj i k))) :=
  fun o ho => h.kept o (.inr (.inr (.inl ⟨i, hi, htype, k, hk, .inr ⟨hin, hfind, ho⟩⟩)))

theorem relaEntry_same (hi : i < shnum obj) (hrel : Relocates obj i) (he : e < relaCount obj i)
    (hin : obj.Inside (relaEntry obj i e) relaSize) :
    Rela.offset b (relaEntry obj i e) = Rela.offset obj (relaEntry obj i e) ∧
      Rela.type b (relaEntry obj i e) = Rela.type obj (relaEntry obj i e) ∧
      Rela.sym b (relaEntry obj i e) = Rela.sym obj (relaEntry obj i e) ∧
      Rela.addend b (relaEntry obj i e) = Rela.addend obj (relaEntry obj i e) :=
  rela_same (fun o ho => h.kept o (.inr (.inr (.inr ⟨i, hi, hrel, e, he, ho⟩))))
    (hin.trans h.inside.size.le)

/-- `rtld_elf_resolve_str`. -/
theorem resolveStr_eq (t k : Nat) :
    re.resolveStr b t k = if FindsStr obj t k then .ok (strAt obj t k) else fail .EINVAL := by
  by_cases hidx : t = 0 ∨ shnum obj ≤ t
  · have hnot : ¬ FindsStr obj t k := fun hfind => by
      rcases hidx with rfl | hle
      · exact hfind.1 rfl
      · exact absurd hfind.2.1 (Nat.not_lt.mpr hle)
    rw [if_neg hnot, RtldElf.resolveStr, reject_bind_of (by rwa [h.eShnum_same])]
  · obtain ⟨hzero, hlt⟩ := not_or.mp hidx
    rw [Nat.not_le] at hlt
    obtain ⟨htype', -, hoffset', hsize', -⟩ := h.at_shdr hlt
    rw [RtldElf.resolveStr, reject_bind_of_not (by rwa [h.eShnum_same]),
      need_bind_of (h.inside_shdr hlt), htype', hsize', hoffset']
    by_cases htype : shType obj t = SHT_STRTAB
    · rw [reject_bind_of_not (not_not.mpr htype)]
      by_cases hk : k < (shSize obj t).toNat
      · rw [if_pos ⟨hzero, hlt, htype, hk⟩, reject_bind_of_not (Nat.not_le.mpr hk)]
        rfl
      · rw [if_neg fun hfind => hk hfind.2.2.2, reject_bind_of (Nat.not_lt.mp hk)]
    · rw [if_neg fun hfind => htype hfind.2.2.1, reject_bind_of htype]

end Loading

end Loading

section Objects

open Lib.Bytes (le)

/-- The file header of a relocatable object. -/
def elfHeader (machine shoff shnum : Nat) : Buf :=
  [[0x7f#8, 0x45#8, 0x4c#8, 0x46#8, 2#8, 1#8, 1#8], List.replicate 9 0#8,
    le 2 1, le 2 machine, le 4 1, le 8 0, le 8 0, le 8 shoff, le 4 0,
    le 2 64, le 2 0, le 2 0, le 2 64, le 2 shnum, le 2 0].flatten

def relaBytes (offset type sym : Nat) : Buf :=
  [le 8 offset, le 4 type, le 4 sym, le 8 0].flatten

def symBytes (name info shndx value : Nat) : Buf :=
  [le 4 name, le 1 info, le 1 0, le 2 shndx, le 8 value, le 8 0].flatten

/-- A section header with its `sh_info`. -/
def relaShdrBytes (type flags offset size link info entsize : Nat) : Buf :=
  [le 4 0, le 4 type, le 8 flags, le 8 0, le 8 offset, le 8 size, le 4 link, le 4 info,
    le 8 8, le 8 entsize].flatten

/-- A RISC-V object whose `.text` is `auipc a0; addi a0, a0`, the address of a symbol: header,
`.text`, `.rela.text`, `.symtab` with the label of the auipc and the symbol, section headers,
`.strtab`. -/
def auipcObject (name : List Byte) (shndx value : Nat) : Buf :=
  [elfHeader 243 192 5,
    le 4 0x00000517, le 4 0x00050513,
    relaBytes 0 23 2, relaBytes 4 24 1,
    symBytes 0 0 0 0, symBytes 0 0 1 0, symBytes 1 0x10 shndx value,
    shdrBytes 0 0 0 0 0 0 0, shdrBytes 1 6 64 8 0 4 0, relaShdrBytes 4 0x40 72 48 3 1 24,
    shdrBytes 2 0 120 72 4 8 24, shdrBytes 3 0 512 (name.length + 2) 0 1 0,
    [0#8], name, [0#8]].flatten

/-- The object for the absolute address 0x400000003000. -/
def auipcAbsolute : Buf := auipcObject [0x78#8] 0xfff1 0x400000003000

/-- A RISC-V host with an empty index, whose arena puts the object at 0x400000002000. -/
def riscvElf : RtldElf := ⟨.riscv, 0#64, 0#64, rtldEmpty, 0x400000000000#64⟩

def riscvArena : RtldElf.Arena where
  memAllocCode := fun _ _ => .ok 0x400000002000#64
  memWriteCode := fun _ _ _ _ => .ok ()
  -- stubs are 0x40 bytes apart
  stubs := fun _ => ⟨fun k _ => .ok (if k = 0 then 0x4000000027c0#64 else 0x400000002800#64),
    fun _ => .ok⟩

end Objects

end Instrew.Client
