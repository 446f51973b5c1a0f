import Instrew.Client.CodeIndex
import Instrew.Client.SymbolName
import Instrew.Lib.Bytes

/-!
# Loading a translated object

`rtld_add_object` of `client/rtld.c` with the functions it reads the object
through, `rtld_elf_init` and `rtld_elf_resolve_str`.
The object is the received buffer, and it is changed in place: the layout pass
writes the section addresses into the section headers, the relocation pass
patches section contents. What surrounds the loader (the code arena and the
processing of one relocation section) is the record `LoadEnv`, so every result
below holds whatever these answer.

The last pass is the one that matters for the code-cache index: it is a
sequence of `rtld_set` calls, and nothing else touches the index
(`rtldAddObject_kept`).
-/

namespace Instrew.Client

/-! ## The object buffer -/

/-- The received object. Offsets are relative to `obj_base` and wrap as
pointers do; a byte past the end reads as 0. -/
abbrev Buf : Type := List Byte

def Buf.u8 (b : Buf) (off : Word) : Byte := b.getD off.toNat 0#8

def Buf.u16 (b : Buf) (off : Word) : BitVec 16 := b.u8 (off + 1#64) ++ b.u8 off

def Buf.u32 (b : Buf) (off : Word) : BitVec 32 := b.u16 (off + 2#64) ++ b.u16 off

def Buf.u64 (b : Buf) (off : Word) : Word := b.u32 (off + 4#64) ++ b.u32 off

/-- Store a 64-bit value, least significant byte first. -/
def Buf.setU64 (b : Buf) (off v : Word) : Buf :=
  (List.range 8).foldl
    (fun b i => b.set (off + BitVec.ofNat 64 i).toNat ((v >>> (8 * i)).setWidth 8)) b

/-- The characters up to the terminating NUL. -/
def Buf.cstr (b : Buf) (off : Word) : List Byte :=
  (b.drop off.toNat).takeWhile (· ≠ 0#8)

/-! ## Header fields

Offsets of `Elf64_Ehdr`, `Elf64_Shdr` and `Elf64_Sym`. -/

def ehdrSize : Nat := 64
def shdrSize : Nat := 64
def symSize : Nat := 24

def eType (b : Buf) : BitVec 16 := b.u16 16#64
def eMachine (b : Buf) : BitVec 16 := b.u16 18#64
def eShoff (b : Buf) : Word := b.u64 40#64
def eShentsize (b : Buf) : BitVec 16 := b.u16 58#64
def eShnum (b : Buf) : BitVec 16 := b.u16 60#64

/-- The sections of an object. -/
def sections (obj : Buf) : List Nat := List.range (eShnum obj).toNat

/-- Where section header `i` is: `re->re_shdr + i`. -/
def shdrAt (b : Buf) (i : Nat) : Word := eShoff b + BitVec.ofNat 64 (shdrSize * i)

def shType (b : Buf) (i : Nat) : BitVec 32 := b.u32 (shdrAt b i + 4#64)
def shFlags (b : Buf) (i : Nat) : Word := b.u64 (shdrAt b i + 8#64)
def shAddr (b : Buf) (i : Nat) : Word := b.u64 (shdrAt b i + 16#64)
def shOffset (b : Buf) (i : Nat) : Word := b.u64 (shdrAt b i + 24#64)
def shSize (b : Buf) (i : Nat) : Word := b.u64 (shdrAt b i + 32#64)
def shLink (b : Buf) (i : Nat) : BitVec 32 := b.u32 (shdrAt b i + 40#64)
def shAddralign (b : Buf) (i : Nat) : Word := b.u64 (shdrAt b i + 48#64)
def shEntsize (b : Buf) (i : Nat) : Word := b.u64 (shdrAt b i + 56#64)

def setShAddr (b : Buf) (i : Nat) (v : Word) : Buf := b.setU64 (shdrAt b i + 16#64) v

def SHT_PROGBITS : BitVec 32 := 1#32
def SHT_SYMTAB : BitVec 32 := 2#32
def SHT_STRTAB : BitVec 32 := 3#32
def SHT_RELA : BitVec 32 := 4#32
def SHF_ALLOC : Word := 2#64

/-- The accepted flags:
`SHF_ALLOC|SHF_EXECINSTR|SHF_MERGE|SHF_STRINGS|SHF_INFO_LINK|SHF_WRITE`. -/
def acceptedFlags : Word := 0x77#64

def stName (b : Buf) (sym : Word) : BitVec 32 := b.u32 sym
def stInfo (b : Buf) (sym : Word) : Byte := b.u8 (sym + 4#64)
def stOther (b : Buf) (sym : Word) : Byte := b.u8 (sym + 5#64)
def stShndx (b : Buf) (sym : Word) : BitVec 16 := b.u16 (sym + 6#64)
def stValue (b : Buf) (sym : Word) : Word := b.u64 (sym + 8#64)

/-! ## Reading names -/

/-- `rtld_elf_resolve_str`: the string at `str_idx` of a string table. -/
def rtldElfResolveStr (b : Buf) (strtabIdx strIdx : BitVec 32) : Except Errno (List Byte) :=
  if strtabIdx = 0#32 ∨ (eShnum b).toNat ≤ strtabIdx.toNat then .error .EINVAL
  else if shType b strtabIdx.toNat ≠ SHT_STRTAB then .error .EINVAL
  else if (shSize b strtabIdx.toNat).toNat ≤ strIdx.toNat then .error .EINVAL
  else .ok (b.cstr (shOffset b strtabIdx.toNat + strIdx.setWidth 64))

/-! ## The passes of `rtld_add_object` -/

/-- What the loader calls besides the code-cache index. `emCurrent` is the
host's `EM_CURRENT`. -/
structure LoadEnv : Type where
  emCurrent : BitVec 16
  /-- `mem_alloc_code(size, align)`: the block, or the error of a `BAD_ADDR`. -/
  memAllocCode : Word → Word → Except Errno Word
  /-- `mem_write_code(dst, src, size)`. -/
  memWriteCode : Word → Buf → Word → Word → Except Errno Unit
  /-- `rtld_elf_process_rela(re, i)`: the buffer with section `i`'s
  relocations applied. -/
  rtldElfProcessRela : Objects → Word → Buf → Nat → Except Errno Buf

/-- `ALIGN_UP`. -/
def alignUp (v a : Word) : Word := (v + (a - 1#64)) &&& ~~~(a - 1#64)

/-- `rtld_elf_init`. -/
def rtldElfInit (env : LoadEnv) (b : Buf) : Except Errno Unit :=
  if b.length < ehdrSize then .error .EINVAL
  else if b.take 4 ≠ [0x7f#8, 0x45#8, 0x4c#8, 0x46#8] then .error .EINVAL
  else if eType b ≠ 1#16 then .error .EINVAL
  else if b.u8 4#64 ≠ 2#8 then .error .EINVAL
  else if eMachine b ≠ env.emCurrent then .error .EINVAL
  else if (eShentsize b).toNat ≠ shdrSize then .error .EINVAL
  else if b.length <
      (eShoff b + BitVec.ofNat 64 ((eShentsize b).toNat * (eShnum b).toNat)).toNat then
    .error .EINVAL
  else .ok ()

/-- The first pass on section `i`: check the flags, place the section. -/
def layoutSection (st : Buf × Word × Word) (i : Nat) : Except Errno (Buf × Word × Word) :=
  let (b, totsz, totalign) := st
  if shFlags b i &&& ~~~acceptedFlags ≠ 0#64 then .error .EINVAL
  else if shFlags b i &&& SHF_ALLOC ≠ 0#64 then
    let off := alignUp totsz (shAddralign b i)
    .ok (setShAddr b i off, off + shSize b i,
      if totalign < shAddralign b i then shAddralign b i else totalign)
  else .ok st

/-- Add the allocated base to the section addresses. -/
def rebaseSection (base : Word) (b : Buf) (i : Nat) : Buf :=
  if shFlags b i &&& SHF_ALLOC ≠ 0#64 then setShAddr b i (shAddr b i + base) else b

/-- The second pass on section `i`. -/
def relocSection (env : LoadEnv) (objects : Objects) (skew : Word) (b : Buf) (i : Nat) :
    Except Errno Buf :=
  if shType b i ≠ SHT_RELA then .ok b
  else env.rtldElfProcessRela objects skew b i

/-- The third pass on section `i`. -/
def copySection (env : LoadEnv) (b : Buf) (i : Nat) : Except Errno Buf :=
  if shType b i ≠ SHT_PROGBITS then .ok b
  else do
    env.memWriteCode (shAddr b i) b (shOffset b i) (shSize b i)
    return b

/-- Everything before the last pass: the buffer that pass reads. -/
def rtldPlaceObject (env : LoadEnv) (objects : Objects) (b : Buf) (skew : Word) :
    Except Errno Buf := do
  rtldElfInit env b
  let secs := sections b
  let (b, totsz, totalign) ← secs.foldlM layoutSection (b, 0#64, 1#64)
  let base ← env.memAllocCode totsz totalign
  let b := secs.foldl (rebaseSection base) b
  let b ← secs.foldlM (relocSection env objects skew) b
  secs.foldlM (copySection env) b

/-! ## The last pass -/

/-- The symbols the last pass registers: global, function, default visibility,
defined. -/
def isGlobalFunc (b : Buf) (sym : Word) : Bool :=
  stInfo b sym >>> 4 == 1#8 && stInfo b sym &&& 0xf#8 == 2#8 &&
    stOther b sym &&& 3#8 == 0#8 && stShndx b sym != 0#16

/-- Symbol `k` of the symbol table in section `sec`. -/
def symAt (b : Buf) (sec k : Nat) : Word := shOffset b sec + BitVec.ofNat 64 (symSize * k)

/-- The number of symbols in the symbol table in section `sec`. -/
def symCount (b : Buf) (sec : Nat) : Nat := (shSize b sec).toNat / symSize

/-- The global functions of the object, each with its symbol table. -/
def globalFuncs (b : Buf) (secs : List Nat) : List (Nat × Word) :=
  ((secs.filter (fun sec => shType b sec = SHT_SYMTAB)).flatMap
    (fun sec => (List.range (symCount b sec)).map (fun k => (sec, symAt b sec k)))).filter
      (fun p => isGlobalFunc b p.2)

/-- The loop body of the last pass for one symbol of symbol table `sec`:
`some r` leaves the function with `r`, `none` goes on. -/
def registerSym (objects : Objects) (b : Buf) (objBase skew : Word) (sec : Nat) (sym : Word) :
    Option (Except Errno Unit) × Objects :=
  if !isGlobalFunc b sym then (none, objects)
  else if (eShnum b).toNat ≤ (stShndx b sym).toNat then (some (.error .EINVAL), objects)
  else
    let entry := shAddr b (stShndx b sym).toNat + stValue b sym
    match rtldElfResolveStr b (shLink b sec) (stName b sym) with
    | .error _ => (some (.error .EINVAL), objects)
    | .ok name =>
        match rtldElfDecodeName skew name 0#64 with
        | (.error e, _) => (some (.error e), objects)
        | (.ok _, addr) =>
            -- an undecodable name leaves with the code 0 of the decoder
            if addr = 0#64 then (some (.ok ()), objects)
            else
              match rtldSet objects ⟨addr, entry, objBase, BitVec.ofNat 64 b.length⟩ with
              | (.error e, objects) => (some (.error e), objects)
              | (.ok _, objects) => (none, objects)

/-- The symbols of table `sec` from the `k`-th on, `m` of them left. -/
def registerSyms (b : Buf) (objBase skew : Word) (sec : Nat) :
    Nat → Nat → Objects → Option (Except Errno Unit) × Objects
  | 0, _, objects => (none, objects)
  | m + 1, k, objects =>
      match registerSym objects b objBase skew sec (symAt b sec k) with
      | (some r, objects) => (some r, objects)
      | (none, objects) => registerSyms b objBase skew sec m (k + 1) objects

/-- The symbol table sections of the list, in order. -/
def registerSecs (b : Buf) (objBase skew : Word) :
    List Nat → Objects → Except Errno Unit × Objects
  | [], objects => (.ok (), objects)
  | sec :: secs, objects =>
      if shType b sec ≠ SHT_SYMTAB then registerSecs b objBase skew secs objects
      else if (shEntsize b sec).toNat ≠ symSize then (.error .EINVAL, objects)
      else
        match registerSyms b objBase skew sec (symCount b sec) 0 objects with
        | (some r, objects) => (r, objects)
        | (none, objects) => registerSecs b objBase skew secs objects

/-- `rtld_add_object`: the returned code, and the index afterwards. -/
def rtldAddObject (env : LoadEnv) (objects : Objects) (obj : Buf) (objBase skew : Word) :
    Except Errno Unit × Objects :=
  match rtldPlaceObject env objects obj skew with
  | .error e => (.error e, objects)
  | .ok b => registerSecs b objBase skew (sections obj) objects

/-! ## The index changes by `rtld_set` only -/

/-- A property of the index that every registration made for this object
keeps. `Reg` is what is known about the registered objects. -/
structure KeptBySets (P : Objects → Prop) (Reg : RtldObject → Prop) : Prop where
  step : ∀ objects new, P objects → Reg new → P (rtldSet objects new).2

section Kept

variable {P : Objects → Prop} {Reg : RtldObject → Prop} {b : Buf} {objBase skew : Word}

/-- What the last pass may register for a symbol: the address its name
decodes to, with the place of the symbol. -/
structure RegOfSym (b : Buf) (skew : Word) (sec : Nat) (sym : Word) (new : RtldObject) : Prop where
  func : isGlobalFunc b sym = true
  shndx_lt : (stShndx b sym).toNat < (eShnum b).toNat
  name : ∃ name, rtldElfResolveStr b (shLink b sec) (stName b sym) = .ok name ∧
    rtldElfDecodeName skew name 0#64 = (.ok (), new.addr)
  entry : new.entry = shAddr b (stShndx b sym).toNat + stValue b sym

theorem registerSym_kept (hP : KeptBySets P Reg) {sec : Nat} {sym : Word}
    (hReg : ∀ new, RegOfSym b skew sec sym new → Reg new) {objects : Objects}
    (h : P objects) : P (registerSym objects b objBase skew sec sym).2 := by
  unfold registerSym
  split_ifs with hfun hidx
  · exact h
  · exact h
  · simp only
    split
    · exact h
    · rename_i name hname
      split
      · exact h
      · rename_i u addr hdec
        split_ifs with h0
        · exact h
        · have hstep := hP.step objects
            ⟨addr, shAddr b (stShndx b sym).toNat + stValue b sym, objBase,
              BitVec.ofNat 64 b.length⟩ h
            (hReg _ ⟨by simpa using hfun, Nat.not_le.mp hidx, ⟨name, hname, hdec⟩, rfl⟩)
          split
          · rename_i e o hset
            rwa [hset] at hstep
          · rename_i u' o hset
            rwa [hset] at hstep

theorem registerSyms_kept (hP : KeptBySets P Reg) {sec : Nat} :
    ∀ (m k : Nat) {objects : Objects},
      (∀ j new, j < k + m → RegOfSym b skew sec (symAt b sec j) new → Reg new) →
      P objects → P (registerSyms b objBase skew sec m k objects).2
  | 0, _, _, _, h => h
  | m + 1, k, objects, hReg, h => by
      have hsym : P (registerSym objects b objBase skew sec (symAt b sec k)).2 :=
        registerSym_kept hP (fun new => hReg k new (by omega)) h
      rw [registerSyms]
      split
      · rename_i r o heq
        rwa [heq] at hsym
      · rename_i o heq
        rw [heq] at hsym
        exact registerSyms_kept hP m (k + 1) (fun j new hj => hReg j new (by omega)) hsym

theorem registerSecs_kept (hP : KeptBySets P Reg) :
    ∀ (secs : List Nat) {objects : Objects},
      (∀ p ∈ globalFuncs b secs, ∀ new, RegOfSym b skew p.1 p.2 new → Reg new) →
      P objects → P (registerSecs b objBase skew secs objects).2
  | [], _, _, h => h
  | sec :: secs, objects, hReg, h => by
      have hrest : ∀ p ∈ globalFuncs b secs, ∀ new, RegOfSym b skew p.1 p.2 new → Reg new := by
        intro p hp
        apply hReg p
        unfold globalFuncs at hp ⊢
        rw [List.mem_filter] at hp ⊢
        refine ⟨?_, hp.2⟩
        rw [List.filter_cons]
        split_ifs
        · rw [List.flatMap_cons]
          exact List.mem_append_right _ hp.1
        · exact hp.1
      rw [registerSecs]
      split_ifs with hty hent
      · exact registerSecs_kept hP secs hrest h
      · exact h
      · have hsec : ∀ j new, j < 0 + symCount b sec →
            RegOfSym b skew sec (symAt b sec j) new → Reg new := by
          intro j new hj hnew
          refine hReg (sec, symAt b sec j) ?_ new hnew
          unfold globalFuncs
          rw [List.mem_filter]
          refine ⟨?_, hnew.func⟩
          rw [List.filter_cons_of_pos (by simpa using hty), List.flatMap_cons]
          apply List.mem_append_left
          exact List.mem_map.mpr ⟨j, List.mem_range.mpr (by omega), rfl⟩
        have hsyms : P (registerSyms b objBase skew sec (symCount b sec) 0 objects).2 :=
          registerSyms_kept hP (symCount b sec) 0 hsec h
        split
        · rename_i r o heq
          rwa [heq] at hsyms
        · rename_i o heq
          rw [heq] at hsyms
          exact registerSecs_kept hP secs hrest hsyms

end Kept

/-- Loading an object keeps every property of the index that the
registrations of its global functions keep. -/
theorem rtldAddObject_kept {P : Objects → Prop} {Reg : RtldObject → Prop}
    (hP : KeptBySets P Reg) {env : LoadEnv} {objects : Objects} {obj : Buf}
    {objBase skew : Word}
    (hReg : ∀ b, rtldPlaceObject env objects obj skew = .ok b →
      ∀ p ∈ globalFuncs b (sections obj), ∀ new, RegOfSym b skew p.1 p.2 new → Reg new)
    (h : P objects) : P (rtldAddObject env objects obj objBase skew).2 := by
  unfold rtldAddObject
  split
  · exact h
  · rename_i b hb
    exact registerSecs_kept hP _ (hReg b hb) h

/-! ## A smallest object

One function in `.text`, under a given name. -/

open Lib.Bytes (le)

def shdrBytes (type flags offset size link addralign entsize : Nat) : Buf :=
  le 4 0 ++ le 4 type ++ le 8 flags ++ le 8 0 ++ le 8 offset ++ le 8 size ++ le 4 link ++
    le 4 0 ++ le 8 addralign ++ le 8 entsize

/-- The x86-64 object: header, `.text`, `.symtab`, section headers, `.strtab`. -/
def objectNamed (name : List Byte) : Buf :=
  [0x7f#8, 0x45#8, 0x4c#8, 0x46#8, 2#8, 1#8, 1#8] ++ List.replicate 9 0#8 ++
    le 2 1 ++ le 2 62 ++ le 4 1 ++ le 8 0 ++ le 8 0 ++ le 8 120 ++ le 4 0 ++
    le 2 64 ++ le 2 0 ++ le 2 0 ++ le 2 64 ++ le 2 4 ++ le 2 0 ++
    -- .text, then the null symbol and the function
    [0xc3#8] ++ List.replicate 7 0#8 ++
    List.replicate 24 0#8 ++ le 4 1 ++ [0x12#8, 0#8] ++ le 2 1 ++ le 8 0 ++ le 8 1 ++
    shdrBytes 0 0 0 0 0 0 0 ++ shdrBytes 1 6 64 1 0 16 0 ++ shdrBytes 2 0 72 48 3 8 24 ++
    shdrBytes 3 0 376 (name.length + 2) 0 1 0 ++
    [0#8] ++ name ++ [0#8]

/-- An x86-64 host whose arena answers with its first block. -/
def firstBlockEnv : LoadEnv where
  emCurrent := 62#16
  memAllocCode := fun _ _ => .ok 0x400000000000#64
  memWriteCode := fun _ _ _ _ => .ok ()
  rtldElfProcessRela := fun _ _ b _ => .ok b

/-- `Z20010000`, an absolute name of address 0x401000. -/
def absoluteName : List Byte := 0x5a#8 :: [2, 0, 0, 1, 0, 0, 0, 0].map octalChar

end Instrew.Client
