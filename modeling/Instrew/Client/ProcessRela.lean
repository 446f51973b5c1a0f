import Instrew.Client.Reloc
import Instrew.Lib.Access

/-!
# Relocating a section

`rtld_elf_process_rela` of `client/rtld.c` and what it reads the object through:
`rtld_elf_resolve_str`, `rtld_elf_resolve_sym` and `rtld_riscv_lookup_hi20_target`. The
functions follow offsets of the object without a bound of their own, so each access states
the bytes it touches and faults when they are not all in the buffer. A header, a symbol
and a relocation entry are touched as a whole, a name up to the last character that is
looked at.

What the functions ask of the code arena is numbered by the call: entry `e` of the section
resolves its symbol in call `2 * e`, and a RISC-V low half resolves the symbol of its high
half in call `2 * e + 1`. The answers are a parameter, so they may depend on the call.
-/

namespace Instrew.Client

open Lib.Access Lib.ByteMem

/-! ## Accesses -/

/-- The `len` bytes at `off` are bytes of the buffer. -/
def Buf.Inside (b : Buf) (off : Word) (len : Nat) : Prop := off.toNat + len ≤ b.length

instance (b : Buf) (off : Word) (len : Nat) : Decidable (b.Inside off len) :=
  inferInstanceAs (Decidable (_ ≤ _))

/-- The same for a number of bytes that may be 0: then nothing is touched. -/
def Buf.Covers (b : Buf) (off : Word) (len : Nat) : Prop := len = 0 ∨ b.Inside off len

instance (b : Buf) (off : Word) (len : Nat) : Decidable (b.Covers off len) :=
  inferInstanceAs (Decidable (_ ∨ _))

def Buf.mem (b : Buf) : Mem := fun o => b.getD o 0#8

/-- The buffer after some writes at `off`. -/
def Buf.patch (b : Buf) (off : Word) (ws : List Write) : Buf :=
  List.ofFn fun i : Fin b.length => applyWrites ws b.mem off.toNat i

/-- `struct RtldElf` with what the functions read of `struct Rtld`. The section table is
`re_shdr`, kept from `rtld_elf_init`. -/
structure RtldElf : Type where
  host : Host
  reShdr : Word
  skew : Word
  objects : Objects
  plt : Word

/-- `re->re_shdr + i`. -/
def RtldElf.shdr (re : RtldElf) (i : Nat) : Word := re.reShdr + BitVec.ofNat 64 (shdrSize * i)

/-! Fields of a section header and of a relocation entry, by where it is. -/

namespace Shdr

def type (b : Buf) (h : Word) : BitVec 32 := b.u32 (h + 4#64)
def flags (b : Buf) (h : Word) : Word := b.u64 (h + 8#64)
def addr (b : Buf) (h : Word) : Word := b.u64 (h + 16#64)
def offset (b : Buf) (h : Word) : Word := b.u64 (h + 24#64)
def size (b : Buf) (h : Word) : Word := b.u64 (h + 32#64)
def link (b : Buf) (h : Word) : BitVec 32 := b.u32 (h + 40#64)
def info (b : Buf) (h : Word) : BitVec 32 := b.u32 (h + 44#64)
def addralign (b : Buf) (h : Word) : Word := b.u64 (h + 48#64)
def entsize (b : Buf) (h : Word) : Word := b.u64 (h + 56#64)

end Shdr

def relaSize : Nat := 24

namespace Rela

def offset (b : Buf) (r : Word) : Word := b.u64 r
def type (b : Buf) (r : Word) : BitVec 32 := (b.u64 (r + 8#64)).setWidth 32
def sym (b : Buf) (r : Word) : BitVec 32 := (b.u64 (r + 8#64) >>> 32).setWidth 32
def addend (b : Buf) (r : Word) : Word := b.u64 (r + 16#64)

end Rela

/-! ## Names -/

def chars (s : String) : List Byte := s.toList.map fun c => BitVec.ofNat 8 c.toNat

/-- The names of `plt_entries`. -/
def pltEntries (host : Host) : List String :=
  ["instrew_quick_dispatch", "instrew_full_dispatch",
    "syscall", "syscall_rv64", "syscall_aarch64", "cpuid",
    "__divti3", "__udivti3", "__modti3", "__umodti3",
    "floorf", "floor", "ceilf", "ceil", "roundf", "round", "truncf", "trunc", "fmaf", "fma",
    "instrew_tail_cdecl", "instrew_call_cdecl"] ++
  (if host = .x86_64 then ["instrew_tail_hhvm", "instrew_call_hhvm"] else []) ++
  ["memset", "dprintf"]

/-- The digits of `rtld_elf_decode_name`. -/
def IsOctal (c : Byte) : Prop := 0x30#8 ≤ c ∧ c < 0x38#8

instance : DecidablePred IsOctal := fun _ => inferInstanceAs (Decidable (_ ∧ _))

/-- The characters of a name that are looked at are all there. Names that start with `Z` or
`S` are decoded, which stops at the first character that is not a digit. All others are
looked for in tables, and printed when they are not found there: they need their NUL. -/
def NameEnds : List Byte → Prop
  | [] => False
  | c :: s => if c = 0x5a#8 ∨ c = 0x53#8 then ∃ d ∈ s, ¬ IsOctal d else 0#8 ∈ c :: s

instance : DecidablePred NameEnds
  | [] => .isFalse not_false
  | c :: s => inferInstanceAs (Decidable
      (if c = 0x5a#8 ∨ c = 0x53#8 then ∃ d ∈ s, ¬ IsOctal d else 0#8 ∈ c :: s))

/-- `PLT_FUNC_SIZE`. -/
def pltFuncSize : Host → Nat
  | .x86_64 => 8
  | .aarch64 => 8
  | .riscv => 16

namespace RtldElf

variable (re : RtldElf)

/-- `rtld_elf_resolve_str`: where the string is. -/
def resolveStr (b : Buf) (strtabIdx strIdx : Nat) : Checked Errno Word := do
  reject (strtabIdx = 0 ∨ (eShnum b).toNat ≤ strtabIdx) .EINVAL
  let strShdr := re.shdr strtabIdx
  need (b.Inside strShdr shdrSize)
  reject (Shdr.type b strShdr ≠ SHT_STRTAB) .EINVAL
  reject ((Shdr.size b strShdr).toNat ≤ strIdx) .EINVAL
  return Shdr.offset b strShdr + BitVec.ofNat 64 strIdx

/-- The name of a symbol. -/
def readName (b : Buf) (off : Word) : Checked Errno (List Byte) := do
  need (NameEnds (b.drop off.toNat))
  return b.cstr off

/-! ## Symbols -/

/-- The branch of `rtld_elf_resolve_sym` for an undefined symbol, by its name. -/
def resolveName (createStub : RtldPatchData → Except Errno Word) (patchData : RtldPatchData)
    (name : List Byte) : Except Errno Word :=
  if chars "glob_" <+: name then .error .EINVAL
  else if name = chars "instrew_baseaddr" then .ok re.skew
  else
    match rtldElfDecodeName re.skew name 0#64 with
    | (.ok _, addr) =>
        match rtldResolve re.objects addr with
        | .ok entry => .ok entry
        | .error _ => createStub { patchData with symAddr := addr }
    | (.error _, _) =>
        match ((pltEntries re.host).map chars).idxOf? name with
        | some i => .ok (re.plt + BitVec.ofNat 64 (i * pltFuncSize re.host))
        | none => .error .EINVAL

/-- `rtld_elf_resolve_sym`. -/
def resolveSym (b : Buf) (createStub : RtldPatchData → Except Errno Word) (symtabIdx symIdx : Nat)
    (patchData : RtldPatchData) : Checked Errno Word := do
  reject (symtabIdx = 0 ∨ (eShnum b).toNat ≤ symtabIdx) .EINVAL
  let symShdr := re.shdr symtabIdx
  need (b.Inside symShdr shdrSize)
  reject (Shdr.type b symShdr ≠ SHT_SYMTAB) .EINVAL
  reject ((Shdr.entsize b symShdr).toNat ≠ symSize) .EINVAL
  reject (symIdx = 0 ∨ (Shdr.size b symShdr).toNat / symSize ≤ symIdx) .EINVAL
  let sym := Shdr.offset b symShdr + BitVec.ofNat 64 (symSize * symIdx)
  need (b.Inside sym symSize)
  if stShndx b sym = 0#16 then
    -- a name that is not found is resolved as "<unknown>"
    let name ← orValue (chars "<unknown>")
      (re.resolveStr b (Shdr.link b symShdr).toNat (stName b sym).toNat >>= readName b)
    call (re.resolveName createStub patchData name)
  else if stShndx b sym = 0xfff1#16 then
    return stValue b sym
  else do
    reject ((eShnum b).toNat ≤ (stShndx b sym).toNat) .EINVAL
    let tgtShdr := re.shdr (stShndx b sym).toNat
    need (b.Inside tgtShdr shdrSize)
    return Shdr.addr b tgtShdr + stValue b sym

/-! ## The relocation section -/

/-- What `rtld_elf_process_rela` keeps in locals: the header of the section, its first
entry, the header of the target, where the target's bytes are, and the symbol table. -/
structure RelaSection : Type where
  relaShdr : Word
  elfRela : Word
  tgtShdr : Word
  secWriteAddr : Word
  symtabIdx : Nat

/-- The `e`-th entry from `r` on. -/
def relaAt (r : Word) (e : Nat) : Word := r + BitVec.ofNat 64 (relaSize * e)

/-- The relocation types that `rtld_riscv_lookup_hi20_target` takes for a high half:
`R_RISCV_PCREL_HI20`, `R_RISCV_GOT_HI20`, `R_RISCV_TLS_GOT_HI20`, `R_RISCV_TLS_GD_HI20`. -/
def hi20Types : List (BitVec 32) := [23#32, 20#32, 21#32, 22#32]

/-- The loop of `rtld_riscv_lookup_hi20_target`, `m` entries from the `e`-th on. -/
def lookupHi20From (b : Buf) (createStub : RtldPatchData → Except Errno Word) (sec : RelaSection)
    (hi20Offset : Word) : Nat → Nat → Checked Errno Word
  | 0, _ => fail .EINVAL
  | m + 1, e => do
      let rela := relaAt (Shdr.offset b sec.relaShdr) e
      need (b.Inside rela relaSize)
      if Rela.offset b rela = hi20Offset ∧ Rela.type b rela ∈ hi20Types then
        let dummy : RtldPatchData :=
          ⟨0#64, 0#32, 0#32, 0#64, Shdr.addr b sec.tgtShdr + Rela.offset b rela⟩
        let sym ← orFail .EINVAL (re.resolveSym b createStub
          (Shdr.link b sec.relaShdr).toNat (Rela.sym b rela).toNat dummy)
        return sym + Rela.addend b rela
      else lookupHi20From b createStub sec hi20Offset m (e + 1)

/-- `rtld_riscv_lookup_hi20_target`. -/
def lookupHi20Target (b : Buf) (createStub : RtldPatchData → Except Errno Word)
    (sec : RelaSection) (hi20Offset : Word) : Checked Errno Word :=
  re.lookupHi20From b createStub sec hi20Offset
    ((Shdr.size b sec.relaShdr).toNat / relaSize) 0

/-- What the code arena answers while one section is relocated. -/
structure Stubs : Type where
  /-- `rtld_patch_create_stub`, by call. -/
  rtldPatchCreateStub : Nat → RtldPatchData → Except Errno Word
  /-- `rtld_elf_add_stub` of an AArch64 host, by entry. -/
  rtldElfAddStub : Nat → Word → Except Errno Word

variable (stubs : Stubs)

/-- The rewriting of a RISC-V low half: a symbol and an addend that make `rtld_reloc_at`
emit the distance of its high half. -/
def rewriteLo12 (sec : RelaSection) (e : Nat) (b : Buf) (sym : Word) (patchData : RtldPatchData) :
    Checked Errno (Word × RtldPatchData) :=
  if re.host = .riscv ∧ (patchData.relType = 24#32 ∨ patchData.relType = 25#32) then do
    let hi20Target ← orFail .EINVAL (re.lookupHi20Target b
      (stubs.rtldPatchCreateStub (2 * e + 1)) sec (sym - Shdr.addr b sec.tgtShdr))
    return (hi20Target - sym, { patchData with addend := 0#64, patchAddr := 0#64 })
  else return (sym, patchData)

/-- The code of `rtld_reloc_at`, and the bytes it writes. A failing call touches none. -/
def relocAt (b : Buf) (tgt : Word) (r : Except Errno Unit × List Write) : Checked Errno Buf := do
  call r.1
  need (b.Covers tgt (writesWidth r.2))
  return b.patch tgt r.2

/-- The loop body of `rtld_elf_process_rela` for entry `e`. -/
def relaStep (sec : RelaSection) (e : Nat) (b : Buf) : Checked Errno Buf := do
  let elfRela := relaAt sec.elfRela e
  need (b.Inside elfRela relaSize)
  need (b.Inside sec.tgtShdr shdrSize)
  reject ((Shdr.size b sec.tgtShdr).toNat ≤ (Rela.offset b elfRela).toNat) .EINVAL
  let relocPatch : RtldPatchData := ⟨0#64, Rela.type b elfRela, 8#32, Rela.addend b elfRela,
    Shdr.addr b sec.tgtShdr + Rela.offset b elfRela⟩
  let sym ← orFail .EINVAL (re.resolveSym b (stubs.rtldPatchCreateStub (2 * e)) sec.symtabIdx
    (Rela.sym b elfRela).toNat relocPatch)
  let (sym, relocPatch) ← re.rewriteLo12 stubs sec e b sym relocPatch
  relocAt b (sec.secWriteAddr + Rela.offset b elfRela)
    (rtldRelocAt re.host (stubs.rtldElfAddStub e) relocPatch sym)

/-- The checks of `rtld_elf_process_rela`, before its loop. -/
def openRela (b : Buf) (relaIdx : Nat) : Checked Errno RelaSection := do
  reject (relaIdx = 0 ∨ (eShnum b).toNat ≤ relaIdx) .EINVAL
  let relaShdr := re.shdr relaIdx
  need (b.Inside relaShdr shdrSize)
  reject (Shdr.type b relaShdr ≠ SHT_RELA) .EINVAL
  reject ((Shdr.entsize b relaShdr).toNat ≠ relaSize) .EINVAL
  reject (Shdr.info b relaShdr = 0#32 ∨ (eShnum b).toNat ≤ (Shdr.info b relaShdr).toNat) .EINVAL
  let tgtShdr := re.shdr (Shdr.info b relaShdr).toNat
  need (b.Inside tgtShdr shdrSize)
  reject (Shdr.flags b tgtShdr &&& SHF_ALLOC = 0#64) .EINVAL
  return ⟨relaShdr, Shdr.offset b relaShdr, tgtShdr, Shdr.offset b tgtShdr,
    (Shdr.link b relaShdr).toNat⟩

/-- `rtld_elf_process_rela`: the buffer with the section's relocations applied. -/
def processRela (b : Buf) (relaIdx : Nat) : Checked Errno Buf := do
  let sec ← re.openRela b relaIdx
  let n := (Shdr.size b sec.relaShdr).toNat / relaSize
  forLoop (fun e _ => e < n) (re.relaStep stubs sec) n 0 b

end RtldElf

end Instrew.Client
