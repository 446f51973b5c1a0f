import Instrew.Client.ElfMap
import Instrew.Lib.Transfer

/-!
# Reading the headers of an ELF file

`load_elf_binary` of `client/elf-loader.c` with the functions below it. Every attempt to read
from a file is logged with what the kernel has done. `elf_read` compares the results of `lseek`
and `read_full` with -1, but these return the negated error number: only `EPERM` looks like an
error. `elf_reads_complete_iff` says when a result of 0 means that the bytes have been read.
-/

namespace Instrew.Client.Elf

open Lib.AddressSpace Lib.Transfer

inductive Fd : Type where
  | exec
  | interp
deriving DecidableEq

/-- An attempt to read `nbytes` at `off`: how `lseek` has ended, and what `read_full` meets:
the position from which it reads, the length of the file, and the number of its first call
of `read`. -/
structure Attempt : Type where
  fd : Fd
  off : Word
  nbytes : Nat
  seek : Option ErrNo
  start : Nat
  size : Nat
  first : Nat
deriving DecidableEq

/-- An attempt, and how many bytes it has got. -/
structure ReadRec extends Attempt where
  moved : Nat
deriving DecidableEq

/-- What the functions meet. `stackName` and `stackEhdr` are what is on the stack where
`interp_name` and `interp_ehdr` will be. -/
structure LoaderEnv : Type where
  pagesz : Word
  seeks : Nat → Option ErrNo
  reads : Nat → Except ErrNo Nat
  openFile : List Byte → Except ErrNo (List Byte)
  mmapPhdrs : Fd → Option ErrNo
  mmapBias : Fd → Except ErrNo Word
  maps : Fd → Nat → MapResults
  stackName : List Byte
  stackEhdr : List Byte

structure Loader : Type where
  content : Fd → List Byte
  pos : Fd → Nat
  nextSeek : Nat
  nextRead : Nat
  log : List ReadRec
  space : Space

/-- A piece of a function: it returns early with a code (`throw`) or goes on with a value.
There is nothing after a fault. -/
def Run (α : Type) : Type := Loader → Option (Except Int α × Loader)

variable {α β : Type}

namespace Run

def bind (m : Run α) (f : α → Run β) : Run β := fun s =>
  match m s with
  | none => none
  | some (.error e, s₁) => some (.error e, s₁)
  | some (.ok a, s₁) => f a s₁

instance : Monad Run where
  pure a := fun s => some (.ok a, s)
  bind := Run.bind

theorem bind_ok {m : Run α} {f : α → Run β} {s s₁ : Loader} {a : α} (h : m s = some (.ok a, s₁)) :
    (m >>= f) s = f a s₁ := by
  show Run.bind m f s = _
  rw [Run.bind, h]

theorem exists_of_bind_ok {m : Run α} {f : α → Run β} {s s' : Loader} {b : β}
    (h : (m >>= f) s = some (.ok b, s')) :
    ∃ a s₁, m s = some (.ok a, s₁) ∧ f a s₁ = some (.ok b, s') := by
  change Run.bind m f s = _ at h
  rw [Run.bind] at h
  split at h
  · cases h
  · cases h
  · exact ⟨_, _, ‹_›, h⟩

def throw (e : Int) : Run α := fun s => some (.error e, s)

/-- `goto` with a return code. -/
def failIf (c : Prop) [Decidable c] (e : Int) : Run Unit := if c then throw e else pure ()

def get : Run Loader := fun s => some (.ok s, s)

theorem bind_assoc {γ : Type} (m : Run α) (f : α → Run β) (g : β → Run γ) :
    m >>= f >>= g = m >>= fun a => f a >>= g := by
  funext s
  show Run.bind (Run.bind m f) g s = Run.bind m (fun a => Run.bind (f a) g) s
  rcases hm : m s with _ | ⟨_ | a, s₁⟩
  · simp only [Run.bind, hm]
  · simp only [Run.bind, hm]
  · simp only [Run.bind, hm]

def modify (f : Loader → Loader) : Run Unit := fun s => some (.ok (), f s)

end Run

/-! ## Reading -/

def eio : Nat := 5
def elibbad : Int := 80

/-- A file has been opened. -/
def opened (fd : Fd) (content : List Byte) : Run Unit := Run.modify fun s =>
  { s with
    content := Function.update s.content fd content
    pos := Function.update s.pos fd 0 }

/-- A call of `read`, if the file does not end before. -/
def readScript (env : LoaderEnv) (i : Nat) : Res :=
  match env.reads i with
  | .error e => .error e.val
  | .ok n => .count n

/-- A call of `read` on a file, `moved` bytes behind `pos`. -/
def readRes (env : LoaderEnv) (content : List Byte) (pos moved i : Nat) : Res :=
  (readScript env i).upTo (content.length - pos - moved)

/-- `read_full` on a file, with the bytes it has read. -/
def readFull (env : LoaderEnv) (fd : Fd) (nbytes : Nat) : Run (Outcome × List Byte) := fun s =>
  let r := transferAll (readRes env (s.content fd) (s.pos fd)) eio nbytes 0 s.nextRead
  some (.ok (r, ((s.content fd).drop (s.pos fd)).take r.moved),
    { s with pos := Function.update s.pos fd (s.pos fd + r.moved), nextRead := r.next })

/-- The state after `lseek`. -/
def afterSeek (env : LoaderEnv) (fd : Fd) (off : Word) (s : Loader) : Loader :=
  { s with
    nextSeek := s.nextSeek + 1
    pos := if env.seeks s.nextSeek = none then Function.update s.pos fd off.toNat else s.pos }

/-- `lseek`, with its error. -/
def lseek (env : LoaderEnv) (fd : Fd) (off : Word) : Run (Option ErrNo) := fun s =>
  some (.ok (env.seeks s.nextSeek), afterSeek env fd off s)

/-- The value of `lseek`: the offset, or the negated error number. -/
def seekRet (off : Word) : Option ErrNo → Int
  | none => off.toInt
  | some e => -(e.val : Int)

def logRead (r : ReadRec) : Run Unit := Run.modify fun s => { s with log := s.log ++ [r] }

def elfRead (env : LoaderEnv) (fd : Fd) (off : Word) (nbytes : Nat) : Run (Int × List Byte) := do
  let seek ← lseek env fd off
  if seekRet off seek = -1 then return (-1, [])
  else
    let s ← Run.get
    let (r, bytes) ← readFull env fd nbytes
    logRead ⟨⟨fd, off, nbytes, seek, s.pos fd, (s.content fd).length, s.nextRead⟩, r.moved⟩
    if r.ret = -1 then return (-1, bytes) else return (0, bytes)

/-- A buffer of which the first bytes have been overwritten. -/
def overwrite (old bytes : List Byte) : List Byte := bytes ++ old.drop bytes.length

/-! ## Headers -/

def phdrSize : Nat := 56
def PT_LOAD : BitVec 32 := 1#32
def PT_INTERP : BitVec 32 := 3#32
def ET_EXEC : BitVec 16 := 2#16
def ET_DYN : BitVec 16 := 3#16
def pathMax : Nat := 4096

def eEntry (b : Buf) : Word := b.u64 24#64
def ePhoff (b : Buf) : Word := b.u64 32#64
def ePhentsize (b : Buf) : BitVec 16 := b.u16 54#64
def ePhnum (b : Buf) : BitVec 16 := b.u16 56#64

/-- `ELFMAG` and `ELFCLASS64`. -/
def isElf64 (b : Buf) : Bool := b.take 5 == [0x7f#8, 0x45#8, 0x4c#8, 0x46#8, 2#8]

def isLoadable (b : Buf) : Bool := eType b == ET_EXEC || eType b == ET_DYN

def phdrAt (b : Buf) (i : Nat) : Phdr where
  type := b.u32 (BitVec.ofNat 64 (phdrSize * i))
  flags := b.u32 (BitVec.ofNat 64 (phdrSize * i + 4))
  offset := b.u64 (BitVec.ofNat 64 (phdrSize * i + 8))
  vaddr := b.u64 (BitVec.ofNat 64 (phdrSize * i + 16))
  filesz := b.u64 (BitVec.ofNat 64 (phdrSize * i + 32))
  memsz := b.u64 (BitVec.ofNat 64 (phdrSize * i + 40))

/-- The program headers of a table, as many as the ELF header says. -/
def phdrs (ehdr table : Buf) : List Phdr := (List.range (ePhnum ehdr).toNat).map (phdrAt table)

/-- `load_elf_phdrs`: the table is a page of its own, which is zero where nothing was read. -/
def loadElfPhdrs (env : LoaderEnv) (fd : Fd) (ehdr : Buf) : Run (Option Buf) := do
  if (ePhentsize ehdr).toNat ≠ phdrSize then return none
  else if (ePhnum ehdr).toNat < 1 ∨ 65536 / phdrSize < (ePhnum ehdr).toNat then return none
  else if 0x1000 < phdrSize * (ePhnum ehdr).toNat then return none
  else if env.mmapPhdrs fd ≠ none then return none
  else
    let (code, bytes) ← elfRead env fd (ePhoff ehdr) (phdrSize * (ePhnum ehdr).toNat)
    if code = -1 then return none
    else return some (overwrite (List.replicate 0x1000 0#8) bytes)

/-! ## The interpreter -/

/-- The characters up to the terminating NUL. -/
def cString (b : List Byte) : List Byte := b.takeWhile (· ≠ 0#8)

/-- The interpreter is looked for below the sysroot first. -/
def openInterp (env : LoaderEnv) (sysroot : List Byte) (name : List Byte) : Except ErrNo (List Byte) :=
  if sysroot ≠ [] ∧ 0 < (sysroot ++ name).length ∧ (sysroot ++ name).length < pathMax then
    match env.openFile (sysroot ++ name) with
    | .ok content => .ok content
    | .error _ => env.openFile name
  else env.openFile name

/-- A call of `elf_read` whose result is checked for a negative value. -/
def elfReadOrFail (env : LoaderEnv) (fd : Fd) (off : Word) (nbytes : Nat) : Run (List Byte) := do
  let (code, bytes) ← elfRead env fd off nbytes
  if code < 0 then Run.throw code else return bytes

/-- The ELF header and the program headers of the interpreter, which has been opened. -/
def readInterpHeaders (env : LoaderEnv) (ehdr : Buf) : Run (Buf × Buf) := do
  let bytes ← elfReadOrFail env .interp 0#64 ehdrSize
  let interpEhdr := overwrite env.stackEhdr bytes
  Run.failIf (isElf64 interpEhdr = false) (-elibbad)
  Run.failIf (isLoadable interpEhdr = false) (-elibbad)
  Run.failIf (eMachine interpEhdr ≠ eMachine ehdr) (-elibbad)
  match ← loadElfPhdrs env .interp interpEhdr with
  | none => Run.throw (-elibbad)
  | some table => return (interpEhdr, table)

/-- What `load_elf_binary` does with a `PT_INTERP` header. -/
def readInterp (env : LoaderEnv) (sysroot : List Byte) (ehdr : Buf) (ph : Phdr) : Run (Buf × Buf) := do
  Run.failIf (pathMax < ph.filesz.toNat ∨ ph.filesz.toNat < 2) (-enoexec)
  let bytes ← elfReadOrFail env .exec ph.offset ph.filesz.toNat
  let name := overwrite env.stackName bytes
  Run.failIf (name.getD (ph.filesz.toNat - 1) 0#8 ≠ 0#8) (-enoexec)
  match openInterp env sysroot (cString name) with
  | .error e => Run.throw (-(e.val : Int))
  | .ok content =>
      opened .interp content
      readInterpHeaders env ehdr

/-- The loop over the program headers, which ends at the first `PT_INTERP`. -/
def findInterp (env : LoaderEnv) (sysroot : List Byte) (ehdr table : Buf) : Run (Option (Buf × Buf)) :=
  match (phdrs ehdr table).find? (·.type == PT_INTERP) with
  | none => pure none
  | some ph => do
      let tables ← readInterp env sysroot ehdr ph
      return some tables

/-! ## Mapping -/

/-- `BAD_ADDR`. -/
def badAddr (a : Word) : Bool := 0xfffffffffffff000#64 < a

/-- The loop of `elf_determine_load_bias`: `start` of the first and `end` of the last segment. -/
def loadRange (pagesz : Word) : List Phdr → Option Word → Word → Option Word × Word
  | [], start, stop => (start, stop)
  | ph :: rest, start, stop =>
      if ph.type ≠ PT_LOAD then loadRange pagesz rest start stop
      else loadRange pagesz rest (some (start.getD (alignDown ph.vaddr pagesz))) (ph.vaddr + ph.memsz)

def elfDetermineLoadBias (env : LoaderEnv) (fd : Fd) (phs : List Phdr) : Word :=
  let (start, stop) := loadRange env.pagesz phs none 0#64
  let start := start.getD 0#64
  if stop ≤ start then BitVec.ofInt 64 (-enoexec)
  else
    match env.mmapBias fd with
    | .error e => BitVec.ofInt 64 (-(e.val : Int))
    | .ok a => a - start

/-- `elf_map` for the segment of header `i`. -/
def mapSegment (env : LoaderEnv) (fd : Fd) (bias : Word) (i : Nat) (ph : Phdr) : Run Unit := fun s =>
  match elfMap (env.maps fd i) (s.content fd) env.pagesz (bias + ph.vaddr) ph s.space with
  | none => none
  | some (retval, space) =>
      some (if retval < 0 then .error retval else .ok (), { s with space := space })

def mapSegments (env : LoaderEnv) (fd : Fd) (bias : Word) : List (Nat × Phdr) → Run Unit
  | [] => pure ()
  | (i, ph) :: rest =>
      if ph.type ≠ PT_LOAD then mapSegments env fd bias rest
      else do
        mapSegment env fd bias i ph
        mapSegments env fd bias rest

def enumerate (phs : List Phdr) : List (Nat × Phdr) := (List.range phs.length).zip phs

/-- The bias of a file, or the error it stands for. -/
def loadBias (env : LoaderEnv) (fd : Fd) (ehdr table : Buf) : Run Word := do
  if eType ehdr = ET_DYN then
    let bias := elfDetermineLoadBias env fd (phdrs ehdr table)
    Run.failIf (badAddr bias) (bias.setWidth 32).toInt
    return bias
  else return 0#64

structure BinaryInfo : Type where
  execEntry : Word
  elfEntry : Word
  machine : BitVec 16
  phdr : Word
  phnum : Nat
  phent : Nat

/-- `load_addr`: where the start of the file is, seen from the first segment. -/
def loadAddr (bias : Word) (phs : List Phdr) : Word :=
  match phs.find? (·.type == PT_LOAD) with
  | none => 0#64
  | some ph => ph.vaddr - ph.offset + bias

/-- The entry point of the interpreter, once it is mapped. -/
def loadElfInterp (env : LoaderEnv) (tables : Buf × Buf) : Run Word := do
  let bias ← loadBias env .interp tables.1 tables.2
  mapSegments env .interp bias (enumerate (phdrs tables.1 tables.2))
  Run.failIf (badAddr bias) (bias.setWidth 32).toInt
  return bias + eEntry tables.1

/-- `entry`: the interpreter is entered first. -/
def entryPoint (env : LoaderEnv) (elfEntry : Word) : Option (Buf × Buf) → Run Word
  | none => pure elfEntry
  | some tables => loadElfInterp env tables

/-- The ELF header of the file that has just been opened. -/
def readEhdr (env : LoaderEnv) : Run Buf := do
  let s ← Run.get
  let (r, ehdr) ← readFull env .exec ehdrSize
  if r.ret < 0 then Run.throw r.ret
  else
    logRead ⟨⟨.exec, 0#64, ehdrSize, none, 0, (s.content .exec).length, s.nextRead⟩, r.moved⟩
    return ehdr

def loadElfBinary (env : LoaderEnv) (filename sysroot : List Byte) : Run BinaryInfo := do
  match env.openFile filename with
  | .error e => Run.throw (-(e.val : Int))
  | .ok content =>
      opened .exec content
      let ehdr ← readEhdr env
      Run.failIf (isElf64 ehdr = false) (-enoexec)
      Run.failIf (isLoadable ehdr = false) (-enoexec)
      match ← loadElfPhdrs env .exec ehdr with
      | none => Run.throw (-enoexec)
      | some table =>
          let interp ← findInterp env sysroot ehdr table
          let bias ← loadBias env .exec ehdr table
          mapSegments env .exec bias (enumerate (phdrs ehdr table))
          let entry ← entryPoint env (bias + eEntry ehdr) interp
          return {
            execEntry := entry
            elfEntry := bias + eEntry ehdr
            machine := eMachine ehdr
            phdr := loadAddr bias (phdrs ehdr table) + ePhoff ehdr
            phnum := (ePhnum ehdr).toNat
            phent := (ePhentsize ehdr).toNat }

/-! ## What has been read -/

/-- The attempt to read that `elf_read` makes. -/
def attempt (env : LoaderEnv) (fd : Fd) (off : Word) (nbytes : Nat) (s : Loader) : Attempt :=
  ⟨fd, off, nbytes, env.seeks s.nextSeek, (afterSeek env fd off s).pos fd, (s.content fd).length,
    s.nextRead⟩

/-- There is something to read, and it goes wrong: `lseek` fails and the position is another
one, the file ends before, or a call of `read` fails or moves nothing before everything is
there. -/
def Attempt.GoesWrong (env : LoaderEnv) (r : Attempt) : Prop :=
  0 < r.nbytes ∧ (r.seek ≠ none ∧ r.start ≠ r.off.toNat ∨ r.size < r.start + r.nbytes ∨
    ¬ Delivers (readScript env) r.first r.nbytes)

namespace ReadRec

/-- All bytes have been read, and from the right place. -/
def Complete (r : ReadRec) : Prop := r.moved = r.nbytes ∧ (r.nbytes = 0 ∨ r.start = r.off.toNat)

/-- The record is what `lseek` and `read_full` do. -/
structure Made (env : LoaderEnv) (r : ReadRec) : Prop where
  moved : r.moved = r.nbytes ↔
    r.nbytes ≤ r.size - r.start ∧ Delivers (readScript env) r.first r.nbytes
  sought : r.seek = none → r.start = r.off.toNat

theorem Made.complete_iff {env : LoaderEnv} {r : ReadRec} (h : r.Made env) :
    r.Complete ↔ ¬ r.toAttempt.GoesWrong env := by
  rw [Complete, h.moved]
  constructor
  · rintro ⟨⟨hsize, hdelivers⟩, hstart⟩ ⟨hpos, hplace | hshort | hbroken⟩
    · exact hstart.elim hpos.ne' hplace.2
    · omega
    · exact hbroken hdelivers
  · intro hnot
    rcases Nat.eq_zero_or_pos r.nbytes with hzero | hpos
    · rw [hzero]
      exact ⟨⟨Nat.zero_le _, 0, Nat.zero_le _, fun j hj => nomatch hj⟩, .inl rfl⟩
    have hok := not_or.mp fun hwrong => hnot ⟨hpos, hwrong⟩
    have hread := not_or.mp hok.2
    refine ⟨⟨by omega, not_not.mp hread.2⟩, .inr ?_⟩
    by_contra hplace
    exact hok.1 ⟨fun hseek => hplace (h.sought hseek), hplace⟩

end ReadRec

/-- Where a piece returns a value, the log tells what was read on the way. -/
def Reads (env : LoaderEnv) (m : Run α) : Prop :=
  ∀ s a s', m s = some (.ok a, s') → ∃ new, s'.log = s.log ++ new ∧ ∀ r ∈ new, r.Made env

namespace Reads

variable {env : LoaderEnv} {m : Run α} {f : α → Run β}

theorem of_log_eq (h : ∀ s a s', m s = some (.ok a, s') → s'.log = s.log) : Reads env m :=
  fun s a s' hrun => ⟨[], by rw [h s a s' hrun, List.append_nil], fun _ hr => nomatch hr⟩

theorem pure (a : α) : Reads env (pure a : Run α) := of_log_eq fun s b s' h => by cases h; rfl

theorem throw (e : Int) : Reads env (Run.throw e : Run α) := fun _ _ _ h => nomatch h

theorem failIf (c : Prop) [Decidable c] (e : Int) : Reads env (Run.failIf c e) := by
  rw [Run.failIf]
  split_ifs
  · exact throw e
  · exact pure ()

theorem bind (hm : Reads env m) (hf : ∀ a, Reads env (f a)) : Reads env (m >>= f) := by
  intro s b s' hrun
  obtain ⟨a, s₁, hms, hrun⟩ := Run.exists_of_bind_ok hrun
  obtain ⟨new₁, hlog₁, hnew₁⟩ := hm s a s₁ hms
  obtain ⟨new₂, hlog₂, hnew₂⟩ := hf a s₁ b s' hrun
  refine ⟨new₁ ++ new₂, by rw [hlog₂, hlog₁, List.append_assoc], fun r hr => ?_⟩
  exact (List.mem_append.mp hr).elim (hnew₁ r) (hnew₂ r)

end Reads

section Functions

variable {env : LoaderEnv} {fd : Fd} {s s' : Loader}

/-- `read_full` reads everything exactly if the file is long enough and the calls deliver. -/
theorem readRes_complete_iff (env : LoaderEnv) (content : List Byte) (pos nbytes i : Nat) :
    (transferAll (readRes env content pos) eio nbytes 0 i).moved = nbytes ↔
      nbytes ≤ content.length - pos ∧ Delivers (readScript env) i nbytes :=
  transferAll_upTo_complete_iff (readScript env) eio _ nbytes i

theorem afterSeek_pos {off : Word} (h : env.seeks s.nextSeek = none) :
    (afterSeek env fd off s).pos fd = off.toNat := by
  simp only [afterSeek, if_pos h, Function.update_self]

theorem elfRead_of_seek_failed {off : Word} {nbytes : Nat}
    (h : seekRet off (env.seeks s.nextSeek) = -1) :
    elfRead env fd off nbytes s = some (.ok (-1, []), afterSeek env fd off s) := by
  rw [elfRead, Run.bind_ok rfl, if_pos h]
  rfl

theorem elfRead_of_sought {off : Word} {nbytes : Nat}
    (h : seekRet off (env.seeks s.nextSeek) ≠ -1) :
    elfRead env fd off nbytes s =
      let s₁ := afterSeek env fd off s
      let r := transferAll (readRes env (s₁.content fd) (s₁.pos fd)) eio nbytes 0 s₁.nextRead
      some (.ok (if r.ret = -1 then -1 else 0, ((s₁.content fd).drop (s₁.pos fd)).take r.moved),
        { s₁ with
          pos := Function.update s₁.pos fd (s₁.pos fd + r.moved)
          nextRead := r.next
          log := s.log ++ [⟨attempt env fd off nbytes s, r.moved⟩] }) := by
  rw [elfRead, Run.bind_ok rfl, if_neg h, Run.bind_ok rfl, Run.bind_ok rfl]
  dsimp only
  rw [Run.bind_ok rfl]
  split_ifs <;> rfl

theorem elfRead_code {off : Word} {nbytes : Nat} {code : Int} {bytes : List Byte}
    (h : elfRead env fd off nbytes s = some (.ok (code, bytes), s')) : code = 0 ∨ code = -1 := by
  by_cases hseek : seekRet off (env.seeks s.nextSeek) = -1
  · rw [elfRead_of_seek_failed hseek] at h
    cases h
    exact .inr rfl
  · rw [elfRead_of_sought hseek] at h
    dsimp only at h
    cases h
    split_ifs
    · exact .inr rfl
    · exact .inl rfl

/-- A result of 0 leaves a record; if it is complete, the buffer has the bytes of the file. -/
theorem elfRead_zero {off : Word} {nbytes : Nat} {bytes : List Byte}
    (h : elfRead env fd off nbytes s = some (.ok (0, bytes), s')) :
    ∃ r : ReadRec, s'.log = s.log ++ [r] ∧ r.toAttempt = attempt env fd off nbytes s ∧ r.Made env ∧
      (r.Complete → bytes.length = nbytes ∧ bytes = ((s.content fd).drop off.toNat).take nbytes) := by
  by_cases hseek : seekRet off (env.seeks s.nextSeek) = -1
  · rw [elfRead_of_seek_failed hseek] at h
    cases h
  · rw [elfRead_of_sought hseek] at h
    simp only [Option.some.injEq, Prod.mk.injEq, Except.ok.injEq] at h
    obtain ⟨⟨-, rfl⟩, rfl⟩ := h
    have hmoved := readRes_complete_iff env ((afterSeek env fd off s).content fd)
      ((afterSeek env fd off s).pos fd) nbytes (afterSeek env fd off s).nextRead
    refine ⟨_, rfl, rfl, ⟨hmoved, fun hnone => afterSeek_pos hnone⟩, ?_⟩
    rintro ⟨hall, hstart⟩
    simp only [attempt] at hall hstart
    have hcontent : (afterSeek env fd off s).content fd = s.content fd := rfl
    have hle := (hmoved.mp hall).1
    rw [hall]
    refine ⟨by rw [List.length_take, List.length_drop, min_eq_left hle], ?_⟩
    rcases hstart with rfl | heq
    · rw [List.take_zero, List.take_zero]
    · rw [heq, hcontent]

theorem elfRead_reads (off : Word) (nbytes : Nat) : Reads env (elfRead env fd off nbytes) := by
  intro s x s' hrun
  by_cases hseek : seekRet off (env.seeks s.nextSeek) = -1
  · rw [elfRead_of_seek_failed hseek] at hrun
    cases hrun
    exact ⟨[], (List.append_nil _).symm, fun _ hr => nomatch hr⟩
  · rw [elfRead_of_sought hseek] at hrun
    dsimp only at hrun
    cases hrun
    refine ⟨_, rfl, fun r hr => ?_⟩
    rw [List.mem_singleton.mp hr]
    exact ⟨readRes_complete_iff _ _ _ _ _, fun hnone => afterSeek_pos hnone⟩

theorem elfReadOrFail_reads (off : Word) (nbytes : Nat) :
    Reads env (elfReadOrFail env fd off nbytes) := by
  refine (elfRead_reads off nbytes).bind fun x => ?_
  obtain ⟨code, bytes⟩ := x
  dsimp only
  split_ifs
  · exact .throw _
  · exact .pure _

/-- A table is a page with what was read at its start. -/
theorem loadElfPhdrs_some {ehdr table : Buf}
    (h : loadElfPhdrs env fd ehdr s = some (.ok (some table), s')) :
    ∃ bytes, elfRead env fd (ePhoff ehdr) (phdrSize * (ePhnum ehdr).toNat) s =
      some (.ok (0, bytes), s') ∧ table = overwrite (List.replicate 0x1000 0#8) bytes := by
  revert h
  rw [loadElfPhdrs]
  split_ifs
  · exact fun h => nomatch h
  · exact fun h => nomatch h
  · exact fun h => nomatch h
  · exact fun h => nomatch h
  · intro h
    obtain ⟨⟨code, bytes⟩, s₁, hread, hrun⟩ := Run.exists_of_bind_ok h
    rcases elfRead_code hread with rfl | rfl
    · cases hrun
      exact ⟨bytes, hread, rfl⟩
    · cases hrun

theorem loadElfPhdrs_reads (ehdr : Buf) : Reads env (loadElfPhdrs env fd ehdr) := by
  rw [loadElfPhdrs]
  split_ifs
  · exact .pure _
  · exact .pure _
  · exact .pure _
  · exact .pure _
  · refine (elfRead_reads _ _).bind fun x => ?_
    obtain ⟨code, bytes⟩ := x
    dsimp only
    split_ifs
    · exact .pure _
    · exact .pure _

theorem opened_reads (fd : Fd) (content : List Byte) : Reads env (opened fd content) :=
  .of_log_eq fun s b s' h => by cases h; rfl

theorem readInterpHeaders_reads (ehdr : Buf) : Reads env (readInterpHeaders env ehdr) := by
  refine (elfReadOrFail_reads _ _).bind fun _ => (Reads.failIf _ _).bind fun _ =>
    (Reads.failIf _ _).bind fun _ => (Reads.failIf _ _).bind fun _ =>
      (loadElfPhdrs_reads _).bind fun t => ?_
  cases t with
  | none => exact .throw _
  | some table => exact .pure _

theorem readInterp_reads (sysroot : List Byte) (ehdr : Buf) (ph : Phdr) :
    Reads env (readInterp env sysroot ehdr ph) := by
  refine (Reads.failIf _ _).bind fun _ => (elfReadOrFail_reads _ _).bind fun bytes =>
    (Reads.failIf _ _).bind fun _ => ?_
  cases openInterp env sysroot (cString (overwrite env.stackName bytes)) with
  | error e => exact .throw _
  | ok content => exact (opened_reads _ _).bind fun _ => readInterpHeaders_reads ehdr

theorem findInterp_reads (sysroot : List Byte) (ehdr table : Buf) :
    Reads env (findInterp env sysroot ehdr table) := by
  rw [findInterp]
  cases (phdrs ehdr table).find? (·.type == PT_INTERP) with
  | none => exact .pure _
  | some ph => exact (readInterp_reads sysroot ehdr ph).bind fun _ => .pure _

theorem loadBias_reads (ehdr table : Buf) : Reads env (loadBias env fd ehdr table) := by
  rw [loadBias]
  split_ifs
  · exact (Reads.failIf _ _).bind fun _ => .pure _
  · exact .pure _

theorem mapSegment_reads (bias : Word) (i : Nat) (ph : Phdr) :
    Reads env (mapSegment env fd bias i ph) := by
  refine .of_log_eq fun s a s' h => ?_
  rw [mapSegment] at h
  split at h
  · cases h
  · exact (congrArg Loader.log (congrArg Prod.snd (Option.some.inj h))).symm

theorem mapSegments_reads (bias : Word) :
    ∀ phs : List (Nat × Phdr), Reads env (mapSegments env fd bias phs)
  | [] => .pure _
  | (i, ph) :: rest => by
      rw [mapSegments]
      split_ifs
      · exact mapSegments_reads bias rest
      · exact (mapSegment_reads bias i ph).bind fun _ => mapSegments_reads bias rest

theorem loadElfInterp_reads (tables : Buf × Buf) : Reads env (loadElfInterp env tables) :=
  (loadBias_reads _ _).bind fun _ => (mapSegments_reads _ _).bind fun _ =>
    (Reads.failIf _ _).bind fun _ => .pure _

theorem entryPoint_reads (elfEntry : Word) (interp : Option (Buf × Buf)) :
    Reads env (entryPoint env elfEntry interp) := by
  cases interp with
  | none => exact .pure _
  | some tables => exact loadElfInterp_reads tables

/-- The ELF header is read from the start of the file, which has just been opened. -/
theorem readEhdr_reads (content : List Byte) :
    Reads env (opened .exec content >>= fun _ => readEhdr env) := by
  intro s ehdr s' hrun
  rw [Run.bind_ok rfl, readEhdr, Run.bind_ok rfl, Run.bind_ok rfl] at hrun
  dsimp only at hrun
  split_ifs at hrun
  · cases hrun
  · cases hrun
    refine ⟨_, rfl, fun r hr => ?_⟩
    rw [List.mem_singleton.mp hr]
    refine ⟨?_, fun _ => rfl⟩
    dsimp only
    rw [Function.update_self, Function.update_self]
    exact readRes_complete_iff _ _ _ _ _

theorem loadElfBinary_reads (filename sysroot : List Byte) :
    Reads env (loadElfBinary env filename sysroot) := by
  rw [loadElfBinary]
  cases env.openFile filename with
  | error e => exact .throw _
  | ok content =>
      dsimp only
      rw [← Run.bind_assoc]
      refine (readEhdr_reads content).bind fun ehdr => ?_
      refine (Reads.failIf _ _).bind fun _ => (Reads.failIf _ _).bind fun _ =>
        (loadElfPhdrs_reads _).bind fun t => ?_
      cases t with
      | none => exact .throw _
      | some table =>
          refine (findInterp_reads sysroot ehdr table).bind fun interp =>
            (loadBias_reads _ _).bind fun bias => (mapSegments_reads _ _).bind fun _ => ?_
          exact (entryPoint_reads _ interp).bind fun _ => .pure _

end Functions

/-- **When a result of 0 means that everything was read**: for a call of `elf_read`, for a table
of program headers, and for all that `load_elf_binary` reads. -/
theorem elf_reads_complete_iff (env : LoaderEnv) (s : Loader) :
    (∀ fd off nbytes bytes s', elfRead env fd off nbytes s = some (.ok (0, bytes), s') →
      ∃ r : ReadRec, s'.log = s.log ++ [r] ∧ r.toAttempt = attempt env fd off nbytes s ∧
        (r.Complete ↔ ¬ (attempt env fd off nbytes s).GoesWrong env) ∧
        (r.Complete → bytes.length = nbytes ∧ bytes = ((s.content fd).drop off.toNat).take nbytes)) ∧
    (∀ fd ehdr table s', loadElfPhdrs env fd ehdr s = some (.ok (some table), s') →
      let nbytes := phdrSize * (ePhnum ehdr).toNat
      ∃ r : ReadRec, s'.log = s.log ++ [r] ∧ r.toAttempt = attempt env fd (ePhoff ehdr) nbytes s ∧
        (r.Complete ↔ ¬ (attempt env fd (ePhoff ehdr) nbytes s).GoesWrong env) ∧
        (r.Complete → table.take nbytes = ((s.content fd).drop (ePhoff ehdr).toNat).take nbytes)) ∧
    ∀ filename sysroot info s', loadElfBinary env filename sysroot s = some (.ok info, s') →
      ∃ new, s'.log = s.log ++ new ∧
        ((∀ r ∈ new, r.Complete) ↔ ∀ r ∈ new, ¬ r.toAttempt.GoesWrong env) := by
  have hread : ∀ fd off nbytes bytes s', elfRead env fd off nbytes s = some (.ok (0, bytes), s') →
      ∃ r : ReadRec, s'.log = s.log ++ [r] ∧ r.toAttempt = attempt env fd off nbytes s ∧
        (r.Complete ↔ ¬ (attempt env fd off nbytes s).GoesWrong env) ∧
        (r.Complete → bytes.length = nbytes ∧ bytes = ((s.content fd).drop off.toNat).take nbytes) := by
    intro fd off nbytes bytes s' h
    obtain ⟨r, hlog, hattempt, hmade, hbytes⟩ := elfRead_zero h
    exact ⟨r, hlog, hattempt, hattempt ▸ hmade.complete_iff, hbytes⟩
  refine ⟨hread, fun fd ehdr table s' h => ?_, fun filename sysroot info s' h => ?_⟩
  · obtain ⟨bytes, helf, rfl⟩ := loadElfPhdrs_some h
    obtain ⟨r, hlog, hattempt, hiff, hbytes⟩ := hread _ _ _ _ _ helf
    refine ⟨r, hlog, hattempt, hiff, fun hcomplete => ?_⟩
    obtain ⟨hlen, heq⟩ := hbytes hcomplete
    rw [← heq, overwrite, List.take_left' hlen]
  · obtain ⟨new, hlog, hnew⟩ := loadElfBinary_reads filename sysroot s _ s' h
    exact ⟨new, hlog, forall₂_congr fun r hr => (hnew r hr).complete_iff⟩

/-- An ELF header that announces a program header right behind it, and nothing else. -/
def headerOnly : List Byte :=
  [0x7f#8, 0x45#8, 0x4c#8, 0x46#8, 2#8] ++ List.replicate 11 0#8 ++
    [2#8, 0#8, 62#8, 0#8, 1#8, 0#8, 0#8, 0#8, 0#8, 0x10#8, 0x40#8] ++ List.replicate 5 0#8 ++
    [64#8] ++ List.replicate 21 0#8 ++ [56#8, 0#8, 1#8] ++ List.replicate 7 0#8

def healthy : LoaderEnv where
  pagesz := 0x1000#64
  seeks _ := none
  reads _ := .ok 0x1000
  openFile _ := .ok headerOnly
  mmapPhdrs _ := none
  mmapBias _ := .ok 0x555555554000#64
  maps _ _ := ⟨none, none, none, none⟩
  stackName := []
  stackEhdr := []

def initial : Loader := ⟨fun _ => [], fun _ => 0, 0, 0, [], unmapped⟩

theorem headerOnly_loaded :
    ((loadElfBinary healthy [] [] initial).map fun p => (p.1.toOption.isSome, p.2.log)) =
      some (true, [⟨⟨.exec, 0#64, 64, none, 0, 64, 0⟩, 64⟩, ⟨⟨.exec, 64#64, 56, none, 64, 64, 1⟩, 0⟩]) := by
  decide +kernel

/-- The file ends where the program headers should be. They are taken to be zero, nothing is
mapped, and 0 is returned. -/
theorem truncated_file_loaded : ∃ info s', loadElfBinary healthy [] [] initial = some (.ok info, s') ∧
    ∃ r ∈ s'.log, r.off = 64#64 ∧ r.nbytes = 56 ∧ r.moved = 0 ∧ ¬ r.Complete := by
  obtain ⟨⟨res, s'⟩, hrun, heq⟩ := Option.map_eq_some_iff.mp headerOnly_loaded
  obtain ⟨hok, hlog⟩ := Prod.mk.inj heq
  cases res with
  | error e => cases hok
  | ok info =>
      refine ⟨info, s', hrun, ⟨⟨.exec, 64#64, 56, none, 64, 64, 1⟩, 0⟩, ?_, rfl, rfl, rfl, fun h => ?_⟩
      · dsimp only at hlog
        rw [hlog]
        exact List.mem_cons_of_mem _ List.mem_cons_self
      · exact absurd h.1 (by decide)

end Instrew.Client.Elf
