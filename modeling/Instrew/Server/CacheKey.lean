import Instrew.Lib.Bytes

/-!
# The key of the translation cache

`IWState::Translate` (`server/rewriteserver.cc`) hashes a buffer that
`IWState::appendConfig`, `Optimizer::appendConfig` and
`CodeGenerator::appendConfig` start and that ends with the guest code. Equal
buffers share a cache entry.

The option members of the two configuration structs have the names of the
option variables they are meant to record, as in
`uint8_t safeCallRet = safeCallRet;`. Inside the struct that name is the member
itself, so the member is initialised with its own indeterminate value and the
option never reaches the buffer. Such a member is part of `Stale` here: it
belongs to the run, and nothing ties it to the options.

Everything else in the buffer is injective (`hashBuffer_inj`), and
`cache_key_sound_iff` says what is missing.
-/

namespace Instrew.Server

open Lib.Bytes

/-! ## What a call reads -/

/-- The code-generation options of the command line. -/
@[ext] structure CodeGenOptions : Type where
  safeCallRet : Bool
  enableCallret : Bool
  enableFastcc : Bool
  enablePIC : Bool
  targetopt : BitVec 32
deriving DecidableEq

/-- The fields of `IWServerConfig` that the code generation reads. -/
@[ext] structure IWServerConfig : Type where
  guestArch : BitVec 32
  hostArch : BitVec 32
  stackAlignment : BitVec 32
deriving DecidableEq

/-- The self-initialised members of the two configuration structs. -/
structure Stale : Type where
  safeCallRet : Byte
  enableCallret : Byte
  enableFastcc : Byte
  enablePIC : Byte
  targetopt : BitVec 32
deriving DecidableEq

/-- A server run: its options, its `IWServerConfig`, and what the uninitialised
members held when the configuration was appended. -/
structure IWState : Type where
  options : CodeGenOptions
  iwsc : IWServerConfig
  stale : Stale
deriving DecidableEq

/-- A call of `Translate`: the guest memory and the code ranges the lifter
found, `ll_func_ranges`. -/
structure TranslateCall : Type where
  state : IWState
  addr : Word
  mem : Word → Byte
  ranges : List (Word × Word)

/-! ## The hash buffer -/

/-- `IWState::appendConfig`. -/
def IWState.appendConfig (s : IWState) : List Byte :=
  le 4 2 ++
    [s.stale.safeCallRet, s.stale.enableCallret, s.stale.enableFastcc, s.stale.enablePIC] ++
    le 4 s.iwsc.guestArch.toNat ++ le 4 s.iwsc.hostArch.toNat ++
    le 4 s.iwsc.stackAlignment.toNat

/-- `Optimizer::appendConfig`. -/
def optimizerConfig : List Byte := le 4 1

/-- `CodeGenerator::appendConfig`. -/
def codeGeneratorConfig (s : IWState) : List Byte := le 4 1 ++ le 4 s.stale.targetopt.toNat

/-- `hashBuffer` after the constructor. -/
def IWState.hashConfig (s : IWState) : List Byte :=
  s.appendConfig ++ optimizerConfig ++ codeGeneratorConfig s

/-- `iw_readmem` on a range it can read completely. -/
def readMem (mem : Word → Byte) (start : Word) (size : Nat) : List Byte :=
  (List.range size).map (fun i => mem (start + BitVec.ofNat 64 i))

/-- A code range relative to the translated address, with its bytes. -/
structure CodeRange : Type where
  relStart : Word
  size : Word
  code : List Byte
  code_length : code.length = size.toNat
deriving DecidableEq

/-- The relative ranges, up to the terminating pair of zeros. -/
def relRanges (addr : Word) (mem : Word → Byte) : List (Word × Word) → List CodeRange
  | [] => []
  | (start, stop) :: ranges =>
      if start = 0#64 ∧ stop = 0#64 then []
      else
        ⟨start - addr, stop - start, readMem mem start (stop - start).toNat, by simp [readMem]⟩ ::
          relRanges addr mem ranges

/-- What the loop appends for one range. -/
def CodeRange.bytes (r : CodeRange) : List Byte :=
  le 8 r.relStart.toNat ++ le 8 r.size.toNat ++ r.code

/-- Only non-PIC code depends on the absolute address. -/
def TranslateCall.hashAddr (c : TranslateCall) : Word :=
  if c.state.options.enablePIC then 0#64 else c.addr

/-- The hashed buffer. -/
def TranslateCall.hashBuffer (c : TranslateCall) : List Byte :=
  c.state.hashConfig ++ le 8 c.hashAddr.toNat ++
    (relRanges c.addr c.mem c.ranges).flatMap CodeRange.bytes

/-! ## What decides the object -/

/-- The inputs of a compilation: the options, the server configuration, the
absolute address of non-PIC code, and the relative code ranges. -/
structure Inputs : Type where
  options : CodeGenOptions
  iwsc : IWServerConfig
  absAddr : Option Word
  ranges : List CodeRange
deriving DecidableEq

def TranslateCall.inputs (c : TranslateCall) : Inputs where
  options := c.state.options
  iwsc := c.state.iwsc
  absAddr := if c.state.options.enablePIC then none else some c.addr
  ranges := relRanges c.addr c.mem c.ranges

/-! ## What the buffer determines -/

/-- A range starts with its size, so it can be split off in one way. -/
theorem codeRange_delimited : Delimited CodeRange.bytes where
  ne_nil := fun r h => by
    have hlen := congrArg List.length h
    simp [CodeRange.bytes] at hlen
  split := fun r r' t t' h => by
    unfold CodeRange.bytes at h
    simp only [List.append_assoc] at h
    obtain ⟨hstart, h⟩ := List.append_inj h (by simp)
    obtain ⟨hsize, h⟩ := List.append_inj h (by simp)
    have hsize' : r.size = r'.size := le_toNat_inj (by norm_num) hsize
    obtain ⟨hcode, ht⟩ := List.append_inj h (by rw [r.code_length, r'.code_length, hsize'])
    have hstart' : r.relStart = r'.relStart := le_toNat_inj (by norm_num) hstart
    obtain ⟨start, size, code, hlen⟩ := r
    obtain ⟨start', size', code', hlen'⟩ := r'
    simp only at hstart' hsize' hcode
    subst hstart' hsize' hcode
    exact ⟨rfl, ht⟩

theorem length_hashConfig (s : IWState) : s.hashConfig.length = 32 := by
  simp [IWState.hashConfig, IWState.appendConfig, optimizerConfig, codeGeneratorConfig]

theorem hashConfig_inj {s s' : IWState} (h : s.hashConfig = s'.hashConfig) :
    s.iwsc = s'.iwsc := by
  unfold IWState.hashConfig IWState.appendConfig at h
  simp only [List.append_assoc] at h
  obtain ⟨-, h⟩ := List.append_inj h (by simp)
  obtain ⟨-, h⟩ := List.append_inj h (by simp)
  obtain ⟨hguest, h⟩ := List.append_inj h (by simp)
  obtain ⟨hhost, h⟩ := List.append_inj h (by simp)
  obtain ⟨halign, -⟩ := List.append_inj h (by simp)
  exact IWServerConfig.ext (le_toNat_inj (by norm_num) hguest)
    (le_toNat_inj (by norm_num) hhost) (le_toNat_inj (by norm_num) halign)

/-- **What equal buffers agree on**: the server configuration, the hashed
address and the ordered list of relative ranges with their bytes. -/
theorem hashBuffer_inj {a b : TranslateCall} (h : a.hashBuffer = b.hashBuffer) :
    a.state.iwsc = b.state.iwsc ∧ a.hashAddr = b.hashAddr ∧
      relRanges a.addr a.mem a.ranges = relRanges b.addr b.mem b.ranges := by
  unfold TranslateCall.hashBuffer at h
  simp only [List.append_assoc] at h
  obtain ⟨hconfig, h⟩ := List.append_inj h (by rw [length_hashConfig, length_hashConfig])
  obtain ⟨haddr, h⟩ := List.append_inj h (by simp)
  exact ⟨hashConfig_inj hconfig, le_toNat_inj (by norm_num) haddr,
    codeRange_delimited.flatMap_inj h⟩

/-- The condition under which equal buffers mean equal inputs: the options that
are not hashed agree. Two non-zero addresses settle `pic` by themselves, since
one of them would be hashed as 0 otherwise. -/
def SameUnhashedOptions (a b : TranslateCall) : Prop :=
  a.state.options.safeCallRet = b.state.options.safeCallRet ∧
  a.state.options.enableCallret = b.state.options.enableCallret ∧
  a.state.options.enableFastcc = b.state.options.enableFastcc ∧
  a.state.options.targetopt = b.state.options.targetopt ∧
  (a.state.options.enablePIC = b.state.options.enablePIC ∨
    (a.addr ≠ 0#64 ∧ b.addr ≠ 0#64))

theorem pic_eq_of_hashAddr_eq {a b : TranslateCall} (h : a.hashAddr = b.hashAddr)
    (ha : a.addr ≠ 0#64) (hb : b.addr ≠ 0#64) :
    a.state.options.enablePIC = b.state.options.enablePIC := by
  unfold TranslateCall.hashAddr at h
  cases hpa : a.state.options.enablePIC with
  | true =>
      cases hpb : b.state.options.enablePIC with
      | true => rfl
      | false =>
          rw [hpa, hpb] at h
          exact absurd h.symm hb
  | false =>
      cases hpb : b.state.options.enablePIC with
      | true =>
          rw [hpa, hpb] at h
          exact absurd h ha
      | false => rfl

theorem inputs_eq_iff {a b : TranslateCall} (h : a.hashBuffer = b.hashBuffer) :
    a.inputs = b.inputs ↔ SameUnhashedOptions a b := by
  obtain ⟨hiwsc, haddr, hranges⟩ := hashBuffer_inj h
  constructor
  · intro heq
    have hopt : a.state.options = b.state.options := congrArg Inputs.options heq
    rw [SameUnhashedOptions, hopt]
    exact ⟨rfl, rfl, rfl, rfl, Or.inl rfl⟩
  · rintro ⟨h1, h2, h3, h4, h5⟩
    have hpic : a.state.options.enablePIC = b.state.options.enablePIC :=
      h5.elim id fun hne => pic_eq_of_hashAddr_eq haddr hne.1 hne.2
    have hopt : a.state.options = b.state.options := CodeGenOptions.ext h1 h2 h3 hpic h4
    have habs : (if a.state.options.enablePIC then none else some a.addr) =
        if b.state.options.enablePIC then none else some b.addr := by
      unfold TranslateCall.hashAddr at haddr
      rw [hpic] at haddr ⊢
      split_ifs at haddr ⊢ with hp
      · rfl
      · rw [haddr]
    unfold TranslateCall.inputs
    rw [hopt] at habs ⊢
    rw [hiwsc, hranges, habs]

/-- A call on one byte of code at `addr`, for a server started with the given
`-callret` and `-pic`, the stack holding the same bytes in every run. -/
def sampleCall (callret pic : Bool) (addr : Word) : TranslateCall where
  state := ⟨⟨false, callret, true, pic, 2#32⟩, ⟨62#32, 62#32, 8#32⟩, ⟨0#8, 0#8, 0#8, 0#8, 0#32⟩⟩
  addr := addr
  mem := fun _ => 0xc3#8
  ranges := [(addr, addr + 1#64), (0#64, 0#64)]

end Instrew.Server
