import Instrew.Client.RelaRun
import Instrew.Client.RelocRiscv

/-!
# Address pairs of RISC-V code

An auipc with an `R_RISCV_PCREL_HI20` relocation and an instruction with an
`R_RISCV_PCREL_LO12_I` or `R_RISCV_PCREL_LO12_S` relocation on the label of the auipc, as
`rtld_elf_process_rela` of `client/rtld.c` relocates them. The low half finds the entry of
the high half and resolves its symbol once more.

The headline is `auipc_pair_computes_iff`. The pair computes the address of its symbol
exactly when the distance is in the reach of the two instructions, which is not checked,
and when the second resolution agrees with the first in the low 12 bits. It does for every
symbol but a function that is not translated yet: each resolution of such a symbol creates
a stub of its own.
-/

namespace Instrew.Client

open Lib.Access Lib.ByteMem Lib.Imm Lib.Rv64

/-! ## Resolving a symbol twice -/

/-- What a resolution may do with the creation of stubs: ask for one stub and answer with
it, or not ask at all. -/
def OneStub (F : (RtldPatchData → Except Errno Word) → RtldPatchData → Checked Errno Word) : Prop :=
  (∃ addr, ∀ createStub patchData,
    F createStub patchData = call (createStub { patchData with symAddr := addr })) ∨
  ∀ createStub createStub' patchData patchData',
    F createStub patchData = F createStub' patchData'

theorem OneStub.const (x : Checked Errno Word) : OneStub fun _ _ => x :=
  .inr fun _ _ _ _ => rfl

theorem OneStub.bind {α : Type} (x : Checked Errno α)
    {F : α → (RtldPatchData → Except Errno Word) → RtldPatchData → Checked Errno Word}
    (h : ∀ a, OneStub (F a)) : OneStub fun createStub patchData => x >>= fun a => F a createStub patchData := by
  match x with
  | .ok a => exact h a
  | .error _ => exact .const _

theorem OneStub.ite {c : Prop} [Decidable c]
    {F G : (RtldPatchData → Except Errno Word) → RtldPatchData → Checked Errno Word}
    (hF : OneStub F) (hG : OneStub G) :
    OneStub fun createStub patchData =>
      if c then F createStub patchData else G createStub patchData := by
  by_cases hc : c
  · simpa only [if_pos hc] using hF
  · simpa only [if_neg hc] using hG

theorem resolveName_oneStub (re : RtldElf) (name : List Byte) :
    OneStub fun createStub patchData => call (re.resolveName createStub patchData name) := by
  by_cases hglob : chars "glob_" <+: name
  · simpa only [RtldElf.resolveName, if_pos hglob] using OneStub.const _
  by_cases hbase : name = chars "instrew_baseaddr"
  · simpa only [RtldElf.resolveName, if_neg hglob, if_pos hbase] using OneStub.const _
  simp only [RtldElf.resolveName, if_neg hglob, if_neg hbase]
  match rtldElfDecodeName re.skew name 0#64 with
  | (.error _, _) => exact .inr fun _ _ _ _ => rfl
  | (.ok _, addr) =>
      cases hres : rtldResolve re.objects addr with
      | ok entry => simpa only [hres] using OneStub.const _
      | error _ => exact .inl ⟨addr, fun createStub patchData => by simp only [hres]⟩

/-- Only an undefined function that is not in the index depends on the stubs. -/
theorem resolveSym_oneStub (re : RtldElf) (b : Buf) (symtabIdx symIdx : Nat) :
    OneStub fun createStub patchData => re.resolveSym b createStub symtabIdx symIdx patchData := by
  refine .bind _ fun _ => .bind _ fun _ => .bind _ fun _ => .bind _ fun _ => .bind _ fun _ =>
    .bind _ fun _ => .ite ?_ (.ite (.const _) (.const _))
  exact .bind _ fun name => resolveName_oneStub re name

/-- A symbol that resolves without a stub resolves the same in every call. -/
theorem resolveSym_fixed {re : RtldElf} {b : Buf} {symtabIdx symIdx : Nat} {v : Word}
    (patchData : RtldPatchData)
    (h : re.resolveSym b (fun _ => .error .EINVAL) symtabIdx symIdx patchData = .ok v)
    (createStub : RtldPatchData → Except Errno Word) (patchData' : RtldPatchData) :
    re.resolveSym b createStub symtabIdx symIdx patchData' = .ok v := by
  rcases resolveSym_oneStub re b symtabIdx symIdx with ⟨addr, hneeds⟩ | hsame
  · have := (hneeds (fun _ => .error .EINVAL) patchData).symm.trans h
    exact nomatch this
  · exact (hsame _ _ _ _).trans h

/-! ## The pair -/

/-- `R_RISCV_PCREL_LO12_I` and `R_RISCV_PCREL_LO12_S`. -/
def LoFormat.pcrelNumber : LoFormat → BitVec 32
  | I => 24#32
  | S => 25#32

/-- The word that entry `e` patches. -/
def entryWord (obj : Buf) (i e : Nat) (b : Buf) : BitVec 32 := load32 b.mem (patchAt obj i e).toNat

/-- The address that entry `e` patches. -/
def entryPc (obj : Buf) (i e : Nat) : Word := (entryPatch obj i e).patchAddr

/-- Entries `hi` and `lo` of relocation section `i` relocate an auipc and an instruction
that uses its register; the symbol of `lo` is the label of the auipc. -/
structure AuipcPair (re : RtldElf) (obj : Buf) (i hi lo : Nat) (k : LoFormat) : Prop where
  hi_lt : hi < relaCount obj i
  lo_lt : lo < relaCount obj i
  hi_type : Rela.type obj (relaEntry obj i hi) = 23#32
  lo_type : Rela.type obj (relaEntry obj i lo) = k.pcrelNumber
  label : ∀ createStub patchData, re.resolveSym obj createStub (shLink obj i).toNat
    (Rela.sym obj (relaEntry obj i lo)).toNat patchData = .ok (entryPc obj i hi)
  auipc : opcode (entryWord obj i hi obj) = 0x17#7
  base : rs1 (entryWord obj i lo obj) = rd (entryWord obj i hi obj)
  rd_ne : rd (entryWord obj i hi obj) ≠ 0#5
  hi_alone : Alone re.host obj i hi
  lo_alone : Alone re.host obj i lo

/-- The pair computes `target` when it runs at `pc`, and both words differ from what they
were in the immediates only. -/
structure AuipcPairComputes (k : LoFormat) (w0 w1 w0' w1' : BitVec 32) (pc target : Word) :
    Prop where
  computes : ∀ s : State, s.pc = pc →
    (exec w0' s).map (fun s' => s'.get (rs1 w1') + k.imm w1') = some target
  auipc_rest : w0'.extractLsb' 0 12 = w0.extractLsb' 0 12
  rest : k.SameRest w1 w1'

/-- The auipc with the rounded upper part of `d`. -/
def auipcPatch (d : Word) : BitVec 32 → BitVec 32 :=
  blend 0xfffff000#32 (pcrelHi20 (d.setWidth 32) <<< 12)

theorem auipcPatch_upper (d : Word) (w : BitVec 32) :
    (auipcPatch d w).extractLsb' 12 20 = (d.setWidth 32 + 0x800#32).extractLsb' 12 20 :=
  (Covers.extractLsb'_blend (by decide) _ _).trans (pcrelHi20_shift _)

theorem auipcPatch_rest (d : Word) (w : BitVec 32) :
    (auipcPatch d w).extractLsb' 0 12 = w.extractLsb' 0 12 :=
  Spares.extractLsb'_blend (by decide) _ _

theorem rtldRelocAt_pcrelHi20 (stub : Word → Except Errno Word) (symAddr addend pc sym : Word)
    (relSize : BitVec 32) :
    rtldRelocAt .riscv stub ⟨symAddr, 23#32, relSize, addend, pc⟩ sym =
      (.ok (), [.u32 (auipcPatch (sym + addend - pc))]) := by
  show relocWrite (rtldBlend 0xfffff000#64 _) = _
  rw [rtldBlend_word (by decide) (by decide)]
  rfl

theorem rtldRelocAt_pcrelLo12 (k : LoFormat) (stub : Word → Except Errno Word)
    (symAddr addend pc sym : Word) (relSize : BitVec 32) :
    rtldRelocAt .riscv stub ⟨symAddr, k.pcrelNumber, relSize, addend, pc⟩ sym =
      (.ok (), [.u32 (k.patch (sym + addend - pc))]) := by
  cases k with
  | I => exact relocLo12I_eq _
  | S => exact relocLo12S_eq _

/-- What a relocated pair computes: the upper part is rounded for the distance of the
target, the low part is that of `d'`. -/
theorem auipc_words_compute_iff {k : LoFormat} {w0 w1 : BitVec 32} (hauipc : opcode w0 = 0x17#7)
    (hbase : rs1 w1 = rd w0) (hrd : rd w0 ≠ 0#5) (pc target d' : Word) :
    AuipcPairComputes k w0 w1 (auipcPatch (target - pc) w0) (k.patch d' w1) pc target ↔
      Spans (target - pc) ∧ d'.extractLsb' 0 12 = (target - pc).extractLsb' 0 12 := by
  have htarget : pc + (target - pc) = target := add_sub_cancel pc target
  generalize target - pc = d at htarget
  subst htarget
  have hop : opcode (auipcPatch d w0) = 0x17#7 :=
    (Spares.extractLsb'_blend (by decide) _ _).trans hauipc
  have hrd' : rd (auipcPatch d w0) = rd w0 := Spares.extractLsb'_blend (by decide) _ _
  have hsum : ∀ s : State, s.pc = pc →
      (exec (auipcPatch d w0) s).map (fun s' => s'.get (rs1 (k.patch d' w1)) + k.imm (k.patch d' w1)) =
        some (pc + pairSum d (d'.extractLsb' 0 12)) := by
    intro s hs
    rw [exec_auipc hop, Option.map_some, k.rs1_patch, hbase, hrd', get_update_same hrd, immU,
      auipcPatch_upper, k.imm_patch, hs, BitVec.add_assoc]
    rfl
  rw [and_comm, ← pairSum_eq_iff]
  constructor
  · intro h
    have hc := h.computes ⟨pc, fun _ => 0#64⟩ rfl
    rw [hsum _ rfl] at hc
    exact add_left_cancel (Option.some.inj hc)
  · intro heq
    refine ⟨fun s hs => ?_, auipcPatch_rest d w0, k.sameRest_patch d' w1⟩
    rw [hsum s hs, heq]

/-! ## Relocating the pair -/

/-- The patch data of the second resolution. -/
def dummyPatch (obj : Buf) (i hi : Nat) : RtldPatchData :=
  ⟨0#64, 0#32, 0#32, 0#64, entryPc obj i hi⟩

/-- The symbol of entry `e` is a function at `addr` that is not translated: it is resolved
by creating a stub. -/
def NeedsStub (re : RtldElf) (obj : Buf) (i e : Nat) (addr : Word) : Prop :=
  ∀ createStub patchData, re.resolveSym obj createStub (shLink obj i).toNat
    (Rela.sym obj (relaEntry obj i e)).toNat patchData =
      call (createStub { patchData with symAddr := addr })

section Pair

variable {re : RtldElf} {stubs : RtldElf.Stubs} {obj b' : Buf} {i hi lo : Nat} {k : LoFormat}

/-- The arguments of the high half, whose symbol resolves to `S`. -/
theorem AuipcPair.relocArgs_hi (h : AuipcPair re obj i hi lo k) {S : Word}
    (hS : entrySym re stubs obj i hi (2 * hi) (entryPatch obj i hi) = .ok S) :
    relocArgs re stubs obj i hi = .ok (S, ⟨0#64, 23#32, 8#32,
      Rela.addend obj (relaEntry obj i hi), entryPc obj i hi⟩) := by
  have htype : (entryPatch obj i hi).relType = 23#32 := h.hi_type
  refine bind_eq_ok.mpr ⟨S, orFail_eq_ok.mpr hS, ?_⟩
  rw [RtldElf.rewriteLo12, htype, if_neg fun hlo => absurd hlo.2 (by decide), ← htype]
  rfl

theorem relWidth_pos (t : RelType) : 0 < relWidth t := by
  cases t <;> decide

theorem patchRange_len_pos (host : Host) (obj : Buf) (i e : Nat) :
    0 < (patchRange host obj i e).len := by
  rw [patchRange]
  cases relType host (Rela.type obj (relaEntry obj i e)).toNat with
  | none => exact Nat.one_pos
  | some t => exact relWidth_pos t

/-- No other entry is at the place of an entry that is alone. -/
theorem Alone.offset_ne {host : Host} {e e' : Nat} (h : Alone host obj i e)
    (he' : e' < relaCount obj i) (hne : e' ≠ e) :
    Rela.offset obj (relaEntry obj i e') ≠ Rela.offset obj (relaEntry obj i e) := by
  intro heq
  have hapart := h e' he' hne
  have hpos := patchRange_len_pos host obj i e'
  simp only [Range.Apart] at hapart
  rw [patchRange, heq] at hapart
  rw [patchRange] at hpos
  simp only at hapart hpos
  omega

/-- The lookup passes the entries before the high half, none of which is at its place, and
resolves the symbol of the high half. -/
theorem AuipcPair.lookup (h : AuipcPair re obj i hi lo k) (stubs : RtldElf.Stubs)
    (wf : WellFormed re.host obj) (hsec : i < shnum obj) (htype : shType obj i = SHT_RELA)
    (call : Nat) : ∀ m e, e + m = relaCount obj i → e ≤ hi →
      re.lookupHi20From obj (stubs.rtldPatchCreateStub call) (relaSection obj i)
          (Rela.offset obj (relaEntry obj i hi)) m e =
        orFail .EINVAL (entrySym re stubs obj i hi call (dummyPatch obj i hi)) >>=
          fun sym => pure (sym + Rela.addend obj (relaEntry obj i hi))
  | 0, e, hm, he => absurd h.hi_lt (by omega)
  | m + 1, e, hm, he => by
      have hentry : RtldElf.relaAt (Shdr.offset obj (relaSection obj i).relaShdr) e =
          relaEntry obj i e := rfl
      rw [RtldElf.lookupHi20From, hentry,
        need_bind_of (wf.inside_relaEntry hsec htype (show e < relaCount obj i by omega))]
      rcases Nat.eq_or_lt_of_le he with rfl | hlt
      · exact if_pos ⟨rfl, by rw [h.hi_type]; decide⟩
      · have hne := h.hi_alone.offset_ne (show e < relaCount obj i by omega) (Nat.ne_of_lt hlt)
        exact (if_neg fun hc => hne hc.1).trans
          (AuipcPair.lookup h stubs wf hsec htype call m (e + 1) (by omega) hlt)

/-- The arguments of the low half: the distance of the second resolution `S'`. -/
theorem AuipcPair.relocArgs_lo (h : AuipcPair re obj i hi lo k) (wf : WellFormed re.host obj)
    (hhost : re.host = .riscv) (hsec : i < shnum obj) (htype : shType obj i = SHT_RELA) {p : Word × RtldPatchData}
    (hp : relocArgs re stubs obj i lo = .ok p) :
    ∃ S', entrySym re stubs obj i hi (2 * lo + 1) (dummyPatch obj i hi) = .ok S' ∧
      p = (S' + Rela.addend obj (relaEntry obj i hi) - entryPc obj i hi,
        ⟨0#64, k.pcrelNumber, 8#32, 0#64, 0#64⟩) := by
  have hlabel : entrySym re stubs obj i lo (2 * lo) (entryPatch obj i lo) =
      .ok (entryPc obj i hi) := h.label _ _
  have hlo : (entryPatch obj i lo).relType = k.pcrelNumber := h.lo_type
  have hnum : k.pcrelNumber = 24#32 ∨ k.pcrelNumber = 25#32 := by cases k <;> decide
  have hoff : entryPc obj i hi - Shdr.addr obj (relaSection obj i).tgtShdr =
      Rela.offset obj (relaEntry obj i hi) := add_sub_cancel_left _ _
  obtain ⟨sym, hsym, hrewrite⟩ := bind_eq_ok.mp hp
  rw [hlabel] at hsym
  cases orFail_eq_ok.mp hsym
  rw [RtldElf.rewriteLo12, if_pos ⟨hhost, hlo ▸ hnum⟩, hoff, RtldElf.lookupHi20Target] at hrewrite
  obtain ⟨target, htarget, hpure⟩ := bind_eq_ok.mp hrewrite
  have hlookup := h.lookup stubs wf hsec htype (2 * lo + 1) _ 0 (Nat.zero_add _)
    (Nat.zero_le hi)
  obtain ⟨S', hS', hadd⟩ := bind_eq_ok.mp (hlookup.symm.trans (orFail_eq_ok.mp htarget))
  cases hadd
  cases hpure
  refine ⟨S', orFail_eq_ok.mp hS', ?_⟩
  rw [← h.lo_type]
  rfl

/-- The second resolution agrees with the first unless it creates a stub. -/
theorem second_resolution_iff {S S' : Word} {call call' : Nat} {patchData patchData' : RtldPatchData}
    (hS : entrySym re stubs obj i hi call patchData = .ok S)
    (hS' : entrySym re stubs obj i hi call' patchData' = .ok S') :
    S'.extractLsb' 0 12 = S.extractLsb' 0 12 ↔
      ∀ addr stub, NeedsStub re obj i hi addr →
        stubs.rtldPatchCreateStub call' { patchData' with symAddr := addr } = .ok stub →
        stub.extractLsb' 0 12 = S.extractLsb' 0 12 := by
  constructor
  · intro heq addr stub hneeds hstub
    rw [entrySym, hneeds, hstub] at hS'
    cases hS'
    exact heq
  · intro hstubs
    rcases resolveSym_oneStub re obj (shLink obj i).toNat
      (Rela.sym obj (relaEntry obj i hi)).toNat with ⟨addr, hneeds⟩ | hsame
    · exact hstubs addr S' hneeds (call_eq_ok.mp ((hneeds _ _).symm.trans hS'))
    · have heq : S' = S := Except.ok.inj (hS'.symm.trans ((hsame _ _ _ _).trans hS))
      rw [heq]

/-- Distances from one place agree in the low bits when the addresses do. -/
theorem low_bits_add_iff (x y c : Word) :
    (x + c).extractLsb' 0 12 = (y + c).extractLsb' 0 12 ↔ x.extractLsb' 0 12 = y.extractLsb' 0 12 := by
  rw [← BitVec.toNat_inj, ← BitVec.toNat_inj, BitVec.extractLsb'_toNat, BitVec.extractLsb'_toNat,
    BitVec.extractLsb'_toNat, BitVec.extractLsb'_toNat, BitVec.toNat_add, BitVec.toNat_add]
  simp only [Nat.shiftRight_zero]
  omega

/-- What the two words of a pair become. -/
theorem AuipcPair.words (h : AuipcPair re obj i hi lo k) (hhost : re.host = .riscv)
    (hre : re.reShdr = eShoff obj) (wf : WellFormed re.host obj) {b' : Buf}
    (hrun : re.processRela stubs obj i = .ok b') {S : Word}
    (hS : entrySym re stubs obj i hi (2 * hi) (entryPatch obj i hi) = .ok S) :
    entryWord obj i hi b' = auipcPatch (S + Rela.addend obj (relaEntry obj i hi) -
        entryPc obj i hi) (entryWord obj i hi obj) ∧
      ∃ S', entrySym re stubs obj i hi (2 * lo + 1) (dummyPatch obj i hi) = .ok S' ∧
        entryWord obj i lo b' = k.patch (S' + Rela.addend obj (relaEntry obj i hi) -
          entryPc obj i hi) (entryWord obj i lo obj) := by
  obtain ⟨hi', ⟨hrel, -⟩, -⟩ :=
    (Relocating.refl wf.tableInside hre).processRela_ok wf.separate hrun
  have hhi := h.relocArgs_hi hS
  obtain ⟨p, hp, hw0⟩ := processRela_word wf hre hrun h.hi_lt h.hi_alone
    (f := fun p => auipcPatch (p.1 + p.2.addend - p.2.patchAddr)) fun p hp => by
      rw [hhi] at hp
      cases hp
      rw [entryReloc, hhost, rtldRelocAt_pcrelHi20]
  rw [hhi] at hp
  cases hp
  obtain ⟨p, hp, hw1⟩ := processRela_word wf hre hrun h.lo_lt h.lo_alone
    (f := fun p => k.patch (p.1 + p.2.addend - p.2.patchAddr)) fun p hp => by
      obtain ⟨S', -, rfl⟩ := h.relocArgs_lo wf hhost hi' hrel.rela hp
      rw [entryReloc, hhost, rtldRelocAt_pcrelLo12]
  obtain ⟨S', hS', rfl⟩ := h.relocArgs_lo wf hhost hi' hrel.rela hp
  refine ⟨hw0, S', hS', ?_⟩
  rw [entryWord, hw1, BitVec.add_zero, BitVec.sub_zero]
  rfl

/-- **A relocated pair computes its address exactly when it is in reach and has one stub.**
`S` is what the symbol of the auipc resolves to. When the symbol is a function that is not
translated yet, `S` is the stub of the first resolution, and the low half takes the low
bits of the stub of the second. -/
theorem auipc_pair_computes_iff (re : RtldElf) (stubs : RtldElf.Stubs) (obj b' : Buf)
    (i hi lo : Nat) (k : LoFormat) (S : Word) (hhost : re.host = .riscv)
    (hre : re.reShdr = eShoff obj) (wf : WellFormed re.host obj)
    (hpair : AuipcPair re obj i hi lo k) (hrun : re.processRela stubs obj i = .ok b')
    (hS : entrySym re stubs obj i hi (2 * hi) (entryPatch obj i hi) = .ok S) :
    AuipcPairComputes k (entryWord obj i hi obj) (entryWord obj i lo obj) (entryWord obj i hi b')
        (entryWord obj i lo b') (entryPc obj i hi) (S + Rela.addend obj (relaEntry obj i hi)) ↔
      Spans (S + Rela.addend obj (relaEntry obj i hi) - entryPc obj i hi) ∧
      ∀ addr stub, NeedsStub re obj i hi addr →
        stubs.rtldPatchCreateStub (2 * lo + 1) { dummyPatch obj i hi with symAddr := addr } = .ok stub →
        stub.extractLsb' 0 12 = S.extractLsb' 0 12 := by
  obtain ⟨hw0, S', hS', hw1⟩ := hpair.words hhost hre wf hrun hS
  rw [hw0, hw1, ← second_resolution_iff hS hS',
    auipc_words_compute_iff hpair.auipc hpair.base hpair.rd_ne, add_sub_assoc, add_sub_assoc,
    low_bits_add_iff]

end Pair

/-! ## Two objects -/

/-- The object with its `.text` at 0x400000002000. -/
def placed (obj : Buf) : Buf := obj.setU64 272#64 0x400000002000#64

def placedElf : RtldElf := { riscvElf with reShdr := 192#64 }

/-- The object after its `.rela.text` is processed. -/
def relocated (obj : Buf) : Buf :=
  match placedElf.processRela (riscvArena.stubs 2) obj 2 with
  | .ok b => b
  | .error _ => []

/-- What an evaluation says of a placed object: its section is opened, each of its entries
is resolved and accepted, and its first two entries are those of an auipc and its addi. -/
def PairChecked (obj : Buf) : Prop :=
  (placedElf.openRela obj 2).isOk = true ∧
    (∀ e < relaCount obj 2,
      (Rela.offset obj (relaEntry obj 2 e)).toNat < (shSize obj (tgtIdx obj 2)).toNat ∧
        (relocArgs placedElf (riscvArena.stubs 2) obj 2 e).toOption.any (fun p =>
          decide ((entryReloc placedElf (riscvArena.stubs 2) e p).1 = .ok ())) = true) ∧
    (0 < relaCount obj 2 ∧ 1 < relaCount obj 2 ∧
      Rela.type obj (relaEntry obj 2 0) = 23#32 ∧ Rela.type obj (relaEntry obj 2 1) = 24#32 ∧
      placedElf.resolveSym obj (fun _ => .error .EINVAL) (shLink obj 2).toNat
        (Rela.sym obj (relaEntry obj 2 1)).toNat (entryPatch obj 2 1) = .ok (entryPc obj 2 0) ∧
      opcode (entryWord obj 2 0 obj) = 0x17#7 ∧
      rs1 (entryWord obj 2 1 obj) = rd (entryWord obj 2 0 obj) ∧
      rd (entryWord obj 2 0 obj) ≠ 0#5 ∧
      (∀ e < relaCount obj 2, e ≠ 0 → (patchRange .riscv obj 2 e).Apart
        ⟨(Rela.offset obj (relaEntry obj 2 0)).toNat, 4⟩) ∧
      ∀ e < relaCount obj 2, e ≠ 1 → (patchRange .riscv obj 2 e).Apart
        ⟨(Rela.offset obj (relaEntry obj 2 1)).toNat, 4⟩)

instance : DecidablePred PairChecked := fun _ => inferInstanceAs (Decidable (_ ∧ _ ∧ _))

theorem PairChecked.processRela {obj : Buf} (h : PairChecked obj) (wf : WellFormed .riscv obj)
    (hre : placedElf.reShdr = eShoff obj) :
    placedElf.processRela (riscvArena.stubs 2) obj 2 = .ok (relocated obj) := by
  have hobj : Relocating placedElf obj obj := .refl wf.tableInside hre
  have hopen : 2 < shnum obj ∧ Relocates obj 2 := by
    by_contra hnot
    have hok := h.1
    rw [hobj.loading.openRela_eq, if_neg hnot] at hok
    cases hok
  obtain ⟨b', hrun⟩ := hobj.exists_processRela wf.separate hopen.1
    (wf.sectionFits rfl (riscvArena.stubs 2) hopen.1)
    ⟨hopen.2, fun e he => ⟨(h.2.1 e he).1, exists_ok_of_any (h.2.1 e he).2⟩⟩
  rw [relocated, hrun]

theorem PairChecked.pair {obj : Buf} (h : PairChecked obj) :
    AuipcPair placedElf obj 2 0 1 .I := by
  obtain ⟨-, -, hhi, hlo, hhi_type, hlo_type, hlabel, hauipc, hbase, hrd, hhi_alone, hlo_alone⟩ := h
  exact ⟨hhi, hlo, hhi_type, hlo_type, resolveSym_fixed _ hlabel, hauipc, hbase, hrd, hhi_alone,
    hlo_alone⟩

/-- Placing an object changes one address. -/
theorem placed_wellFormed {obj : Buf} (wf : WellFormed .riscv obj) (hre : eShoff obj = 192#64)
    (hone : 1 < shnum obj) (halloc : Allocated obj 1) :
    WellFormed .riscv (placed obj) ∧ placedElf.reShdr = eShoff (placed obj) := by
  have hat : shdrAt obj 1 + 16#64 = 272#64 := by
    rw [shdrAt, hre]
    rfl
  have hstart : Loading placedElf obj obj := .refl wf.tableInside hre.symm
  have hload : Loading placedElf obj (placed obj) := by
    have hset := hstart.setAddr wf.separate hone halloc 0x400000002000#64
    rwa [hat] at hset
  refine ⟨WellFormed.placed (show WellFormed placedElf.host obj from wf) hload fun o ho => ?_,
    hre.symm.trans hload.eShoff_same.symm⟩
  refine obj.mem_setU64_of_not_mem _ (by decide) fun hmem => ho ?_
  refine wf.tableInside.mem_tableRange hone ?_
  have hat' : (shdrAt obj 1).toNat + 16 = 272 := by
    rw [shdrAt, hre]
    rfl
  simp only [Range.Mem] at hmem ⊢
  have : (272#64).toNat = 272 := rfl
  omega

/-- The pair for an absolute address one page behind it. -/
theorem auipc_pair_absolute :
    WellFormed .riscv (placed auipcAbsolute) ∧
      AuipcPair placedElf (placed auipcAbsolute) 2 0 1 .I ∧
      placedElf.processRela (riscvArena.stubs 2) (placed auipcAbsolute) 2 =
        .ok (relocated (placed auipcAbsolute)) ∧
      AuipcPairComputes .I (entryWord (placed auipcAbsolute) 2 0 (placed auipcAbsolute))
        (entryWord (placed auipcAbsolute) 2 1 (placed auipcAbsolute))
        (entryWord (placed auipcAbsolute) 2 0 (relocated (placed auipcAbsolute)))
        (entryWord (placed auipcAbsolute) 2 1 (relocated (placed auipcAbsolute)))
        (entryPc (placed auipcAbsolute) 2 0)
        (0x400000003000#64 + Rela.addend (placed auipcAbsolute) (relaEntry (placed auipcAbsolute) 2 0)) := by
  obtain ⟨hshoff, hone, halloc⟩ : eShoff auipcAbsolute = 192#64 ∧ 1 < shnum auipcAbsolute ∧
      Allocated auipcAbsolute 1 := by
    decide +kernel
  obtain ⟨wf, hre⟩ := placed_wellFormed auipcAbsolute_wellFormed hshoff hone halloc
  obtain ⟨hcheck, hfixed, hspans⟩ : PairChecked (placed auipcAbsolute) ∧
      placedElf.resolveSym (placed auipcAbsolute) (fun _ => .error .EINVAL)
        (shLink (placed auipcAbsolute) 2).toNat
        (Rela.sym (placed auipcAbsolute) (relaEntry (placed auipcAbsolute) 2 0)).toNat
        (entryPatch (placed auipcAbsolute) 2 0) = .ok 0x400000003000#64 ∧
      Spans (0x400000003000#64 + Rela.addend (placed auipcAbsolute)
        (relaEntry (placed auipcAbsolute) 2 0) - entryPc (placed auipcAbsolute) 2 0) := by
    decide +kernel
  have hrun := hcheck.processRela wf hre
  refine ⟨wf, hcheck.pair, hrun, ?_⟩
  rw [auipc_pair_computes_iff placedElf (riscvArena.stubs 2) _ _ 2 0 1 .I 0x400000003000#64 rfl
    hre wf hcheck.pair hrun (resolveSym_fixed _ hfixed _ _)]
  refine ⟨hspans, fun addr stub hneeds _ => ?_⟩
  -- an absolute symbol needs no stub
  have := (hneeds _ _).symm.trans hfixed
  exact nomatch this

/-- The object for the function at guest address 0x401000. -/
def auipcUntranslated : Buf := placed (auipcObject absoluteName 0 0)

/-- A pair for a function that is not translated, whose auipc is relocated for the stub at
0x4000000027c0 and whose addi for the stub at 0x400000002800. The low half of the second is
negative, so the pair computes 0x400000001800, which is neither of them. -/
theorem untranslated_pair_splits :
    placedElf.processRela (riscvArena.stubs 2) auipcUntranslated 2 = .ok (relocated auipcUntranslated) ∧
      entrySym placedElf (riscvArena.stubs 2) auipcUntranslated 2 0 0
        (entryPatch auipcUntranslated 2 0) = .ok 0x4000000027c0#64 ∧
      (exec (entryWord auipcUntranslated 2 0 (relocated auipcUntranslated))
        ⟨entryPc auipcUntranslated 2 0, fun _ => 0#64⟩).map (fun s =>
          s.get (rs1 (entryWord auipcUntranslated 2 1 (relocated auipcUntranslated))) +
            immI (entryWord auipcUntranslated 2 1 (relocated auipcUntranslated))) =
        some 0x400000001800#64 ∧
      ¬ AuipcPairComputes .I (entryWord auipcUntranslated 2 0 auipcUntranslated)
        (entryWord auipcUntranslated 2 1 auipcUntranslated)
        (entryWord auipcUntranslated 2 0 (relocated auipcUntranslated))
        (entryWord auipcUntranslated 2 1 (relocated auipcUntranslated))
        (entryPc auipcUntranslated 2 0)
        (0x4000000027c0#64 + Rela.addend auipcUntranslated (relaEntry auipcUntranslated 2 0)) := by
  obtain ⟨wf₀, hshoff, hone, halloc⟩ : WellFormed .riscv (auipcObject absoluteName 0 0) ∧
      eShoff (auipcObject absoluteName 0 0) = 192#64 ∧ 1 < shnum (auipcObject absoluteName 0 0) ∧
      Allocated (auipcObject absoluteName 0 0) 1 := by
    decide +kernel
  obtain ⟨wf, hre⟩ : WellFormed .riscv auipcUntranslated ∧
      placedElf.reShdr = eShoff auipcUntranslated := placed_wellFormed wf₀ hshoff hone halloc
  obtain ⟨hcheck, hS, hS₁, hpc, haddend, hword₀, hword₁⟩ : PairChecked auipcUntranslated ∧
      entrySym placedElf (riscvArena.stubs 2) auipcUntranslated 2 0 0
        (entryPatch auipcUntranslated 2 0) = .ok 0x4000000027c0#64 ∧
      entrySym placedElf (riscvArena.stubs 2) auipcUntranslated 2 0 3
        (dummyPatch auipcUntranslated 2 0) = .ok 0x400000002800#64 ∧
      entryPc auipcUntranslated 2 0 = 0x400000002000#64 ∧
      Rela.addend auipcUntranslated (relaEntry auipcUntranslated 2 0) = 0#64 ∧
      entryWord auipcUntranslated 2 0 auipcUntranslated = 0x00000517#32 ∧
      entryWord auipcUntranslated 2 1 auipcUntranslated = 0x00050513#32 := by
    decide +kernel
  have hrun := hcheck.processRela wf hre
  obtain ⟨hw₀, S', hS', hw₁⟩ := hcheck.pair.words rfl hre wf hrun hS
  cases hS'.symm.trans hS₁
  rw [hpc, haddend, hword₀] at hw₀
  rw [hpc, haddend, hword₁] at hw₁
  refine ⟨hrun, hS, ?_, fun h => ?_⟩
  · rw [hw₀, hw₁, hpc]
    decide
  · rw [hw₀, hw₁, hpc, haddend] at h
    have hc := h.computes ⟨0x400000002000#64, fun _ => 0#64⟩ rfl
    exact absurd hc (by decide)

end Instrew.Client
