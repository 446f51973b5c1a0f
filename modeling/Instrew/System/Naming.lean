import Instrew.Client.Dispatch
import Instrew.Server.FuncName

/-!
# Server and client on the name of a translated function

The server names the function translated for `addr` with the octal digits of
`addr` behind an `S`, and the client reads an `S` name as relative to the skew
of the object. `resolve_func` loads the answer with skew `addr`, so the address
is added twice: the function is registered under `2 * addr` (mod 2^64), and the
look-up of `addr` that follows finds nothing (`translate_name_misses`).
-/

namespace Instrew.System

open Client Server

/-- The decoder reads a translated function's name as its address plus the
skew of the object. -/
theorem decodeName_translateName (skew addr out : Word) {tail : List Byte}
    (htail : IsTail tail) :
    rtldElfDecodeName skew (translateName addr ++ tail) out = (.ok (), addr + skew) := by
  obtain ⟨ds, hmap, hds, hval⟩ := octalAddr_digits addr
  have hdec : decodeOctal (octalAddr addr ++ tail) 0#64 = some addr := by
    rw [hmap, decodeOctal_digits htail ds 0 hds, ← octalValue, hval, BitVec.ofNat_toNat]
    simp
  simp [rtldElfDecodeName, translateName, hdec]

theorem double_ne_self {addr : Word} (h : addr ≠ 0#64) : addr + addr ≠ addr := by
  intro heq
  apply h
  bv_omega

/-- The object the server answers `C_TRANSLATE addr` with, as the last pass of
the loader reads it: its one global function carries the name of `addr`,
with or without a calling-convention tail. -/
def AnswersTranslate (addr : Word) (secs : List Nat) (b : Buf) : Prop :=
  ∃ sec sym tail, globalFuncs b secs = [(sec, sym)] ∧ IsTail tail ∧
    rtldElfResolveStr b (shLink b sec) (stName b sym) = .ok (translateName addr ++ tail)

/-- Registrations for other addresses leave an unknown address unknown. -/
theorem keptBySets_unknown (addr : Word) :
    KeptBySets (fun objects => Indexed objects ∧ rtldResolve objects addr = .error .ENOENT)
      (fun new => new.addr ≠ addr) where
  step := fun objects new h hne => by
    obtain ⟨⟨l, hl⟩, hres⟩ := h
    have hset := (hl.set new).2
    refine ⟨⟨_, hset⟩, ?_⟩
    have hnone : l.objectAt? addr = none := by
      rw [hl.resolve] at hres
      cases he : l.objectAt? addr with
      | none => rfl
      | some e =>
          rw [he] at hres
          cases hres
    rw [hset.resolve]
    rcases l.set_cases new with ⟨-, hl'⟩ | ⟨e, -, hl'⟩
    · have hbeq : (addr == new.addr) = false := by simpa using Ne.symm hne
      rw [hl']
      unfold CodeMap.objectAt? at hnone ⊢
      rw [Option.map_eq_none_iff] at hnone
      rw [List.lookup_append, hnone]
      simp [List.lookup_cons, hbeq]
    · rw [hl', hnone]

/-- **The name never leads back to the address.** Let the index hold what any
earlier registrations left, with the non-zero address `addr` not among them,
and let the server answer with an object whose one global function carries the
name of `addr`. The client reads that name as `addr + addr`; whatever the other
passes do, `addr` is unknown after `rtld_add_object`, and `resolve_func` takes
its error exit. -/
theorem translate_name_misses (addr : Word) (h0 : addr ≠ 0#64) (calls : List RtldObject)
    (hnew : addr ∉ mapped (rtldLog rtldEmpty calls))
    (env : CallEnv) (obj : Buf) (objBase : Word)
    (hget : env.translatorGet addr = .ok (obj, objBase))
    (hobj : ∀ b, rtldPlaceObject env.load (rtldSets rtldEmpty calls) obj addr = .ok b →
      AnswersTranslate addr (sections obj) b) :
    (∀ tail, IsTail tail →
      rtldElfDecodeName addr (translateName addr ++ tail) 0#64 = (.ok (), addr + addr)) ∧
    addr + addr ≠ addr ∧
    rtldResolve (rtldAddObject env.load (rtldSets rtldEmpty calls) obj objBase addr).2 addr =
      .error .ENOENT ∧
    ∀ quickTlb, resolveFunc env ⟨quickTlb, rtldSets rtldEmpty calls⟩ addr none = none := by
  have hrep := rtldSets_rep calls indexRep_empty
  rw [List.nil_append] at hrep
  have hunknown : rtldResolve (rtldSets rtldEmpty calls) addr = .error .ENOENT := by
    have habs : addr ∉ (okCalls (rtldLog rtldEmpty calls)).map Prod.fst := by
      simpa [mapped] using hnew
    rw [hrep.resolve]
    simp [CodeMap.objectAt?, lookup_eq_none_of_not_mem habs]
  have hafter : rtldResolve
      (rtldAddObject env.load (rtldSets rtldEmpty calls) obj objBase addr).2 addr =
        .error .ENOENT := by
    refine (rtldAddObject_kept (keptBySets_unknown addr) ?_ ⟨⟨_, hrep⟩, hunknown⟩).2
    intro b hb p hp new hnewReg
    obtain ⟨sec, sym, tail, hfuncs, htail, hname⟩ := hobj b hb
    rw [hfuncs, List.mem_singleton] at hp
    subst hp
    obtain ⟨name, hname', hdec⟩ := hnewReg.name
    rw [hname] at hname'
    cases hname'
    rw [decodeName_translateName addr addr 0#64 htail] at hdec
    have haddr : addr + addr = new.addr := congrArg Prod.snd hdec
    rw [← haddr]
    exact double_ne_self h0
  refine ⟨fun tail htail => decodeName_translateName addr addr 0#64 htail,
    double_ne_self h0, hafter, ?_⟩
  intro quickTlb
  have hfail : ∃ e, resolveAddr env (rtldSets rtldEmpty calls) addr = .error e := by
    unfold resolveAddr
    rw [hunknown, hget]
    simp only [bind, Except.bind]
    cases hadd : rtldAddObject env.load (rtldSets rtldEmpty calls) obj objBase addr with
    | mk code o =>
        rw [hadd] at hafter
        cases code with
        | error e => exact ⟨e, rfl⟩
        | ok u =>
            simp only at hafter ⊢
            rw [hafter]
            exact ⟨_, rfl⟩
  obtain ⟨e, he⟩ := hfail
  simp [resolveFunc, he]

/-- The server's answer for address 0x401000. -/
def sampleAnswer : Buf := objectNamed (translateName 0x401000#64)

/-- The answer as the last pass reads it. -/
def samplePlaced : Buf :=
  ((rtldPlaceObject firstBlockEnv rtldEmpty sampleAnswer 0x401000#64).toOption).getD []

-- one evaluation of the placement for the three facts
theorem samplePlaced_checked :
    rtldPlaceObject firstBlockEnv rtldEmpty sampleAnswer 0x401000#64 = .ok samplePlaced ∧
      globalFuncs samplePlaced (sections sampleAnswer) = [(2, 96#64)] ∧
      rtldElfResolveStr samplePlaced (shLink samplePlaced 2) (stName samplePlaced 96#64) =
        .ok (translateName 0x401000#64 ++ []) := by
  decide +kernel

theorem samplePlaced_answers :
    AnswersTranslate 0x401000#64 (sections sampleAnswer) samplePlaced :=
  ⟨2, 96#64, [], samplePlaced_checked.2.1, Or.inl rfl, samplePlaced_checked.2.2⟩

theorem translate_name_misses_sample :
    resolveFunc ⟨firstBlockEnv, false, fun _ => .ok (sampleAnswer, 0x1000#64)⟩
      ⟨fun _ => (0#64, 0#64), rtldSets rtldEmpty []⟩ 0x401000#64 none = none :=
  (translate_name_misses 0x401000#64 (by decide) [] (by decide)
    ⟨firstBlockEnv, false, fun _ => .ok (sampleAnswer, 0x1000#64)⟩ sampleAnswer 0x1000#64 rfl
    (fun b hb => by
      have hplaced : rtldPlaceObject firstBlockEnv rtldEmpty sampleAnswer 0x401000#64 = .ok b := hb
      rw [samplePlaced_checked.1] at hplaced
      rw [← Except.ok.inj hplaced]
      exact samplePlaced_answers)).2.2.2 _

/-- The answer for address 0x401000 loads without error, and its function is
found under 0x802000. -/
theorem translated_function_misplaced :
    rtldPlaceObject firstBlockEnv rtldEmpty sampleAnswer 0x401000#64 = .ok samplePlaced ∧
      AnswersTranslate 0x401000#64 (sections sampleAnswer) samplePlaced ∧
      (rtldAddObject firstBlockEnv rtldEmpty sampleAnswer 0x1000#64 0x401000#64).1 = .ok () ∧
      rtldResolve
        (rtldAddObject firstBlockEnv rtldEmpty sampleAnswer 0x1000#64 0x401000#64).2
        0x401000#64 = .error .ENOENT ∧
      rtldResolve
        (rtldAddObject firstBlockEnv rtldEmpty sampleAnswer 0x1000#64 0x401000#64).2
        0x802000#64 = .ok 0x400000000000#64 := by
  refine ⟨samplePlaced_checked.1, samplePlaced_answers, ?_⟩
  -- one evaluation of the load for all three
  decide +kernel

end Instrew.System
