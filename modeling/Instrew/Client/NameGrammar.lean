import Instrew.Client.ProcessRela

/-!
# Which symbol names are decoded

`rtld_elf_decode_name` of `client/rtld.c` against the language its comment gives: `Z` or
`S`, the octal digits of a 64-bit value, and an optional tail that starts with `_`. What
the decoder says decides in `rtld_elf_resolve_sym` whether an undefined symbol is a guest
address, a function of the PLT or an error.

The decoder looks at the first character only to say yes (`rtldElfDecodeName_ok_iff`): it
leaves with 0 at a character that is no digit, takes no digits for an address and lets the
value wrap. `decodesGrammar_iff` is the headline: the decoder is right about the names of
the language and about those with another first letter, and wrong about all others.
-/

namespace Instrew.Client

/-! ## The language -/

/-- The name is `c`, the octal digits of `v`, and a tail. -/
def NameOf (name : List Byte) (c : Byte) (v : Word) : Prop :=
  (c = 0x5a#8 ∨ c = 0x53#8) ∧ ∃ (ds : List Nat) (tail : List Byte),
    ds ≠ [] ∧ (∀ d ∈ ds, d < 8) ∧ octalValue ds < 2 ^ 64 ∧ IsTail tail ∧
      name = c :: (ds.map octalChar ++ tail) ∧ v = BitVec.ofNat 64 (octalValue ds)

def InGrammar (name : List Byte) : Prop := ∃ c v, NameOf name c v

/-- The first character announces an address. -/
def Announced (name : List Byte) : Prop :=
  name.head? = some 0x5a#8 ∨ name.head? = some 0x53#8

instance (name : List Byte) : Decidable (Announced name) := inferInstanceAs (Decidable (_ ∨ _))

theorem NameOf.announced {name : List Byte} {c : Byte} {v : Word} (h : NameOf name c v) :
    Announced name := by
  obtain ⟨hc, ds, tail, -, -, -, -, rfl, -⟩ := h
  rcases hc with rfl | rfl
  · exact .inl rfl
  · exact .inr rfl

/-! ## The decoder -/

/-- The decoder accepts by the first character. -/
theorem rtldElfDecodeName_ok_iff (skew : Word) (name : List Byte) (out : Word) :
    (rtldElfDecodeName skew name out).1 = .ok () ↔ Announced name := by
  cases name with
  | nil => simp [rtldElfDecodeName, Announced]
  | cons c cs =>
      have hannounced : Announced (c :: cs) ↔ ¬ (c ≠ 0x5a#8 ∧ c ≠ 0x53#8) := by
        simp only [Announced, List.head?_cons, Option.some.injEq]
        tauto
      rw [hannounced, rtldElfDecodeName]
      by_cases hc : c ≠ 0x5a#8 ∧ c ≠ 0x53#8
      · rw [if_pos hc]
        exact iff_of_false nofun (not_not_intro hc)
      · rw [if_neg hc]
        refine iff_of_true ?_ hc
        cases decodeOctal cs 0#64 <;> rfl

/-- Any other name is refused, and nothing is stored. -/
theorem rtldElfDecodeName_of_not_announced {name : List Byte} (h : ¬ Announced name)
    (skew out : Word) : rtldElfDecodeName skew name out = (.error .EINVAL, out) := by
  cases name with
  | nil => rfl
  | cons c cs =>
      rw [rtldElfDecodeName, if_pos]
      simpa [Announced] using h

theorem rtldElfDecodeName_of_nameOf {name : List Byte} {c : Byte} {v : Word}
    (h : NameOf name c v) (skew out : Word) :
    rtldElfDecodeName skew name out = (.ok (), if c = 0x53#8 then v + skew else v) := by
  obtain ⟨hc, ds, tail, -, hds, -, htail, rfl, rfl⟩ := h
  rw [rtldElfDecodeName, if_neg (by tauto), decodeOctal_digits htail ds 0 hds, octalValue]

/-! ## The caller -/

/-- `rtld_elf_resolve_sym` for an undefined symbol that is no guest address. -/
def RtldElf.resolvePlt (re : RtldElf) (name : List Byte) : Except Errno Word :=
  if chars "glob_" <+: name then .error .EINVAL
  else if name = chars "instrew_baseaddr" then .ok re.skew
  else
    match ((pltEntries re.host).map chars).idxOf? name with
    | some i => .ok (re.plt + BitVec.ofNat 64 (i * pltFuncSize re.host))
    | none => .error .EINVAL

theorem RtldElf.resolveName_of_not_announced {name : List Byte} (h : ¬ Announced name)
    (re : RtldElf) (createStub : RtldPatchData → Except Errno Word) (patchData : RtldPatchData) :
    re.resolveName createStub patchData name = re.resolvePlt name := by
  rw [resolveName, rtldElfDecodeName_of_not_announced h]
  rfl

/-- What the decoder is to do with a name. -/
structure DecodesGrammar (skew : Word) (name : List Byte) (out : Word) : Prop where
  accepts : (rtldElfDecodeName skew name out).1 = .ok () ↔ InGrammar name
  stores : ∀ c v, NameOf name c v →
    (rtldElfDecodeName skew name out).2 = if c = 0x53#8 then v + skew else v
  keeps : ¬ InGrammar name → (rtldElfDecodeName skew name out).2 = out
  goesOn : ¬ InGrammar name → ∀ (re : RtldElf) createStub patchData, re.skew = skew →
    re.resolveName createStub patchData name = re.resolvePlt name

/-- **The decoder is right about its language and about names that do not announce an
address.** A name that starts with `Z` or `S` and is not of the language is accepted. -/
theorem decodesGrammar_iff (skew : Word) (name : List Byte) (out : Word) :
    DecodesGrammar skew name out ↔ (Announced name → InGrammar name) := by
  constructor
  · intro h hann
    exact h.accepts.mp ((rtldElfDecodeName_ok_iff skew name out).mpr hann)
  · intro h
    have hiff : Announced name ↔ InGrammar name := by
      refine ⟨h, ?_⟩
      rintro ⟨c, v, hname⟩
      exact hname.announced
    refine ⟨?_, ?_, ?_, ?_⟩
    · rw [rtldElfDecodeName_ok_iff, hiff]
    · intro c v hname
      rw [rtldElfDecodeName_of_nameOf hname]
    · intro hno
      rw [← hiff] at hno
      rw [rtldElfDecodeName_of_not_announced hno]
    · intro hno re createStub patchData _
      rw [← hiff] at hno
      exact re.resolveName_of_not_announced hno createStub patchData

/-- A name needs a digit to be of the language. -/
theorem InGrammar.second_digit {c c' : Byte} {cs : List Byte} (h : InGrammar (c :: c' :: cs)) :
    ∃ d < 8, c' = octalChar d := by
  obtain ⟨_, _, -, ds, tail, hne, hds, -, -, hname, -⟩ := h
  cases ds with
  | nil => exact absurd rfl hne
  | cons d ds =>
      rw [List.map_cons, List.cons_append] at hname
      injection hname with _ hname
      injection hname with hd _
      exact ⟨d, hds d List.mem_cons_self, hd⟩

/-- An undefined symbol `Sleep` is not an error: it gets a stub for guest address 0. -/
theorem sleep_decoded :
    ¬ DecodesGrammar 0#64 (chars "Sleep") 0#64 ∧
    ∀ (re : RtldElf) createStub patchData, re.resolveName createStub patchData (chars "Sleep") =
      createStub { patchData with symAddr := 0#64 } := by
  constructor
  · intro h
    have haccepted := (rtldElfDecodeName_ok_iff 0#64 (chars "Sleep") 0#64).mpr (by decide)
    obtain ⟨d, hd, hl⟩ := InGrammar.second_digit (h.accepts.mp haccepted)
    interval_cases d <;> revert hl <;> decide
  · intro re createStub patchData
    have hglob : ¬ chars "glob_" <+: chars "Sleep" := by decide
    have hbase : chars "Sleep" ≠ chars "instrew_baseaddr" := by decide
    have hdec : rtldElfDecodeName re.skew (chars "Sleep") 0#64 = (.ok (), 0#64) := rfl
    rw [RtldElf.resolveName, if_neg hglob, if_neg hbase, hdec]
    rfl

end Instrew.Client
