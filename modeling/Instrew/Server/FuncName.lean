import Instrew.Client.SymbolName

/-!
# Symbol names of translated functions, server side

The name `IWState::Translate` gives the lifted function
(`server/rewriteserver.cc`): `S` followed by the octal digits of the guest
address. `ChangeCallConv` may append a tail that starts with `_`.
-/

namespace Instrew.Server

open Client (octalChar octalValue)

/-- The do-while loop that collects the octal digits, least significant first.
A 64-bit value has at most 22 of them. -/
def octalLoop : Nat → Word → List Byte
  | 0, _ => []
  | n + 1, a =>
      (0x30#8 + (a &&& 7#64).setWidth 8) ::
        (if a >>> 3 = 0#64 then [] else octalLoop n (a >>> 3))

/-- `octal_addr` after the `std::reverse`. -/
def octalAddr (addr : Word) : List Byte := (octalLoop 22 addr).reverse

/-- The name of the function translated for `addr`. -/
def translateName (addr : Word) : List Byte := 0x53#8 :: octalAddr addr

theorem octalLoop_char (a : Word) :
    0x30#8 + (a &&& 7#64).setWidth 8 = octalChar (a.toNat % 8) := by
  have h7 : (a &&& 7#64).toNat = a.toNat % 8 := by
    rw [BitVec.toNat_and]
    exact Nat.and_two_pow_sub_one_eq_mod a.toNat 3
  apply BitVec.eq_of_toNat_eq
  rw [BitVec.toNat_add, BitVec.toNat_setWidth, h7, octalChar, BitVec.toNat_ofNat,
    BitVec.toNat_ofNat]
  omega

theorem octalLoop_digits : ∀ (n : Nat) (a : Word), a.toNat < 8 ^ n →
    ∃ ds : List Nat, octalLoop n a = ds.map octalChar ∧ (∀ d ∈ ds, d < 8) ∧
      ds.foldr (fun d v => 8 * v + d) 0 = a.toNat
  | 0, a, h => ⟨[], rfl, by simp, by simp at h; simp [h]⟩
  | n + 1, a, h => by
      have hdig : a.toNat % 8 < 8 := Nat.mod_lt _ (by omega)
      have hshift : (a >>> 3).toNat = a.toNat / 8 := by
        rw [BitVec.toNat_ushiftRight, Nat.shiftRight_eq_div_pow]
      rw [octalLoop, octalLoop_char]
      by_cases h0 : a >>> 3 = 0#64
      · rw [if_pos h0]
        have hsmall : a.toNat / 8 = 0 := by
          rw [← hshift, h0]
          rfl
        refine ⟨[a.toNat % 8], rfl, by simpa using hdig, ?_⟩
        simp only [List.foldr_cons, List.foldr_nil]
        omega
      · rw [if_neg h0]
        have hlt : (a >>> 3).toNat < 8 ^ n := by
          rw [hshift]
          rw [pow_succ] at h
          omega
        obtain ⟨ds, hmap, hds, hval⟩ := octalLoop_digits n (a >>> 3) hlt
        refine ⟨a.toNat % 8 :: ds, by rw [List.map_cons, hmap], ?_, ?_⟩
        · intro d hd
          rcases List.mem_cons.mp hd with rfl | hd
          · exact hdig
          · exact hds d hd
        · rw [List.foldr_cons, hval, hshift]
          omega

/-- The digits of a name denote the address. -/
theorem octalAddr_digits (addr : Word) :
    ∃ ds : List Nat, octalAddr addr = ds.map octalChar ∧ (∀ d ∈ ds, d < 8) ∧
      octalValue ds = addr.toNat := by
  obtain ⟨ds, hmap, hds, hval⟩ := octalLoop_digits 22 addr (by
    have := addr.isLt
    omega)
  refine ⟨ds.reverse, by rw [octalAddr, hmap, List.map_reverse], ?_, ?_⟩
  · intro d hd
    exact hds d (List.mem_reverse.mp hd)
  · rw [octalValue, List.foldl_reverse, hval]

end Instrew.Server
