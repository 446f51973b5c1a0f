import Instrew.Basic

/-!
# Symbol names of translated functions, client side

`rtld_elf_decode_name` of `client/rtld.c`: a name is `Z` or `S`, octal digits,
and optionally a tail that starts with `_`. A name is the list of its
characters before the terminating NUL.
-/

namespace Instrew.Client

/-- The digits of `rtld_elf_decode_name`: `none` is the early `return 0` at a
character that is neither an octal digit nor the end. -/
def decodeOctal : List Byte → Word → Option Word
  | [], addr => some addr
  | c :: cs, addr =>
      if c = 0x5f#8 then some addr
      else if c < 0x30#8 ∨ 0x38#8 ≤ c then none
      else decodeOctal cs (addr <<< 3 ||| (c - 0x30#8).setWidth 64)

/-- `rtld_elf_decode_name`: the returned code, and `*out_addr` afterwards. -/
def rtldElfDecodeName (skew : Word) (name : List Byte) (out : Word) :
    Except Errno Unit × Word :=
  match name with
  | [] => (.error .EINVAL, out)
  | c :: cs =>
      if c ≠ 0x5a#8 ∧ c ≠ 0x53#8 then (.error .EINVAL, out)
      else
        match decodeOctal cs 0#64 with
        | none => (.ok (), out)
        | some addr => (.ok (), if c = 0x53#8 then addr + skew else addr)

/-! ## Decoding digits -/

/-- The octal digit `d` as a character. -/
def octalChar (d : Nat) : Byte := BitVec.ofNat 8 (0x30 + d)

/-- The number a list of octal digits denotes, most significant first. -/
def octalValue (ds : List Nat) : Nat := ds.foldl (fun v d => 8 * v + d) 0

/-- One round of the decoder's shift and or appends a digit. -/
theorem push_octal (acc : Word) {d : Nat} (hd : d < 8) :
    acc <<< 3 ||| BitVec.ofNat 64 d = BitVec.ofNat 64 (8 * acc.toNat + d) := by
  apply BitVec.eq_of_toNat_eq
  have h1 : acc.toNat <<< 3 % 2 ^ 64 = 2 ^ 3 * (acc.toNat % 2 ^ 61) := by
    rw [Nat.shiftLeft_eq]
    omega
  have h2 : d % 2 ^ 64 = d := Nat.mod_eq_of_lt (by omega)
  rw [BitVec.toNat_or, BitVec.toNat_shiftLeft, BitVec.toNat_ofNat, BitVec.toNat_ofNat, h1, h2,
    ← Nat.two_pow_add_eq_or_of_lt hd]
  omega

theorem decodeOctal_digit (cs : List Byte) (acc : Word) {d : Nat} (hd : d < 8) :
    decodeOctal (octalChar d :: cs) acc =
      decodeOctal cs (BitVec.ofNat 64 (8 * acc.toNat + d)) := by
  rw [← push_octal acc hd, decodeOctal]
  have h1 : octalChar d ≠ 0x5f#8 := by
    interval_cases d <;> decide
  have h2 : ¬ (octalChar d < 0x30#8 ∨ 0x38#8 ≤ octalChar d) := by
    interval_cases d <;> decide
  have h3 : (octalChar d - 0x30#8).setWidth 64 = BitVec.ofNat 64 d := by
    interval_cases d <;> decide
  rw [if_neg h1, if_neg h2, h3]

/-- A tail that ends the digits: nothing, or `_` and anything. -/
def IsTail (tail : List Byte) : Prop := tail = [] ∨ tail.head? = some 0x5f#8

theorem decodeOctal_tail {tail : List Byte} (h : IsTail tail) (acc : Word) :
    decodeOctal tail acc = some acc := by
  rcases h with rfl | h
  · rfl
  · cases tail with
    | nil => rfl
    | cons c cs =>
        cases h
        rw [decodeOctal, if_pos rfl]

/-- The decoder reads a list of digits to the number it denotes, modulo
2^64. -/
theorem decodeOctal_digits {tail : List Byte} (h : IsTail tail) (ds : List Nat) :
    ∀ v : Nat, (∀ d ∈ ds, d < 8) →
    decodeOctal (ds.map octalChar ++ tail) (BitVec.ofNat 64 v) =
      some (BitVec.ofNat 64 (ds.foldl (fun v d => 8 * v + d) v)) := by
  induction ds with
  | nil =>
      intro v _
      exact decodeOctal_tail h _
  | cons d ds ih =>
      intro v hds
      have hd := hds d List.mem_cons_self
      rw [List.map_cons, List.cons_append, decodeOctal_digit _ _ hd, List.foldl_cons,
        ← ih (8 * v + d) (fun e he => hds e (List.mem_cons_of_mem _ he))]
      congr 1
      apply BitVec.eq_of_toNat_eq
      simp only [BitVec.toNat_ofNat]
      omega

end Instrew.Client
