import Instrew.Basic

/-!
# Byte-addressed memory

Numbers stored in and loaded from a memory of bytes, little-endian. What is loaded after
a store is the number cut to the size of the store (`load_store`), and a number that was
loaded has the bytes it was loaded from (`byte_load`).
-/

namespace Instrew.Lib.ByteMem

abbrev Mem : Type := Nat → Byte

/-- Byte `j` of a number. -/
def byte (v j : Nat) : Byte := BitVec.ofNat 8 (v / 256 ^ j)

def load (m : Mem) (off : Nat) : Nat → Nat
  | 0 => 0
  | size + 1 => (m off).toNat + 256 * load m (off + 1) size

def store (m : Mem) (off size v : Nat) : Mem :=
  fun o => if off ≤ o ∧ o < off + size then byte v (o - off) else m o

variable {m m' : Mem} {off size v o : Nat}

theorem store_of_mem (h : off ≤ o ∧ o < off + size) : store m off size v o = byte v (o - off) :=
  if_pos h

theorem store_of_not_mem (h : ¬ (off ≤ o ∧ o < off + size)) : store m off size v o = m o :=
  if_neg h

theorem load_congr : ∀ {size off : Nat}, (∀ o, off ≤ o → o < off + size → m o = m' o) →
    load m off size = load m' off size
  | 0, _, _ => rfl
  | size + 1, off, h => by
      rw [load, load, h off (by omega) (by omega),
        load_congr (fun o ho ho' => h o (by omega) (by omega))]

/-- A memory that has the bytes of a number. -/
theorem load_of_bytes : ∀ {size off v : Nat},
    (∀ o, off ≤ o → o < off + size → m o = byte v (o - off)) → load m off size = v % 256 ^ size
  | 0, _, v, _ => by rw [load, pow_zero, Nat.mod_one]
  | size + 1, off, v, h => by
      have hrest : load m (off + 1) size = v / 256 % 256 ^ size := by
        refine load_of_bytes (fun o ho ho' => ?_)
        rw [h o (by omega) (by omega), byte, byte, Nat.div_div_eq_div_mul, ← pow_succ',
          show o - (off + 1) + 1 = o - off by omega]
      have hfirst : (m off).toNat = v % 256 := by
        rw [h off le_rfl (by omega), byte, Nat.sub_self, pow_zero, Nat.div_one, BitVec.toNat_ofNat]
      rw [load, hfirst, hrest, pow_succ', Nat.mod_mul]

theorem load_store (m : Mem) (off size v : Nat) :
    load (store m off size v) off size = v % 256 ^ size :=
  load_of_bytes (fun _ ho ho' => store_of_mem ⟨ho, ho'⟩)

theorem byte_load : ∀ {size off : Nat} (o : Nat), off ≤ o → o < off + size →
    byte (load m off size) (o - off) = m o
  | 0, off, o, ho, ho' => by omega
  | size + 1, off, o, ho, ho' => by
      have hlt := (m off).isLt
      rw [load]
      rcases Nat.eq_or_lt_of_le ho with rfl | hlt'
      · rw [Nat.sub_self, byte, pow_zero, Nat.div_one]
        apply BitVec.eq_of_toNat_eq
        rw [BitVec.toNat_ofNat]
        omega
      · have hpow : o - off = o - (off + 1) + 1 := by omega
        have hrest : byte (load m (off + 1) size) (o - (off + 1)) = m o :=
          byte_load o hlt' (by omega)
        rw [← hrest, byte, byte, hpow, pow_succ', ← Nat.div_div_eq_div_mul]
        congr 2
        omega

theorem load_mod (m : Mem) (off size : Nat) : load m off size % 256 ^ size = load m off size :=
  (load_of_bytes (fun o ho ho' => (byte_load o ho ho').symm)).symm

/-- Only the bytes within the size count. -/
theorem byte_mod (v : Nat) {size j : Nat} (hj : j < size) : byte (v % 256 ^ size) j = byte v j := by
  have hbyte : byte (load (store (fun _ => 0#8) 0 size v) 0 size) (j - 0) =
      store (fun _ => 0#8) 0 size v j := byte_load j (Nat.zero_le j) (by omega)
  rwa [load_store, store_of_mem ⟨Nat.zero_le j, by omega⟩, Nat.sub_zero] at hbyte

/-! ## Bits -/

theorem getLsbD_byte (v j : Nat) {b : Nat} (hb : b < 8) :
    (byte v j).getLsbD b = v.testBit (8 * j + b) := by
  have hpow : 256 ^ j = 2 ^ (8 * j) := (Nat.pow_mul 2 8 j).symm
  rw [byte, BitVec.getLsbD_ofNat, decide_eq_true hb, Bool.true_and, hpow, Nat.testBit_div_two_pow,
    Nat.add_comm]

/-- The bits of a loaded number are those of the bytes. -/
theorem testBit_load {i : Nat} (hi : i < 8 * size) :
    (load m off size).testBit i = (m (off + i / 8)).getLsbD (i % 8) := by
  have hbyte : byte (load m off size) (off + i / 8 - off) = m (off + i / 8) :=
    byte_load (off + i / 8) (by omega) (by omega)
  rw [← hbyte, Nat.add_sub_cancel_left, getLsbD_byte _ _ (by omega), Nat.div_add_mod]

theorem getLsbD_store {i : Nat} (hi : i < 8 * size) :
    (store m off size v (off + i / 8)).getLsbD (i % 8) = v.testBit i := by
  rw [store_of_mem (by omega), Nat.add_sub_cancel_left, getLsbD_byte _ _ (by omega),
    Nat.div_add_mod]

end Instrew.Lib.ByteMem
