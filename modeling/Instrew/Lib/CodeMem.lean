import Mathlib.Data.List.GetD
import Instrew.Lib.ByteMem
import Instrew.Lib.Bytes

/-!
# Code in memory

A list of bytes that stands in memory (`Holds`), written there by `writeBytes`, and the
machine words read from it. Code given as 32-bit words is fetched back word by word
(`word32_code`).
-/

namespace Instrew.Lib.CodeMem

open ByteMem Bytes

/-- From `a` on the memory has these bytes. -/
def Holds (m : Mem) : Nat → List Byte → Prop
  | _, [] => True
  | a, b :: bs => m a = b ∧ Holds m (a + 1) bs

variable {m : Mem} {a : Nat}

theorem holds_append : ∀ (bs cs : List Byte) (a : Nat),
    Holds m a (bs ++ cs) ↔ Holds m a bs ∧ Holds m (a + bs.length) cs
  | [], cs, a => by simp [Holds]
  | b :: bs, cs, a => by
      have haddr : a + 1 + bs.length = a + (b :: bs).length := by
        rw [List.length_cons]
        omega
      rw [List.cons_append, Holds, Holds, holds_append bs cs, haddr, and_assoc]

/-- Pieces of one length, one behind the other. -/
theorem holds_flatMap {α : Type} {f : α → List Byte} {k : Nat} (hk : ∀ x, (f x).length = k) :
    ∀ (xs : List α) {a i : Nat} {x : α}, Holds m a (xs.flatMap f) → xs[i]? = some x →
      Holds m (a + k * i) (f x)
  | y :: xs, a, i, x, h, hi => by
      rw [List.flatMap_cons, holds_append, hk] at h
      cases i with
      | zero =>
          cases hi
          exact h.1
      | succ i =>
          have hrest := holds_flatMap hk xs h.2 (by simpa using hi)
          rwa [Nat.add_assoc, Nat.add_comm k, ← Nat.mul_succ] at hrest

/-- Byte `i` of those that stand in memory. -/
theorem byte_of_holds : ∀ {bs : List Byte} {a i : Nat} {b : Byte}, Holds m a bs →
    bs[i]? = some b → m (a + i) = b
  | c :: bs, a, i, b, h, hi => by
      cases i with
      | zero =>
          cases hi
          exact h.1
      | succ i =>
          have hrest := byte_of_holds h.2 (by simpa using hi)
          rwa [Nat.add_assoc, Nat.add_comm 1] at hrest

theorem load_of_holds : ∀ (bs : List Byte) {a : Nat}, Holds m a bs → load m a bs.length = unle bs
  | [], _, _ => rfl
  | b :: bs, a, h => by
      rw [List.length_cons, load, h.1, load_of_holds bs h.2, unle]

/-- A number that stands in memory is loaded. -/
theorem load_of_holds_le {n k : Nat} (hk : 2 ^ k = 256 ^ n) {x : BitVec k}
    (h : Holds m a (le n x.toNat)) : BitVec.ofNat k (load m a n) = x := by
  have hload := load_of_holds _ h
  rw [length_le] at hload
  rw [hload, ofNat_unle_le hk]

/-- The memory with some bytes written from `a` on. -/
def writeBytes (m : Mem) (a : Nat) (bs : List Byte) : Mem :=
  fun o => if a ≤ o ∧ o < a + bs.length then bs.getD (o - a) 0#8 else m o

theorem holds_of_getD : ∀ (bs : List Byte) (a : Nat),
    (∀ i, i < bs.length → m (a + i) = bs.getD i 0#8) → Holds m a bs
  | [], _, _ => trivial
  | b :: bs, a, h => by
      constructor
      · exact h 0 (Nat.zero_lt_succ _)
      · apply holds_of_getD bs
        intro i hi
        have hnext := h (i + 1) (Nat.succ_lt_succ hi)
        rwa [← Nat.add_assoc, Nat.add_right_comm] at hnext

theorem holds_writeBytes (m : Mem) (a : Nat) (bs : List Byte) :
    Holds (writeBytes m a bs) a bs := by
  apply holds_of_getD
  intro i hi
  rw [writeBytes, if_pos ⟨Nat.le_add_right a i, by omega⟩, Nat.add_sub_cancel_left]

/-- Writing on where the last write has ended. -/
theorem writeBytes_append (m : Mem) (a : Nat) (bs cs : List Byte) :
    writeBytes (writeBytes m a bs) (a + bs.length) cs = writeBytes m a (bs ++ cs) := by
  funext o
  unfold writeBytes
  rw [List.length_append]
  by_cases hbs : a ≤ o ∧ o < a + bs.length
  · rw [if_neg (by omega), if_pos hbs, if_pos (by omega), List.getD_append _ _ _ _ (by omega)]
  · by_cases hcs : a + bs.length ≤ o ∧ o < a + bs.length + cs.length
    · rw [if_pos hcs, if_pos (by omega), List.getD_append_right _ _ _ _ (by omega), Nat.sub_sub]
    · rw [if_neg hcs, if_neg hbs, if_neg (by omega)]

theorem map_range_writeBytes (m : Mem) (n : Nat) (bs : List Byte) :
    (List.range (n + bs.length)).map (writeBytes m n bs) = (List.range n).map m ++ bs := by
  rw [List.range_add, List.map_append, List.map_map]
  congr 1
  · apply List.map_congr_left
    intro o ho
    rw [writeBytes, if_neg (by have := List.mem_range.mp ho; omega)]
  · apply List.ext_getElem
    · simp
    · intro i hi _
      rw [List.length_map, List.length_range] at hi
      simp [writeBytes, hi]

/-! ## Machine words -/

def word32 (m : Mem) (a : BitVec 64) : BitVec 32 := BitVec.ofNat 32 (load m a.toNat 4)

def word64 (m : Mem) (a : BitVec 64) : BitVec 64 := BitVec.ofNat 64 (load m a.toNat 8)

/-- The bytes of 32-bit words, one behind the other. -/
def code32 (ws : List (BitVec 32)) : List Byte := ws.flatMap fun w => le 4 w.toNat

@[simp] theorem length_code32 (ws : List (BitVec 32)) : (code32 ws).length = 4 * ws.length := by
  simp [code32, mul_comm]

theorem holds_code32_append {ws vs : List (BitVec 32)} :
    Holds m a (code32 (ws ++ vs)) ↔
      Holds m a (code32 ws) ∧ Holds m (a + 4 * ws.length) (code32 vs) := by
  rw [code32, List.flatMap_append, ← code32, ← code32, holds_append, length_code32]

theorem holds_code32 {ws : List (BitVec 32)} {i : Nat} {w : BitVec 32}
    (h : Holds m a (code32 ws)) (hi : ws[i]? = some w) : Holds m (a + 4 * i) (le 4 w.toNat) :=
  holds_flatMap (fun _ => length_le 4 _) ws h hi

/-- Word `i` of code that stands at `a`. -/
theorem word32_code {a : BitVec 64} {ws : List (BitVec 32)} (h : Holds m a.toNat (code32 ws))
    (hroom : a.toNat + 4 * ws.length ≤ 2 ^ 64) {i : Nat} {w : BitVec 32}
    (hi : ws[i]? = some w) : word32 m (a + BitVec.ofNat 64 (4 * i)) = w := by
  have hlt : i < ws.length := (List.getElem?_eq_some_iff.mp hi).1
  have haddr : (a + BitVec.ofNat 64 (4 * i)).toNat = a.toNat + 4 * i := by
    rw [BitVec.toNat_add, BitVec.toNat_ofNat]
    omega
  rw [word32, haddr]
  exact load_of_holds_le rfl (holds_code32 h hi)

end Instrew.Lib.CodeMem
