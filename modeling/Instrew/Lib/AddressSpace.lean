import Mathlib.Tactic

/-!
# Address spaces

The bytes of an address space with the protection of each address, and what the calls that
change it do to a range: mapping something over it, changing its protection, and filling it,
which faults where writing is not allowed. Addresses are natural numbers, and a range is given
by its two ends.
-/

namespace Instrew.Lib.AddressSpace

structure Prot : Type where
  read : Bool
  write : Bool
  exec : Bool
deriving DecidableEq

/-- An address has no protection if nothing is mapped there. -/
structure Space : Type where
  byte : Nat → BitVec 8
  prot : Nat → Option Prot

namespace Space

/-- Something is mapped over a range. -/
def map (s : Space) (lo hi : Nat) (content : Nat → BitVec 8) (p : Prot) : Space where
  byte a := if lo ≤ a ∧ a < hi then content a else s.byte a
  prot a := if lo ≤ a ∧ a < hi then some p else s.prot a

def protect (s : Space) (lo hi : Nat) (p : Prot) : Space where
  byte := s.byte
  prot a := if lo ≤ a ∧ a < hi then some p else s.prot a

def writable (s : Space) (a : Nat) : Bool := (s.prot a).any Prot.write

/-- Write the same byte everywhere in a range. -/
def fill (s : Space) (lo hi : Nat) (v : BitVec 8) : Option Space :=
  if (List.range' lo (hi - lo)).all s.writable then
    some { s with byte := fun a => if lo ≤ a ∧ a < hi then v else s.byte a }
  else none

theorem fill_of_writable (s : Space) (lo hi : Nat)
    (h : ∀ a, lo ≤ a → a < hi → s.writable a = true) (v : BitVec 8) :
    s.fill lo hi v = some { s with byte := fun a => if lo ≤ a ∧ a < hi then v else s.byte a } := by
  rw [fill, if_pos]
  rw [List.all_eq_true]
  intro a ha
  rw [List.mem_range'_1] at ha
  exact h a ha.1 (by omega)

theorem writable_of_prot {s : Space} {a : Nat} {p : Prot} (h : s.prot a = some p)
    (hp : p.write = true) : s.writable a = true := by
  rw [writable, h]
  exact hp

end Space

end Instrew.Lib.AddressSpace
