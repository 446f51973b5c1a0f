import Mathlib.Data.Fintype.Card
import Mathlib.Tactic

/-!
# Linear probing over a fixed table

A table of `n` slots, each empty or holding one key with its value. A key is
looked for from its home position upwards, wrapping at the end, and the search
stops at the key, at the first empty slot, or after `n` slots. Entries are
never removed.

The invariant (`ProbeInv`) is the usual one: every slot between the home
position of a stored key and the slot it sits in is occupied by another key.
Under it the table represents a finite map, kept here as an association list
without repeated keys (`Rep`), and one scan decides the three questions a
client asks: present (`scan_hit`), absent with room (`scan_vacant`), absent
with all `n` slots taken (`scan_full`).
-/

namespace Instrew.Lib.LinearProbe

variable {K V : Type} {n : Nat} [NeZero n]

/-- A table of `n` slots. -/
abbrev Table (K V : Type) (n : Nat) : Type := Fin n → Option (K × V)

/-- The `d`-th slot on the way of a key with home position `start`. -/
def slot (n : Nat) [NeZero n] (start d : Nat) : Fin n := Fin.ofNat n (start + d)

/-- What a scan ends with. -/
inductive Outcome (n : Nat) (V : Type) : Type where
  | hit (v : V)
  | vacant (s : Fin n)
  | full

/-- Scan `m` slots for `k`, the first being the `d`-th on its way. -/
def scan [DecidableEq K] (t : Table K V n) (k : K) (start : Nat) :
    Nat → Nat → Outcome n V
  | 0, _ => .full
  | m + 1, d =>
      match t (slot n start d) with
      | none => .vacant (slot n start d)
      | some (k', v) => if k' = k then .hit v else scan t k start m (d + 1)

/-- The slot is taken by a key other than `k`. -/
def TakenByOther (t : Table K V n) (k : K) (s : Fin n) : Prop :=
  ∃ k' v', t s = some (k', v') ∧ k' ≠ k

/-- Every slot on the way to a stored key is taken by another key. -/
def ProbeInv (home : K → Nat) (t : Table K V n) : Prop :=
  ∀ s k v, t s = some (k, v) →
    ∃ d < n, s = slot n (home k) d ∧
      ∀ e < d, TakenByOther t k (slot n (home k) e)

/-- The table satisfies the invariant and holds exactly the entries of `l`. -/
structure Rep (home : K → Nat) (t : Table K V n) (l : List (K × V)) : Prop where
  inv : ProbeInv home t
  nodup : (l.map Prod.fst).Nodup
  mem_iff : ∀ k v, (k, v) ∈ l ↔ ∃ s, t s = some (k, v)

/-! ## The slots on a key's way -/

theorem slot_inj {start d e : Nat} (hd : d < n) (he : e < n)
    (h : slot n start d = slot n start e) : d = e := by
  have hv : (start + d) % n = (start + e) % n := congrArg Fin.val h
  have h' : d ≡ e [MOD n] := Nat.ModEq.add_left_cancel' start hv
  have h'' : d % n = e % n := h'
  rwa [Nat.mod_eq_of_lt hd, Nat.mod_eq_of_lt he] at h''

/-- The first `n` slots on a key's way are all slots of the table. -/
theorem exists_slot (start : Nat) (s : Fin n) : ∃ d < n, s = slot n start d := by
  have hinj : Function.Injective (fun d : Fin n => slot n start d.val) := by
    intro a b h
    exact Fin.ext (slot_inj a.isLt b.isLt h)
  obtain ⟨d, hd⟩ := (Finite.injective_iff_surjective.mp hinj) s
  exact ⟨d.val, d.isLt, hd.symm⟩

/-! ## What a scan tells -/

section Scan

variable [DecidableEq K] {t : Table K V n} {k : K} {start : Nat}

theorem scan_hit_elim {v : V} : ∀ {m d : Nat}, scan t k start m d = .hit v →
    ∃ s, t s = some (k, v)
  | 0, _, h => by simp [scan] at h
  | m + 1, d, h => by
      rw [scan] at h
      split at h
      · simp at h
      · rename_i k' v' hs
        split at h
        · rename_i hk
          cases h
          exact ⟨_, by rw [hs, hk]⟩
        · exact scan_hit_elim h

theorem scan_vacant_elim {s : Fin n} : ∀ {m d : Nat},
    scan t k start m d = .vacant s →
    ∃ e, d ≤ e ∧ e < d + m ∧ s = slot n start e ∧ t s = none ∧
      ∀ c, d ≤ c → c < e → TakenByOther t k (slot n start c)
  | 0, _, h => by simp [scan] at h
  | m + 1, d, h => by
      rw [scan] at h
      split at h
      · rename_i hs
        cases h
        exact ⟨d, le_refl _, by omega, rfl, hs, fun c h1 h2 => by omega⟩
      · rename_i k' v' hs
        split at h
        · simp at h
        · rename_i hk
          obtain ⟨e, h1, h2, h3, h4, h5⟩ := scan_vacant_elim h
          refine ⟨e, by omega, by omega, h3, h4, ?_⟩
          intro c hc1 hc2
          rcases Nat.eq_or_lt_of_le hc1 with rfl | hlt
          · exact ⟨k', v', hs, hk⟩
          · exact h5 c hlt hc2

theorem scan_full_elim : ∀ {m d : Nat}, scan t k start m d = .full →
    ∀ c, d ≤ c → c < d + m → TakenByOther t k (slot n start c)
  | 0, _, _ => fun c h1 h2 => by omega
  | m + 1, d, h => by
      rw [scan] at h
      split at h
      · simp at h
      · rename_i k' v' hs
        split at h
        · simp at h
        · rename_i hk
          intro c hc1 hc2
          rcases Nat.eq_or_lt_of_le hc1 with rfl | hlt
          · exact ⟨k', v', hs, hk⟩
          · exact scan_full_elim h c hlt (by omega)

end Scan

/-! ## The represented map -/

section Represented

variable {home : K → Nat} {t : Table K V n} {l : List (K × V)}

theorem rep_empty (home : K → Nat) :
    Rep home (fun _ => none : Table K V n) ([] : List (K × V)) where
  inv := fun s k v h => by simp at h
  nodup := by simp
  mem_iff := by simp

/-- A key sits in one slot only. -/
theorem ProbeInv.slot_unique (h : ProbeInv home t) {s s' : Fin n} {k : K} {v v' : V}
    (hs : t s = some (k, v)) (hs' : t s' = some (k, v')) : s = s' := by
  obtain ⟨d, -, rfl, hd⟩ := h s k v hs
  obtain ⟨e, -, rfl, he⟩ := h s' k v' hs'
  rcases Nat.lt_trichotomy d e with hlt | rfl | hlt
  · obtain ⟨k', v'', hk, hne⟩ := he d hlt
    rw [hs] at hk
    cases hk
    exact absurd rfl hne
  · rfl
  · obtain ⟨k', v'', hk, hne⟩ := hd e hlt
    rw [hs'] at hk
    cases hk
    exact absurd rfl hne

/-- A slot off the key's way as long as every earlier one is taken. -/
theorem ProbeInv.absent_of_vacant (h : ProbeInv home t) {k : K} {e : Nat}
    (hnone : t (slot n (home k) e) = none)
    (hway : ∀ c < e, TakenByOther t k (slot n (home k) c)) :
    ∀ s v, t s ≠ some (k, v) := by
  intro s v hs
  obtain ⟨d, -, rfl, hd⟩ := h s k v hs
  rcases Nat.lt_trichotomy d e with hlt | rfl | hlt
  · obtain ⟨k', v', hk, hne⟩ := hway d hlt
    rw [hs] at hk
    cases hk
    exact hne rfl
  · rw [hnone] at hs
    cases hs
  · obtain ⟨k', v', hk, -⟩ := hd e hlt
    rw [hnone] at hk
    cases hk

theorem Rep.absent (h : Rep home t l) {k : K} (hk : ∀ s v, t s ≠ some (k, v)) :
    k ∉ l.map Prod.fst := by
  intro hmem
  obtain ⟨⟨k', v⟩, hkv, rfl⟩ := List.mem_map.mp hmem
  obtain ⟨s, hs⟩ := (h.mem_iff k' v).mp hkv
  exact hk s v hs

/-- The occupied slots are as many as the entries. -/
theorem Rep.card_occupied (h : Rep home t l) :
    (Finset.univ.filter fun s => (t s).isSome).card = l.length := by
  classical
  have hl : l.length = (l.map Prod.fst).toFinset.card := by
    rw [List.toFinset_card_of_nodup h.nodup, List.length_map]
  rw [hl]
  refine Finset.card_bij (fun s hs => ((t s).get (by simpa using hs)).1) ?_ ?_ ?_
  · intro s hs
    have hsome : (t s).isSome = true := by simpa using hs
    obtain ⟨⟨k, v⟩, hkv⟩ := Option.isSome_iff_exists.mp hsome
    simp only [hkv, Option.get_some, List.mem_toFinset, List.mem_map]
    exact ⟨(k, v), (h.mem_iff k v).mpr ⟨s, hkv⟩, rfl⟩
  · intro s hs s' hs' heq
    have hsome : (t s).isSome = true := by simpa using hs
    have hsome' : (t s').isSome = true := by simpa using hs'
    obtain ⟨⟨k, v⟩, hkv⟩ := Option.isSome_iff_exists.mp hsome
    obtain ⟨⟨k', v'⟩, hkv'⟩ := Option.isSome_iff_exists.mp hsome'
    simp only [hkv, hkv', Option.get_some] at heq
    subst heq
    exact h.inv.slot_unique hkv hkv'
  · intro k hk
    obtain ⟨⟨k', v⟩, hkv, rfl⟩ := List.mem_map.mp (List.mem_toFinset.mp hk)
    obtain ⟨s, hs⟩ := (h.mem_iff k' v).mp hkv
    exact ⟨s, by simp [hs], by simp [hs]⟩

/-- The table is full exactly when the map has `n` entries. -/
theorem Rep.length_eq_iff (h : Rep home t l) :
    l.length = n ↔ ∀ s, (t s).isSome := by
  rw [← h.card_occupied]
  constructor
  · intro hcard
    have huniv : (Finset.univ.filter fun s => (t s).isSome) = Finset.univ := by
      apply Finset.eq_univ_of_card
      rw [hcard, Fintype.card_fin]
    intro s
    have hs : s ∈ Finset.univ.filter fun s => (t s).isSome := by
      rw [huniv]
      exact Finset.mem_univ s
    simpa using hs
  · intro hall
    rw [Finset.filter_true_of_mem (fun s _ => hall s), Finset.card_univ, Fintype.card_fin]

theorem Rep.length_le (h : Rep home t l) : l.length ≤ n := by
  rw [← h.card_occupied]
  exact (Finset.card_le_univ _).trans_eq (Fintype.card_fin n)

/-- Storing a new key in the first empty slot on its way keeps the table
representing the map, with the entry added. -/
theorem Rep.store (h : Rep home t l) {k : K} {v : V} {e : Nat} (he : e < n)
    (hnone : t (slot n (home k) e) = none)
    (hway : ∀ c < e, TakenByOther t k (slot n (home k) c)) :
    Rep home (Function.update t (slot n (home k) e) (some (k, v))) (l ++ [(k, v)]) := by
  have habs := h.inv.absent_of_vacant hnone hway
  -- an occupied slot is not the one written
  have hkeep : ∀ {s : Fin n} {p : K × V}, t s = some p →
      Function.update t (slot n (home k) e) (some (k, v)) s = some p := by
    intro s p hs
    rw [Function.update_of_ne]
    · exact hs
    · rintro rfl
      rw [hnone] at hs
      cases hs
  refine ⟨?_, ?_, ?_⟩
  · intro s k' v' hs
    by_cases hse : s = slot n (home k) e
    · subst hse
      rw [Function.update_self] at hs
      cases hs
      refine ⟨e, he, rfl, ?_⟩
      intro c hc
      obtain ⟨k'', v'', hk, hne⟩ := hway c hc
      exact ⟨k'', v'', hkeep hk, hne⟩
    · rw [Function.update_of_ne hse] at hs
      obtain ⟨d, hd, rfl, hd'⟩ := h.inv s k' v' hs
      refine ⟨d, hd, rfl, ?_⟩
      intro c hc
      obtain ⟨k'', v'', hk, hne⟩ := hd' c hc
      exact ⟨k'', v'', hkeep hk, hne⟩
  · rw [List.map_append, List.nodup_append]
    refine ⟨h.nodup, by simp, ?_⟩
    intro a ha b hb hab
    simp only [List.map_cons, List.map_nil, List.mem_singleton] at hb
    subst hb
    subst hab
    exact h.absent habs ha
  · intro k' v'
    rw [List.mem_append, h.mem_iff]
    constructor
    · rintro (⟨s, hs⟩ | hm)
      · exact ⟨s, hkeep hs⟩
      · simp only [List.mem_singleton, Prod.mk.injEq] at hm
        obtain ⟨rfl, rfl⟩ := hm
        exact ⟨_, Function.update_self _ _ _⟩
    · rintro ⟨s, hs⟩
      by_cases hse : s = slot n (home k) e
      · subst hse
        rw [Function.update_self] at hs
        cases hs
        exact Or.inr (by simp)
      · rw [Function.update_of_ne hse] at hs
        exact Or.inl ⟨s, hs⟩

end Represented

/-! ## One scan against the map -/

section ScanRep

variable [DecidableEq K] {home : K → Nat} {t : Table K V n} {l : List (K × V)} {k : K}

theorem Rep.scan_hit (h : Rep home t l) {v : V}
    (hs : scan t k (home k) n 0 = .hit v) : (k, v) ∈ l :=
  (h.mem_iff k v).mpr (scan_hit_elim hs)

theorem Rep.scan_vacant (h : Rep home t l) {s : Fin n}
    (hs : scan t k (home k) n 0 = .vacant s) :
    k ∉ l.map Prod.fst ∧ l.length < n ∧
      ∀ v, Rep home (Function.update t s (some (k, v))) (l ++ [(k, v)]) := by
  obtain ⟨e, -, he, rfl, hnone, hway⟩ := scan_vacant_elim hs
  have hway' : ∀ c < e, TakenByOther t k (slot n (home k) c) :=
    fun c hc => hway c (Nat.zero_le c) hc
  refine ⟨h.absent (h.inv.absent_of_vacant hnone hway'), ?_, ?_⟩
  · refine lt_of_le_of_ne h.length_le ?_
    intro hlen
    have hsome := (h.length_eq_iff.mp hlen) (slot n (home k) e)
    rw [hnone] at hsome
    cases hsome
  · intro v
    exact h.store (by omega) hnone hway'

theorem Rep.scan_full (h : Rep home t l) (hs : scan t k (home k) n 0 = .full) :
    k ∉ l.map Prod.fst ∧ l.length = n := by
  -- `n` slots on the way of `k` are all slots, and each is taken by another key
  have hall : ∀ s, TakenByOther t k s := by
    intro s
    obtain ⟨d, hd, rfl⟩ := exists_slot (home k) s
    exact scan_full_elim hs d (Nat.zero_le d) (by omega)
  constructor
  · apply h.absent
    intro s v hkv
    obtain ⟨k', v', hk, hne⟩ := hall s
    rw [hkv] at hk
    cases hk
    exact hne rfl
  · rw [h.length_eq_iff]
    intro s
    obtain ⟨k', v', hk, -⟩ := hall s
    rw [hk]
    rfl

end ScanRep

end Instrew.Lib.LinearProbe
