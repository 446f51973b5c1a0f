import Instrew.Client.Syscall

/-!
# Reports of unhandled system calls

`unhandled_syscall` of `client/emulate.c` over sequences of calls. It is to print a message for
each number once, and keeps a bitmap of the numbers below 1024. The bit of a number is
`1 << nr % 64`, but the 1 is an `int`: on the hosts the shift takes the amount modulo 32, and
two numbers share a bit (`SameBit`).

`reported_once_iff` says for which sequences each number is reported exactly once.
-/

namespace Instrew.Client.Syscall

open Instrew.Lib.Requests

/-- The state after a sequence of calls. -/
def afterCalls (answers : Nat → Reply) (m : Machine) (calls : List (Word × Args)) : Machine :=
  calls.foldl (fun m call => ((unhandledSyscall call.1 call.2 m).run answers).2.2) m

/-- The static variable is zero at first. -/
def Machine.fresh (regs : Regdata) : Machine := ⟨regs, fun _ => 0#64⟩

/-- **What is demanded of a sequence of calls**: a number below 1024 is reported unless it has
been before, the others always, and each call returns `-ENOSYS`. -/
def ReportedOnce (answers : Nat → Reply) (m : Machine) (calls : List (Word × Args)) : Prop :=
  ∀ pre call post, calls = pre ++ call :: post →
    ((unhandledSyscall call.1 call.2 (afterCalls answers m pre)).run answers).1 =
        (if call.1.toNat < 1024 ∧ ∃ earlier ∈ pre, earlier.1 = call.1 then []
          else [.unhandled call.1 call.2]) ∧
      ((unhandledSyscall call.1 call.2 (afterCalls answers m pre)).run answers).2.1 = some enosys

/-! ## Bits -/

/-- The numbers have the same bit of the same word of the map. -/
def SameBit (n n' : Word) : Prop :=
  n.toNat < 1024 ∧ n'.toNat < 1024 ∧ n.toNat / 64 = n'.toNat / 64 ∧ n.toNat % 32 = n'.toNat % 32

instance (n n' : Word) : Decidable (SameBit n n') := inferInstanceAs (Decidable (_ ∧ _))

theorem SameBit.refl {n : Word} (h : n.toNat < 1024) : SameBit n n := ⟨h, h, rfl, rfl⟩

theorem SameBit.symm {n n' : Word} (h : SameBit n n') : SameBit n' n :=
  ⟨h.2.1, h.1, h.2.2.1.symm, h.2.2.2.symm⟩

theorem warnBit_eq (n : Word) : warnBit n = (1#32 <<< (n.toNat % 32)).signExtend 64 := by
  rw [warnBit, Nat.mod_mod_of_dvd _ (by decide : 32 ∣ 64)]

/-- From bit 31 on the sign is repeated. -/
theorem getLsbD_warnBit (n : Word) {j : Nat} (hj : j < 64) :
    (warnBit n).getLsbD j = decide (n.toNat % 32 = min j 31) := by
  have hr : n.toNat % 32 < 32 := Nat.mod_lt _ (by decide)
  have hbit (i : Nat) (hi : i < 32) :
      (1#32 <<< (n.toNat % 32)).getLsbD i = decide (n.toNat % 32 = i) := by
    rw [BitVec.getLsbD_shiftLeft, BitVec.getLsbD_one]
    rcases lt_trichotomy i (n.toNat % 32) with h | h | h
    · simp [h, h.ne']
    · simp [h, hr]
    · have hne : i - n.toNat % 32 ≠ 0 := by omega
      simp [hne, h.ne]
  rw [warnBit_eq, BitVec.getLsbD_signExtend]
  by_cases hlow : j < 32
  · rw [if_pos hlow, hbit j hlow, min_eq_left (by omega)]
    simp [hj]
  · rw [if_neg hlow, BitVec.msb_eq_getLsbD_last, hbit 31 (by decide), min_eq_right (by omega)]
    simp [hj]

theorem warnBit_and_ne_zero_iff (n n' : Word) :
    warnBit n &&& warnBit n' ≠ 0#64 ↔ n.toNat % 32 = n'.toNat % 32 := by
  constructor
  · intro hne
    by_contra hdiff
    refine hne (BitVec.eq_of_getLsbD_eq fun j hj => ?_)
    rw [BitVec.getLsbD_and, getLsbD_warnBit n hj, getLsbD_warnBit n' hj, BitVec.getLsbD_zero]
    rw [← Bool.decide_and, decide_eq_false_iff_not]
    rintro ⟨h, h'⟩
    exact hdiff (h.trans h'.symm)
  · intro heq hzero
    have hr : n'.toNat % 32 < 32 := Nat.mod_lt _ (by decide)
    have hj : n'.toNat % 32 < 64 := by omega
    have hmin : n'.toNat % 32 = min (n'.toNat % 32) 31 := by omega
    have hbit := congrArg (BitVec.getLsbD · (n'.toNat % 32)) hzero
    simp only [BitVec.getLsbD_and, getLsbD_warnBit _ hj, heq, ← hmin] at hbit
    simp at hbit

/-! ## The map -/

section Warned

variable {m : Machine} {n n' : Word}

theorem warned_iff : m.warned n = true ↔
    n.toNat < 1024 ∧ ∃ i : Fin 16, i.val = n.toNat / 64 ∧ m.warnmap i &&& warnBit n ≠ 0#64 := by
  rw [Machine.warned]
  by_cases h : n.toNat < 1024
  · rw [dif_pos h, decide_eq_true_iff]
    constructor
    · intro hne
      exact ⟨h, _, rfl, hne⟩
    · rintro ⟨-, i, hi, hne⟩
      rwa [← Fin.ext (a := i) (b := ⟨n.toNat / 64, by omega⟩) hi]
  · rw [dif_neg h]
    exact iff_of_false nofun fun hlt => h hlt.1

theorem not_warned_fresh (regs : Regdata) (n : Word) : (Machine.fresh regs).warned n ≠ true := by
  rw [Ne, warned_iff]
  rintro ⟨-, i, -, hne⟩
  exact hne (BitVec.zero_and ..)

theorem SameBit.warned_iff_warned (h : SameBit n n') : m.warned n = true ↔ m.warned n' = true := by
  obtain ⟨hn, hn', hword, hbit⟩ := h
  rw [warned_iff, warned_iff, warnBit_eq, warnBit_eq, hbit]
  simp only [hn, hn', hword]

theorem or_and_ne_zero_iff (x y z : Word) :
    (x ||| y) &&& z ≠ 0#64 ↔ x &&& z ≠ 0#64 ∨ y &&& z ≠ 0#64 := by
  rw [BitVec.and_or_distrib_right, Ne, BitVec.or_eq_zero_iff, not_and_or]

theorem warn_warnmap (hn : n.toNat < 1024) (i : Fin 16) :
    (m.warn n).warnmap i =
      if i.val = n.toNat / 64 then m.warnmap i ||| warnBit n else m.warnmap i := by
  rw [Machine.warn, dif_pos hn]
  dsimp only
  rw [Function.update_apply]
  by_cases h : i.val = n.toNat / 64
  · have hi : i = ⟨n.toNat / 64, by omega⟩ := Fin.ext h
    rw [if_pos hi, if_pos h, ← hi]
  · rw [if_neg h, if_neg fun heq => h (congrArg Fin.val heq)]

/-- A report sets the bit, and so for all numbers that share it. -/
theorem warned_warn_iff :
    (m.warn n).warned n' = true ↔ m.warned n' = true ∨ SameBit n n' := by
  by_cases hn : n.toNat < 1024
  · rw [warned_iff, warned_iff]
    simp only [warn_warnmap hn]
    constructor
    · rintro ⟨hn', i, hi, hne⟩
      split_ifs at hne with hword
      · rw [or_and_ne_zero_iff, warnBit_and_ne_zero_iff] at hne
        rcases hne with hold | hbit
        · exact .inl ⟨hn', i, hi, hold⟩
        · exact .inr ⟨hn, hn', hword.symm.trans hi, hbit⟩
      · exact .inl ⟨hn', i, hi, hne⟩
    · rintro (⟨hn', i, hi, hold⟩ | ⟨-, hn', hword, hbit⟩)
      · refine ⟨hn', i, hi, ?_⟩
        split_ifs
        · exact (or_and_ne_zero_iff _ _ _).mpr (.inl hold)
        · exact hold
      · refine ⟨hn', ⟨n'.toNat / 64, by omega⟩, rfl, ?_⟩
        rw [if_pos hword.symm, or_and_ne_zero_iff, warnBit_and_ne_zero_iff]
        exact .inr hbit
  · rw [Machine.warn, dif_neg hn]
    exact (or_iff_left fun h => hn h.1).symm

end Warned

/-! ## Sequences -/

section Calls

variable {answers : Nat → Reply} {m : Machine} {nr n : Word} {a : Args}

theorem unhandledSyscall_events :
    ((unhandledSyscall nr a m).run answers).1 = if m.warned nr = true then [] else [.unhandled nr a] := by
  rw [unhandledSyscall]
  split_ifs <;> rfl

theorem unhandledSyscall_result :
    ((unhandledSyscall nr a m).run answers).2.1 = some enosys := by
  rw [unhandledSyscall]
  split_ifs <;> rfl

/-- What is set after one call. -/
theorem warned_unhandledSyscall_iff :
    ((unhandledSyscall nr a m).run answers).2.2.warned n = true ↔
      m.warned n = true ∨ SameBit nr n := by
  rw [unhandledSyscall]
  split_ifs with hwarned
  · change m.warned n = true ↔ _
    refine (or_iff_left_of_imp fun hsame => ?_).symm
    exact hsame.warned_iff_warned.mp hwarned
  · exact warned_warn_iff

/-- The map has the bit of a number exactly when the history has a number with that bit. -/
theorem warned_afterCalls_iff (regs : Regdata) (calls : List (Word × Args)) :
    (afterCalls answers (.fresh regs) calls).warned n = true ↔ ∃ call ∈ calls, SameBit call.1 n := by
  induction calls using List.reverseRecOn with
  | nil => exact iff_of_false (not_warned_fresh regs n) (by simp)
  | append_singleton calls call ih =>
      have hlast : afterCalls answers (.fresh regs) (calls ++ [call]) =
          ((unhandledSyscall call.1 call.2 (afterCalls answers (.fresh regs) calls)).run answers).2.2 :=
        List.foldl_append ..
      rw [hlast, warned_unhandledSyscall_iff, ih]
      constructor
      · rintro (⟨earlier, hmem, hsame⟩ | hsame)
        · exact ⟨earlier, List.mem_append_left _ hmem, hsame⟩
        · exact ⟨call, List.mem_append_right _ List.mem_cons_self, hsame⟩
      · rintro ⟨earlier, hmem, hsame⟩
        rcases List.mem_append.mp hmem with hmem | hmem
        · exact .inl ⟨earlier, hmem, hsame⟩
        · rw [List.mem_singleton.mp hmem] at hsame
          exact .inr hsame

end Calls

/-- In a sequence in which each number is reported once, a number whose bit is set has been
reported itself. -/
theorem ReportedOnce.earlier {answers : Nat → Reply} {regs : Regdata} {pre post : List (Word × Args)}
    {call earlier : Word × Args} (h : ReportedOnce answers (.fresh regs) (pre ++ call :: post))
    (hmem : earlier ∈ pre) (hsame : SameBit earlier.1 call.1) :
    ∃ first ∈ pre, first.1 = call.1 := by
  have hevents := (h pre call post rfl).1
  have hwarned : (afterCalls answers (.fresh regs) pre).warned call.1 = true :=
    (warned_afterCalls_iff regs pre).mpr ⟨earlier, hmem, hsame⟩
  rw [unhandledSyscall_events, if_pos hwarned] at hevents
  split_ifs at hevents with hcond
  exact hcond.2

theorem ReportedOnce.of_append {answers : Nat → Reply} {m : Machine}
    {calls rest : List (Word × Args)} (h : ReportedOnce answers m (calls ++ rest)) :
    ReportedOnce answers m calls := by
  rintro pre call post rfl
  exact h pre call (post ++ rest) (by simp)

/-- **Each number is reported exactly once** just in the sequences in which no two numbers share
a bit: below 1024, in one group of 64, and 32 apart. -/
theorem reported_once_iff (answers : Nat → Reply) (regs : Regdata) (calls : List (Word × Args)) :
    ReportedOnce answers (.fresh regs) calls ↔
      ∀ call ∈ calls, ∀ call' ∈ calls, SameBit call.1 call'.1 → call.1 = call'.1 := by
  constructor
  · induction calls using List.reverseRecOn with
    | nil => exact fun _ call hmem => absurd hmem List.not_mem_nil
    | append_singleton calls last ih =>
        intro h
        have hinit := ih h.of_append
        -- a number of the calls before that shares the bit of the last one is equal to it
        have hlast : ∀ call ∈ calls, SameBit call.1 last.1 → call.1 = last.1 := by
          intro call hmem hsame
          obtain ⟨first, hfirst, heq⟩ := h.earlier hmem hsame
          exact (hinit call hmem first hfirst (heq ▸ hsame)).trans heq
        intro call hmem call' hmem' hsame
        rcases List.mem_append.mp hmem with hmem | hmem <;>
          rcases List.mem_append.mp hmem' with hmem' | hmem'
        · exact hinit call hmem call' hmem' hsame
        · rw [List.mem_singleton.mp hmem'] at hsame ⊢
          exact hlast call hmem hsame
        · rw [List.mem_singleton.mp hmem] at hsame ⊢
          exact (hlast call' hmem' hsame.symm).symm
        · rw [List.mem_singleton.mp hmem, List.mem_singleton.mp hmem']
  · rintro hinj pre call post rfl
    refine ⟨?_, unhandledSyscall_result⟩
    have hcall : call ∈ pre ++ call :: post := by simp
    rw [unhandledSyscall_events]
    refine if_congr ((warned_afterCalls_iff regs pre).trans ?_) rfl rfl
    constructor
    · rintro ⟨earlier, hmem, hsame⟩
      exact ⟨hsame.2.1, earlier, hmem, hinj earlier (by simp [hmem]) call hcall hsame⟩
    · rintro ⟨hlt, earlier, hmem, heq⟩
      refine ⟨earlier, hmem, ?_⟩
      rw [heq]
      exact .refl hlt

/-- `vfork` (58) is not reported after `msync` (26). -/
theorem vfork_not_reported :
    let answers : Nat → Reply := fun _ => default
    let regs : Regdata := fun _ => 0#64
    let a : Args := fun _ => 0#64
    ((unhandledSyscall 58#64 a (afterCalls answers (.fresh regs) [(26#64, a)])).run answers).1 = [] ∧
      ¬ ReportedOnce answers (.fresh regs) ([(26#64, a)] ++ [(58#64, a)]) := by
  intro answers regs a
  have hsame : SameBit 26#64 58#64 := by decide
  constructor
  · rw [unhandledSyscall_events, if_pos]
    exact (warned_afterCalls_iff regs _).mpr ⟨_, List.mem_cons_self, hsame⟩
  · intro h
    obtain ⟨first, hmem, heq⟩ := h.earlier List.mem_cons_self hsame
    rw [List.mem_singleton.mp hmem] at heq
    have hne : (26#64 : Word) ≠ 58#64 := by decide
    exact hne heq

end Instrew.Client.Syscall
