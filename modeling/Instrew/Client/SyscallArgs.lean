import Instrew.Client.Syscall

/-!
# The upper halves of `int` arguments

A guest leaves whatever it likes in the upper half of a register that it passes an `int` in;
Linux does not look at it. Two register files that differ in nothing else should lead to the
same host calls, up to upper halves that are passed on, and to the same value in RAX.

That a table entry passes on an `int` as an `int` can be read off the table
(`Entry.Allows`). The cases of `poll`, `dup2`, `fcntl` and `arch_prctl` compare the whole
registers; `upper_halves_ignored_iff` says for which arguments that shows.
-/

namespace Instrew.Client.Syscall

open Instrew.Lib.Requests

/-! ## The declarations of Linux -/

/-- The arguments of a host call that are declared `int` or `unsigned int`, under these names or
as `pid_t`, `uid_t`, `gid_t`, `clockid_t` or `u32`. -/
def Sys.ints : Sys → List (Fin 6)
  | .brk | .chdir | .chroot | .execve | .getcwd | .getegid | .geteuid | .getgid | .getpid
  | .getppid | .gettid | .gettimeofday | .getuid | .getxattr | .lgetxattr | .mmap | .mprotect
  | .mremap | .munmap | .readv | .rt_sigpending | .rt_sigsuspend | .sched_yield
  | .set_robust_list | .set_tid_address | .statfs | .sysinfo | .truncate | .uname | .writev => []
  | .clock_getres | .clock_gettime | .close | .dup | .exit | .exit_group | .fchdir | .fchmod
  | .fchmodat | .fgetxattr | .fstat | .ftruncate | .getgroups | .getpgid | .getrlimit
  | .get_robust_list | .mkdirat | .pread64 | .pselect6 | .pwrite64 | .read | .select | .setgroups
  | .write => [0]
  | .pipe2 | .ppoll => [1]
  | .getrandom | .madvise => [2]
  | .clock_nanosleep | .fcntl | .ioctl | .prlimit64 => [0, 1]
  | .connect | .faccessat | .getdents64 | .lseek | .openat | .renameat | .unlinkat | .wait4 => [0, 2]
  | .fadvise64 | .newfstatat | .readlinkat => [0, 3]
  | .dup3 | .fchown | .socket | .tgkill => [0, 1, 2]
  | .renameat2 => [0, 2, 4]
  | .fchownat => [0, 2, 3, 4]
  | .futex => [1, 2, 5]

/-- The same for the x86-64 numbers in the table, where there are any. -/
def x86Ints : List (Nat × List (Fin 6)) :=
  [(0, [0]), (1, [0]), (2, [1]), (3, [0]), (5, [0]), (7, [1, 2]), (8, [0, 2]), (13, [0]), (14, [0]),
    (16, [0, 1]), (17, [0]), (18, [0]), (21, [1]), (23, [0]), (28, [2]), (32, [0]), (33, [0, 1]),
    (41, [0, 1, 2]), (42, [0, 2]), (60, [0]), (61, [0, 2]), (72, [0, 1]), (77, [0]), (81, [0]),
    (89, [2]), (91, [0]), (92, [1, 2]), (94, [1, 2]), (97, [0]), (115, [0]), (116, [0]), (121, [0]),
    (157, [0]), (158, [0]), (193, [0]), (202, [1, 2, 5]), (203, [0, 1]), (204, [0, 1]),
    (217, [0, 2]), (221, [0, 3]), (228, [0]), (229, [0]), (230, [0, 1]), (231, [0]), (257, [0, 2]),
    (260, [0, 2, 3, 4]), (262, [0, 3]), (268, [0]), (270, [0]), (271, [1]), (274, [0]),
    (292, [0, 1, 2]), (293, [1]), (302, [0, 1]), (318, [2]), (334, [1, 2, 3])]

def intArgs (nr : Nat) : List (Fin 6) := (x86Ints.lookup nr).getD []

/-- Equal up to the upper halves of the `int`s. -/
def Args.Agree (ints : List (Fin 6)) (a a' : Args) : Prop :=
  ∀ i, if i ∈ ints then (a i).setWidth 32 = (a' i).setWidth 32 else a i = a' i

/-- The same call, up to upper halves; the registers that are no arguments do not matter. -/
structure SameCall (m m' : Machine) : Prop where
  nr : m.regs 1 = m'.regs 1
  args : Args.Agree (intArgs (m.regs 1).toNat) (x86Args m.regs) (x86Args m'.regs)
  warnmap : m.warnmap = m'.warnmap

/-! ## The same run -/

inductive HostArg.Same (int : Prop) : HostArg → HostArg → Prop where
  | refl (x : HostArg) : Same int x x
  | low {w w' : Word} : int → w.setWidth 32 = w'.setWidth 32 → Same int (.word w) (.word w')

inductive Event.Same : Event → Event → Prop where
  | refl (e : Event) : Same e e
  | syscall {nr : Sys} {args args' : Fin 6 → HostArg} :
      (∀ i, HostArg.Same (i ∈ nr.ints) (args i) (args' i)) →
        Same (.syscall nr args) (.syscall nr args')

/-- **What is demanded of two runs** that get the same answers from the host. -/
def SameRun (p q : Emu Machine) : Prop :=
  ∀ answers, List.Forall₂ Event.Same (p.run answers).1 (q.run answers).1 ∧
    (p.run answers).2.regs 1 = (q.run answers).2.regs 1

/-- The arguments with which a `case` does not tell the two apart; `m` is the state of the
first, in which the message of `unhandled_syscall` may have been printed before. -/
def Entry.Unaffected (m : Machine) (a a' : Args) : Entry → Prop
  | .poll => a 2 = a' 2 ∨ (a 2).toInt < 0 ∧ (a' 2).toInt < 0
  | .dup2 => (a 0 = a 1 ↔ a' 0 = a' 1) ∧ (a 0 = a 1 → a 1 = a' 1)
  | .fcntl =>
      (a 0).toNat ∈ fcntlCommands ∧ (a' 0).toNat ∈ fcntlCommands ∨
        (a 0).toNat ∉ fcntlCommands ∧ (a' 0).toNat ∉ fcntlCommands ∧
          (m.warned (m.regs 1) = true ∨ a = a')
  | .archPrctl => a 0 ∈ [archSetGs, archSetFs] ↔ a' 0 ∈ [archSetGs, archSetFs]
  | _ => True

/-! ## Reading the table -/

/-- The argument that is passed on. -/
def Src.arg? : Src → Option (Fin 6)
  | .arg i | .openatFlags i => some i
  | .const _ | .statBuf => none

/-- `int`s are passed on where the host has one. -/
def PassesInts (ints : List (Fin 6)) (nr : Sys) (args : Fin 6 → Src) : Prop :=
  ∀ j, ∀ i ∈ (args j).arg?, i ∈ ints → j ∈ nr.ints

instance (ints : List (Fin 6)) (nr : Sys) (args : Fin 6 → Src) :
    Decidable (PassesInts ints nr args) :=
  inferInstanceAs (Decidable (∀ j, ∀ i ∈ (args j).arg?, i ∈ ints → j ∈ nr.ints))

/-- The `int`s are where the code for the entry expects them. -/
def Entry.Allows (ints : List (Fin 6)) : Entry → Prop
  | .call nr args => PassesInts ints nr args
  | .stat nr args tgt => PassesInts ints nr args ∧ tgt ∉ ints
  | .sized nr args => PassesInts ints nr args ∧ 1 ∉ ints
  | .poll => ints = [1, 2]
  | .dup2 | .fcntl => ints = [0, 1]
  | .archPrctl | .exitGroup | .rtSigaction | .rtSigprocmask => ints = [0]
  | .clone | .clone3 | .time | .sigaltstack | .uname => ints = []
  | .prctl | .ignored | .rtSigreturn => True

instance (ints : List (Fin 6)) : ∀ e : Entry, Decidable (e.Allows ints)
  | .call nr args => inferInstanceAs (Decidable (PassesInts ints nr args))
  | .stat _ _ _ | .sized _ _ => inferInstanceAs (Decidable (_ ∧ _))
  | .poll => inferInstanceAs (Decidable (ints = [1, 2]))
  | .dup2 | .fcntl => inferInstanceAs (Decidable (ints = [0, 1]))
  | .archPrctl | .exitGroup | .rtSigaction | .rtSigprocmask => inferInstanceAs (Decidable (ints = [0]))
  | .clone | .clone3 | .time | .sigaltstack | .uname => inferInstanceAs (Decidable (ints = []))
  | .prctl | .ignored | .rtSigreturn => .isTrue trivial

theorem native_allows {ints : List (Fin 6)} {nr : Sys} (h : ∀ i ∈ ints, i ∈ nr.ints) :
    (native nr).Allows ints := by
  intro j i hi hints
  have hij : i = j := by
    fin_cases j <;> exact (Option.some.inj hi).symm
  exact hij ▸ h i hints

theorem nativeX86_ints : ∀ p ∈ nativeX86, ∀ i ∈ intArgs p.1, i ∈ p.2.ints := by decide

theorem selectX86_ints (host : Host) : ∀ p ∈ selectX86 host, ∀ i ∈ intArgs p.1, i ∈ p.2.ints := by
  cases host <;> decide

theorem specialX86_allows (host : Host) : ∀ p ∈ specialX86 host, p.2.Allows (intArgs p.1) := by
  cases host <;> decide

theorem table_allows (host : Host) : ∀ p ∈ table host .x86_64, p.2.Allows (intArgs p.1) := by
  intro p hp
  rcases List.mem_append.mp hp with hp | hp
  · obtain ⟨q, hq, rfl⟩ := List.mem_map.mp hp
    exact native_allows ((List.mem_append.mp hq).elim (nativeX86_ints q) (selectX86_ints host q))
  · exact specialX86_allows host p hp

theorem allows_of_lookup {host : Host} {nr : Nat} {e : Entry}
    (h : (table host .x86_64).lookup nr = some e) : e.Allows (intArgs nr) := by
  obtain ⟨l₁, l₂, heq, -⟩ := List.lookup_eq_some_iff.mp h
  exact table_allows host (nr, e) (heq ▸ List.mem_append_right l₁ List.mem_cons_self)

/-! ## Related arguments and results -/

section Agree

variable {ints : List (Fin 6)} {a a' : Args}

theorem Args.Agree.eq (h : Args.Agree ints a a') {i : Fin 6} (hi : i ∉ ints) : a i = a' i := by
  have hagree := h i
  rwa [if_neg hi] at hagree

theorem Args.Agree.low (h : Args.Agree ints a a') (i : Fin 6) :
    (a i).setWidth 32 = (a' i).setWidth 32 := by
  have hagree := h i
  split_ifs at hagree
  · exact hagree
  · rw [hagree]

theorem Args.Agree.word (h : Args.Agree ints a a') {int : Prop} {i : Fin 6} (hi : i ∈ ints → int) :
    HostArg.Same int (.word (a i)) (.word (a' i)) := by
  by_cases hints : i ∈ ints
  · exact .low (hi hints) (h.low i)
  · rw [h.eq hints]
    exact .refl _

theorem Args.Agree.eval (h : Args.Agree ints a a') (host : Host) {int : Prop} {src : Src}
    (hsrc : ∀ i ∈ src.arg?, i ∈ ints → int) :
    HostArg.Same int (src.eval host a) (src.eval host a') := by
  cases src with
  | const w => exact .refl _
  | statBuf => exact .refl _
  | arg i => exact h.word (hsrc i rfl)
  | openatFlags i =>
      cases host with
      | x86_64 | riscv => exact h.word (hsrc i rfl)
      | aarch64 =>
          rw [Src.eval, h.low i]
          exact .refl _

theorem Args.Agree.syscall (h : Args.Agree ints a a') (host : Host) {nr : Sys} {args : Fin 6 → Src}
    (hpass : PassesInts ints nr args) :
    Event.Same (.syscall nr fun j => (args j).eval host a)
      (.syscall nr fun j => (args j).eval host a') :=
  .syscall fun j => h.eval host (hpass j)

end Agree

theorem HostArg.Same.eq {int : Prop} {x y : HostArg} (h : HostArg.Same int x y) (hint : ¬ int) :
    x = y := by
  cases h with
  | refl => rfl
  | low hi => exact absurd hi hint

theorem HostArg.same_of_eq {int : Prop} {x y : HostArg} (h : x = y) : HostArg.Same int x y :=
  h ▸ .refl x

theorem hostArgs_same {int : Fin 6 → Prop} {x₀ x₁ x₂ x₃ x₄ x₅ y₀ y₁ y₂ y₃ y₄ y₅ : HostArg}
    (h₀ : HostArg.Same (int 0) x₀ y₀) (h₁ : HostArg.Same (int 1) x₁ y₁)
    (h₂ : HostArg.Same (int 2) x₂ y₂) (h₃ : HostArg.Same (int 3) x₃ y₃)
    (h₄ : HostArg.Same (int 4) x₄ y₄) (h₅ : HostArg.Same (int 5) x₅ y₅) (i : Fin 6) :
    HostArg.Same (int i) (![x₀, x₁, x₂, x₃, x₄, x₅] i) (![y₀, y₁, y₂, y₃, y₄, y₅] i) := by
  fin_cases i
  exacts [h₀, h₁, h₂, h₃, h₄, h₅]

theorem Event.Same.nr_eq {nr nr' : Sys} {args args' : Fin 6 → HostArg}
    (h : Event.Same (.syscall nr args) (.syscall nr' args')) : nr = nr' := by
  cases h <;> rfl

theorem Event.Same.arg_eq {nr : Sys} {args args' : Fin 6 → HostArg} {i : Fin 6}
    (h : Event.Same (.syscall nr args) (.syscall nr args')) (hi : i ∉ nr.ints) :
    args i = args' i := by
  cases h with
  | refl => rfl
  | syscall hargs => exact (hargs i).eq hi

theorem Event.Same.unhandled_eq {nr nr' : Word} {a a' : Args}
    (h : Event.Same (.unhandled nr a) (.unhandled nr' a')) : a = a' := by
  cases h
  rfl

def SameRax (m m' : Machine) : Prop := m.regs 1 = m'.regs 1

/-- The same result, with RAX as it was so far. -/
def SameResult (x y : Option Word × Machine) : Prop := x.1 = y.1 ∧ SameRax x.2 y.2

theorem sameRun_iff_sim {p q : Emu Machine} : SameRun p q ↔ Prog.Sim Event.Same SameRax p q := by
  rw [Prog.sim_iff_run]
  rfl

theorem emu_sim_refl {α : Type} (p : Emu α) : Prog.Sim Event.Same Eq p p :=
  Prog.sim_refl Event.Same.refl (fun _ => rfl) p

section Finish

variable {h : Handlers} {m m' : Machine} {w w' : Word}

theorem finish_sim_iff :
    Prog.Sim Event.Same SameRax (finish h 1 (some w, m)) (finish h 1 (some w', m')) ↔ w = w' := by
  refine (Prog.sim_bind_ret_iff Event.Same.refl h.signalHandle).trans ?_
  rw [SameRax, Machine.setReg_regs, Machine.setReg_regs, if_pos rfl, if_pos rfl]

theorem finish_sim {x y : Option Word × Machine} (hxy : SameResult x y) :
    Prog.Sim Event.Same SameRax (finish h 1 x) (finish h 1 y) := by
  obtain ⟨res, m⟩ := x
  obtain ⟨res', m'⟩ := y
  obtain ⟨rfl, hrax⟩ := hxy
  cases res with
  | none => exact hrax
  | some w => exact finish_sim_iff.mpr rfl

theorem finish_rax (answers : Nat → Reply) :
    ((finish h 1 (some w, m)).run answers).2.regs 1 = w := by
  have hend : ((finish h 1 (some w, m)).run answers).2 = m.setReg 1 w :=
    Prog.run_bind_ret_snd h.signalHandle _ answers
  rw [hend, Machine.setReg_regs, if_pos rfl]

theorem withResult_sim {p q : Emu Word} (hpq : Prog.Sim Event.Same Eq p q) (hrax : SameRax m m') :
    Prog.Sim Event.Same SameResult (withResult m p) (withResult m' q) :=
  hpq.bind fun _ _ hab => ⟨congrArg some hab, hrax⟩

end Finish

/-! ## The entries that compare registers -/

theorem toNat_nsec (t : Word) : (t % 1000#64 * 1000000#64).toNat = t.toNat % 1000 * 1000000 := by
  have hlt : t.toNat % 1000 * 1000000 < 2 ^ 64 := by omega
  rw [BitVec.toNat_mul, BitVec.toNat_umod]
  exact Nat.mod_eq_of_lt hlt

/-- Seconds and nanoseconds make up the timeout again. -/
theorem timespec_inj {t t' : Word} (hsec : t / 1000#64 = t' / 1000#64)
    (hnsec : t % 1000#64 * 1000000#64 = t' % 1000#64 * 1000000#64) : t = t' := by
  have hquot : t.toNat / 1000 = t'.toNat / 1000 := by
    have h := congrArg BitVec.toNat hsec
    rwa [BitVec.toNat_udiv, BitVec.toNat_udiv] at h
  have hrem : t.toNat % 1000 = t'.toNat % 1000 := by
    have h := congrArg BitVec.toNat hnsec
    rw [toNat_nsec, toNat_nsec] at h
    exact Nat.eq_of_mul_eq_mul_right (by decide) h
  apply BitVec.eq_of_toNat_eq
  rw [← Nat.div_add_mod t.toNat 1000, hquot, hrem, Nat.div_add_mod]

theorem pollTimeout_eq_iff {t t' : Word} :
    pollTimeout t = pollTimeout t' ↔ t = t' ∨ t.toInt < 0 ∧ t'.toInt < 0 := by
  constructor
  · intro heq
    rw [pollTimeout, pollTimeout] at heq
    split_ifs at heq with ht ht'
    · rw [HostArg.timespec.injEq] at heq
      exact .inl (timespec_inj heq.1 heq.2)
    · exact .inr ⟨not_le.mp ht, not_le.mp ‹_›⟩
  · rintro (rfl | ⟨ht, ht'⟩)
    · rfl
    · rw [pollTimeout, pollTimeout, if_neg (not_le.mpr ht), if_neg (not_le.mpr ht')]

/-- The result of `arch_prctl`; the segment registers are not RAX. -/
theorem emulateArchPrctl_eq (a : Args) (m : Machine) :
    ∃ m₁, emulateArchPrctl a m =
        (some (if a 0 ∈ [archSetGs, archSetFs] then 0#64 else einval), m₁) ∧ SameRax m m₁ := by
  rw [emulateArchPrctl]
  by_cases hgs : a 0 = archSetGs
  · rw [if_pos hgs, if_pos (List.mem_cons.mpr (.inl hgs))]
    exact ⟨_, rfl, rfl⟩
  · rw [if_neg hgs]
    by_cases hfs : a 0 = archSetFs
    · rw [if_pos hfs, if_pos (List.mem_cons_of_mem _ (List.mem_singleton.mpr hfs))]
      exact ⟨_, rfl, rfl⟩
    · rw [if_neg hfs, if_neg (by simp [hgs, hfs])]
      exact ⟨_, rfl, rfl⟩

section Entries

variable {h : Handlers} {host : Host} {ints : List (Fin 6)} {nr : Word} {a a' : Args}
  {m m' : Machine}

theorem Machine.warned_congr (hwarn : m.warnmap = m'.warnmap) : m.warned nr = m'.warned nr := by
  rw [warned, warned, hwarn]

theorem emulatePoll_sim (hagree : Args.Agree [1, 2] a a') (h2 : pollTimeout (a 2) = pollTimeout (a' 2)) :
    Prog.Sim Event.Same Eq (emulatePoll a) (emulatePoll a') := by
  refine ⟨.syscall (hostArgs_same ?_ ?_ (HostArg.same_of_eq h2) (.refl _) (.refl _) (.refl _)),
    fun r => rfl⟩
  · exact hagree.word (by decide)
  · exact hagree.word (by decide)

theorem emulateDup2_sim (hagree : Args.Agree [0, 1] a a') (heq : a 0 = a 1 ↔ a' 0 = a' 1)
    (h1 : a 0 = a 1 → a 1 = a' 1) : Prog.Sim Event.Same Eq (emulateDup2 a) (emulateDup2 a') := by
  rw [emulateDup2, emulateDup2]
  by_cases h01 : a 0 = a 1
  · rw [if_pos h01, if_pos (heq.mp h01)]
    refine ⟨.syscall (hostArgs_same ?_ (.refl _) (.refl _) (.refl _) (.refl _) (.refl _)), fun r => ?_⟩
    · exact hagree.word (by decide)
    · rw [h1 h01]
      rfl
  · rw [if_neg h01, if_neg (mt heq.mpr h01)]
    refine ⟨.syscall (hostArgs_same ?_ ?_ (.refl _) (.refl _) (.refl _) (.refl _)), fun r => rfl⟩
    · exact hagree.word (by decide)
    · exact hagree.word (by decide)

theorem emulateFcntl_sim (hagree : Args.Agree [0, 1] a a') (hrax : SameRax m m')
    (hwarn : m.warnmap = m'.warnmap) (hun : Entry.Unaffected m a a' .fcntl) :
    Prog.Sim Event.Same SameResult (emulateFcntl (m.regs 1) a m) (emulateFcntl (m.regs 1) a' m') := by
  rw [emulateFcntl, emulateFcntl]
  rcases hun with ⟨hin, hin'⟩ | ⟨hout, hout', hquiet⟩
  · rw [if_pos hin, if_pos hin']
    exact ⟨.syscall fun i => hagree.word id, fun r => ⟨rfl, hrax⟩⟩
  · rw [if_neg hout, if_neg hout', unhandledSyscall, unhandledSyscall,
      Machine.warned_congr hwarn.symm]
    split_ifs with hw
    · exact ⟨rfl, hrax⟩
    · obtain rfl := hquiet.resolve_left hw
      refine ⟨.refl _, fun r => ⟨rfl, ?_⟩⟩
      rw [SameRax, Machine.warn_regs, Machine.warn_regs]
      exact hrax

/-- **One entry, both ways.** -/
theorem emulate_sim {e : Entry} (hallows : e.Allows ints) (hagree : Args.Agree ints a a')
    (hrax : SameRax m m') (hwarn : m.warnmap = m'.warnmap) (hun : e.Unaffected m a a') :
    Prog.Sim Event.Same SameResult (emulate h host .x86_64 (m.regs 1) a m e)
      (emulate h host .x86_64 (m.regs 1) a' m' e) := by
  cases e with
  | call nr args =>
      exact withResult_sim ⟨hagree.syscall host hallows, fun r => rfl⟩ hrax
  | stat nr args tgt =>
      refine withResult_sim ⟨hagree.syscall host hallows.1, fun r => ?_⟩ hrax
      rw [hagree.eq hallows.2]
      exact emu_sim_refl _
  | sized nr args =>
      refine withResult_sim ?_ hrax
      rw [hagree.eq hallows.2]
      split_ifs
      · rfl
      · exact ⟨hagree.syscall host hallows.1, fun r => rfl⟩
  | poll =>
      obtain rfl : ints = [1, 2] := hallows
      exact withResult_sim (emulatePoll_sim hagree (pollTimeout_eq_iff.mpr hun)) hrax
  | dup2 =>
      obtain rfl : ints = [0, 1] := hallows
      exact withResult_sim (emulateDup2_sim hagree hun.1 hun.2) hrax
  | fcntl =>
      obtain rfl : ints = [0, 1] := hallows
      exact emulateFcntl_sim hagree hrax hwarn hun
  | archPrctl =>
      obtain ⟨m₁, heq, hm₁⟩ := emulateArchPrctl_eq a m
      obtain ⟨m₁', heq', hm₁'⟩ := emulateArchPrctl_eq a' m'
      rw [emulate, emulate, heq, heq']
      exact ⟨congrArg some (if_congr hun rfl rfl), hm₁.symm.trans (hrax.trans hm₁')⟩
  | exitGroup =>
      obtain rfl : ints = [0] := hallows
      refine withResult_sim ((emu_sim_refl (printProfile h)).bind fun _ _ _ => ?_) hrax
      exact ⟨.syscall fun i => hagree.word id, fun r => rfl⟩
  | rtSigaction | rtSigprocmask =>
      obtain rfl : ints = [0] := hallows
      refine withResult_sim ?_ hrax
      rw [hagree.low 0, hagree.eq (show 1 ∉ [0] by decide), hagree.eq (show 2 ∉ [0] by decide),
        hagree.eq (show 3 ∉ [0] by decide)]
      exact emu_sim_refl _
  | clone | clone3 | time | sigaltstack | uname =>
      obtain rfl : ints = [] := hallows
      obtain rfl : a = a' := funext fun i => hagree.eq List.not_mem_nil
      exact withResult_sim (emu_sim_refl _) hrax
  | prctl | ignored => exact ⟨rfl, hrax⟩
  | rtSigreturn => exact (emu_sim_refl _).bind fun _ _ _ => ⟨rfl, hrax⟩

end Entries

/-! ## What two runs show -/

section Converse

variable {h : Handlers} {host : Host} {nr : Word} {a a' : Args} {m m' : Machine}

theorem fcntl_rax_of_mem (hin : (a 0).toNat ∈ fcntlCommands) (answers : Nat → Reply) :
    ((emulateFcntl nr a m >>= finish h 1).run answers).2.regs 1 = (answers 0).res := by
  rw [emulateFcntl, if_pos hin]
  exact finish_rax fun n => answers (n + 1)

theorem fcntl_rax_of_notMem (hout : (a 0).toNat ∉ fcntlCommands) (answers : Nat → Reply) :
    ((emulateFcntl nr a m >>= finish h 1).run answers).2.regs 1 = enosys := by
  rw [emulateFcntl, if_neg hout, unhandledSyscall]
  split_ifs
  · exact finish_rax answers
  · exact finish_rax fun n => answers (n + 1)

theorem poll_unaffected
    (hsim : Prog.Sim Event.Same SameRax (withResult m (emulatePoll a) >>= finish h 1)
      (withResult m' (emulatePoll a') >>= finish h 1)) : Entry.Unaffected m a a' .poll := by
  have hargs : Event.Same _ _ := hsim.1
  have htimeout := hargs.arg_eq (show (2 : Fin 6) ∉ Sys.ints .ppoll by decide)
  exact pollTimeout_eq_iff.mp htimeout

theorem dup2_unaffected
    (hsim : Prog.Sim Event.Same SameRax (withResult m (emulateDup2 a) >>= finish h 1)
      (withResult m' (emulateDup2 a') >>= finish h 1)) : Entry.Unaffected m a a' .dup2 := by
  rw [emulateDup2, emulateDup2] at hsim
  split_ifs at hsim with h01 h01' h01'
  · refine ⟨iff_of_true h01 h01', fun _ => ?_⟩
    -- the host accepts the descriptor
    exact finish_sim_iff.mp (hsim.2 default)
  · have hhead : Event.Same _ _ := hsim.1
    exact nomatch hhead.nr_eq
  · have hhead : Event.Same _ _ := hsim.1
    exact nomatch hhead.nr_eq
  · exact ⟨iff_of_false h01 h01', fun heq => absurd heq h01⟩

theorem fcntl_unaffected (hwarn : m.warnmap = m'.warnmap)
    (hsim : Prog.Sim Event.Same SameRax (emulateFcntl (m.regs 1) a m >>= finish h 1)
      (emulateFcntl (m.regs 1) a' m' >>= finish h 1)) : Entry.Unaffected m a a' .fcntl := by
  -- with 0 from the host, a call that is passed on is told from one that is not
  have hrax := (sameRun_iff_sim.mpr hsim fun _ => default).2
  by_cases hin : (a 0).toNat ∈ fcntlCommands <;> by_cases hin' : (a' 0).toNat ∈ fcntlCommands
  · exact .inl ⟨hin, hin'⟩
  · rw [fcntl_rax_of_mem hin, fcntl_rax_of_notMem hin'] at hrax
    exact absurd hrax (by decide)
  · rw [fcntl_rax_of_notMem hin, fcntl_rax_of_mem hin'] at hrax
    exact absurd hrax (by decide)
  · refine .inr ⟨hin, hin', or_iff_not_imp_left.mpr fun hw => ?_⟩
    rw [emulateFcntl, emulateFcntl, if_neg hin, if_neg hin', unhandledSyscall, unhandledSyscall,
      ← Machine.warned_congr hwarn, if_neg hw, if_neg hw] at hsim
    have hhead : Event.Same _ _ := hsim.1
    exact hhead.unhandled_eq

theorem archPrctl_unaffected
    (hsim : Prog.Sim Event.Same SameRax (finish h 1 (emulateArchPrctl a m))
      (finish h 1 (emulateArchPrctl a' m'))) : Entry.Unaffected m a a' .archPrctl := by
  obtain ⟨m₁, heq, -⟩ := emulateArchPrctl_eq a m
  obtain ⟨m₁', heq', -⟩ := emulateArchPrctl_eq a' m'
  rw [heq, heq', finish_sim_iff] at hsim
  rw [Entry.Unaffected]
  split_ifs at hsim with hin hin' hin'
  · exact iff_of_true hin hin'
  · exact absurd hsim (by decide)
  · exact absurd hsim (by decide)
  · exact iff_of_false hin hin'

end Converse

theorem emulateSyscall_eq {h : Handlers} {host : Host} {m : Machine} {e : Entry}
    (hentry : (table host .x86_64).lookup (m.regs 1).toNat = some e) :
    emulateSyscall h host m =
      emulate h host .x86_64 (m.regs 1) (x86Args m.regs) m e >>= finish h 1 := by
  rw [emulateSyscall, dispatch, hentry]

/-- **The upper halves of `int` arguments.** For every number in the table of `emulate_syscall`
and any two register files that agree up to upper halves, the two runs are the same exactly
if the entry does not tell the arguments apart. Most entries never do. -/
theorem upper_halves_ignored_iff (h : Handlers) (host : Host) (m m' : Machine) (e : Entry)
    (hentry : (table host .x86_64).lookup (m.regs 1).toNat = some e) (hcall : SameCall m m') :
    SameRun (emulateSyscall h host m) (emulateSyscall h host m') ↔
      e.Unaffected m (x86Args m.regs) (x86Args m'.regs) := by
  rw [sameRun_iff_sim, emulateSyscall_eq hentry, emulateSyscall_eq (hcall.nr ▸ hentry), ← hcall.nr]
  constructor
  · intro hsim
    cases e with
    | poll => exact poll_unaffected hsim
    | dup2 => exact dup2_unaffected hsim
    | fcntl => exact fcntl_unaffected hcall.warnmap hsim
    | archPrctl => exact archPrctl_unaffected hsim
    | _ => trivial
  · intro hun
    refine (emulate_sim (allows_of_lookup hentry) hcall.args hcall.nr hcall.warnmap hun).bind ?_
    exact fun _ _ hxy => finish_sim hxy

/-! ## `poll` with a timeout of -1 -/

/-- A thread with nothing but these arguments in its registers. -/
def callRegs (nr : Word) (a : Args) : Regdata := fun i =>
  if i = 1 then nr else if i = 8 then a 0 else if i = 7 then a 1 else if i = 3 then a 2
  else if i = 11 then a 3 else if i = 9 then a 4 else if i = 10 then a 5 else 0#64

def calling (nr : Word) (a : Args) : Machine := ⟨callRegs nr a, fun _ => 0#64⟩

/-- Handlers that make no host calls. -/
def quiet : Handlers where
  handleClone _ _ := return 0#32
  signalSigaction _ _ _ := return 0#32
  signalSigprocmask _ _ _ := return 0#32
  signalSigaltstack _ _ := return 0#32
  signalSigreturn := return ()
  signalHandle := return ()
  tcProfile := none

/-- One descriptor, and the timeout as it is in the register. -/
def pollArgs (timeout : Word) : Args := ![0x10000#64, 1#64, timeout, 0#64, 0#64, 0#64]

theorem sameCall_poll {t t' : Word} (h : t.setWidth 32 = t'.setWidth 32) :
    SameCall (calling 7#64 (pollArgs t)) (calling 7#64 (pollArgs t')) := by
  have hints : intArgs 7 = [1, 2] := by decide
  refine ⟨rfl, ?_, rfl⟩
  change Args.Agree (intArgs 7) (pollArgs t) (pollArgs t')
  rw [hints]
  intro i
  fin_cases i
  exacts [rfl, rfl, h, rfl, rfl, rfl]

/-- Two timeouts that are negative as they stand. -/
theorem negative_timeouts_same :
    SameRun (emulateSyscall quiet .x86_64 (calling 7#64 (pollArgs 0xffffffffffffffff#64)))
      (emulateSyscall quiet .x86_64 (calling 7#64 (pollArgs 0x80000000ffffffff#64))) :=
  (upper_halves_ignored_iff quiet .x86_64 _ _ .poll rfl (sameCall_poll (by decide))).mpr
    (.inr (by decide))

/-- The host call that is made. -/
theorem run_poll (t : Word) (answers : Nat → Reply) :
    ((emulateSyscall quiet .x86_64 (calling 7#64 (pollArgs t))).run answers).1 =
      [.syscall .ppoll ![.word 0x10000#64, .word 1#64, pollTimeout t, .word 0#64, .word 8#64,
        .word 0#64]] := rfl

/-- A timeout of -1 that the guest sign-extends is infinite; zero-extended it is one of
4294967.295 seconds. -/
theorem zero_extended_timeout_finite :
    SameCall (calling 7#64 (pollArgs 0xffffffffffffffff#64))
        (calling 7#64 (pollArgs 0xffffffff#64)) ∧
      (∀ answers, ((emulateSyscall quiet .x86_64
          (calling 7#64 (pollArgs 0xffffffffffffffff#64))).run answers).1 =
        [.syscall .ppoll ![.word 0x10000#64, .word 1#64, .word 0#64, .word 0#64, .word 8#64,
          .word 0#64]]) ∧
      (∀ answers, ((emulateSyscall quiet .x86_64
          (calling 7#64 (pollArgs 0xffffffff#64))).run answers).1 =
        [.syscall .ppoll ![.word 0x10000#64, .word 1#64, .timespec 4294967#64 295000000#64,
          .word 0#64, .word 8#64, .word 0#64]]) ∧
      ¬ SameRun (emulateSyscall quiet .x86_64 (calling 7#64 (pollArgs 0xffffffffffffffff#64)))
        (emulateSyscall quiet .x86_64 (calling 7#64 (pollArgs 0xffffffff#64))) := by
  have hinfinite : pollTimeout 0xffffffffffffffff#64 = .word 0#64 := by decide
  have hfinite : pollTimeout 0xffffffff#64 = .timespec 4294967#64 295000000#64 := by decide
  refine ⟨sameCall_poll (by decide), fun answers => ?_, fun answers => ?_, fun hsame => ?_⟩
  · rw [run_poll, hinfinite]
  · rw [run_poll, hfinite]
  · have hcalls := (hsame fun _ => default).1
    rw [run_poll, run_poll, hinfinite, hfinite] at hcalls
    have hargs := (List.forall₂_cons.mp hcalls).1
    exact absurd (hargs.arg_eq (show (2 : Fin 6) ∉ Sys.ints .ppoll by decide)) (by decide)

end Instrew.Client.Syscall
