import Instrew.Client.Clone
import Instrew.Client.Reloc
import Instrew.Lib.Requests

/-!
# The system call tables

`emulate_syscall` and `emulate_syscall_generic` of `client/emulate.c`, with the two functions
that call the second one. A guest's call is a program that makes system calls on the host,
writes to guest memory, and ends with the value for the guest's result register. The two
`switch` statements are tables; what is done for an entry is the same in both, up to the
layout of `struct stat` and the order of the arguments of `clone` (`Abi`).

The functions that a table hands a call on to (`handle_clone`, those for signals) are
parameters. They get what the table passes them.
-/

namespace Instrew.Client.Syscall

open Instrew.Lib.Requests

/-! ## Host calls -/

/-- `__NR_*` of the host calls that are made. -/
inductive Sys : Type where
  | brk | chdir | chroot | clock_getres | clock_gettime | clock_nanosleep | close | connect
  | dup | dup3 | execve | exit | exit_group | faccessat | fadvise64 | fchdir | fchmod | fchmodat
  | fchown | fchownat | fcntl | fgetxattr | fstat | ftruncate | futex | getcwd | getdents64
  | getegid | geteuid | getgid | getgroups | getpgid | getpid | getppid | getrandom | getrlimit
  | get_robust_list | gettid | gettimeofday | getuid | getxattr | ioctl | lgetxattr | lseek
  | madvise | mkdirat | mmap | mprotect | mremap | munmap | newfstatat | openat | pipe2 | ppoll
  | pread64 | prlimit64 | pselect6 | pwrite64 | read | readlinkat | readv | renameat | renameat2
  | rt_sigpending | rt_sigsuspend | sched_yield | select | set_robust_list | set_tid_address
  | setgroups | socket | statfs | sysinfo | tgkill | truncate | uname | unlinkat | wait4 | write
  | writev
deriving DecidableEq

/-- The members of `struct stat` that are copied. -/
inductive StatMember : Type where
  | dev | ino | nlink | mode | uid | gid | rdev | size | blksize | blocks
  | atime | atimeNsec | mtime | mtimeNsec | ctime | ctimeNsec
deriving DecidableEq

/-- An argument of a host call: a word, or the address of a local variable. -/
inductive HostArg : Type where
  | word (w : Word)
  /-- `&tmp_struct` -/
  | statBuf
  /-- `&ts`, to be filled in. -/
  | timespecBuf
  | timespec (tvSec tvNsec : Word)
deriving DecidableEq

abbrev Args : Type := Fin 6 → Word

instance neZeroArgs : NeZero 6 := ⟨by decide⟩

inductive Event : Type where
  | syscall (nr : Sys) (args : Fin 6 → HostArg)
  /-- `size` bytes of a value are written to guest memory. -/
  | store (addr : Word) (size : Nat) (value : Word)
  /-- The messages of `unhandled_syscall` and of `exit_group`, by what is printed. -/
  | unhandled (nr : Word) (args : Args)
  | profile (bytes ms : BitVec 32)

/-- What a host call returns and leaves in the buffers that it is given. -/
structure Reply : Type where
  res : Word
  stat : StatMember → Word
  tvSec : Word
  /-- The first two characters of `release`, after `uname`. -/
  release : Byte × Byte
deriving Inhabited

abbrev Emu : Type → Type := Prog Event Reply

def syscall (nr : Sys) (args : Fin 6 → HostArg) : Emu Reply := .ask (.syscall nr args)

def store (addr : Word) (size : Nat) (value : Word) : Emu Unit := do
  let _ ← Prog.ask (.store addr size value)

/-! ## The parts that are not in the tables -/

/-- The `struct clone_args` passed to `handle_clone`: a local one, or one of the guest. -/
inductive CloneSource : Type where
  | here (args : CloneArgs)
  | guest (addr : Word)

structure Handlers : Type where
  handleClone : CloneSource → Word → Emu (BitVec 32)
  signalSigaction : BitVec 32 → Word → Word → Emu (BitVec 32)
  signalSigprocmask : BitVec 32 → Word → Word → Emu (BitVec 32)
  signalSigaltstack : Word → Word → Emu (BitVec 32)
  signalSigreturn : Emu Unit
  /-- `if (cpu_state->sigpending) signal_handle(cpu_state)` -/
  signalHandle : Emu Unit
  /-- With `tc_profile`, the members `written_bytes` and `rew_time`. -/
  tcProfile : Option (Word × Word)

/-- What the functions read and change themselves: the registers, and the static variable of
`unhandled_syscall`. -/
structure Machine : Type where
  regs : Regdata
  warnmap : Fin 16 → Word

def Machine.setReg (m : Machine) (reg : Fin 128) (w : Word) : Machine :=
  { m with regs := Function.update m.regs reg w }

@[simp] theorem Machine.setReg_regs (m : Machine) (reg i : Fin 128) (w : Word) :
    (m.setReg reg w).regs i = if i = reg then w else m.regs i :=
  Function.update_apply ..

def einval : Word := (-22#64)
def enosys : Word := (-38#64)

/-! ## Entries -/

inductive Abi : Type where
  | x86_64
  | generic

/-- Where an argument of a host call comes from. -/
inductive Src : Type where
  | const (w : Word)
  | arg (i : Fin 6)
  /-- `arg`, with `emulate_openat_flags` on AArch64 hosts. -/
  | openatFlags (i : Fin 6)
  | statBuf

instance (n : Nat) : OfNat Src n := ⟨.const (BitVec.ofNat 64 n)⟩

def arg0 : Src := .arg 0
def arg1 : Src := .arg 1
def arg2 : Src := .arg 2
def arg3 : Src := .arg 3
def arg4 : Src := .arg 4
def arg5 : Src := .arg 5
def tmpAddr : Src := .statBuf

def AT_FDCWD : Src := .const (-100#64)
def AT_SYMLINK_NOFOLLOW : Src := 0x100
def AT_REMOVEDIR : Src := 0x200

/-- What is done for a number. -/
inductive Entry : Type where
  | call (nr : Sys) (args : Fin 6 → Src)
  /-- `fstat_common` after a call, with the argument that is the guest's buffer. -/
  | stat (nr : Sys) (args : Fin 6 → Src) (tgt : Fin 6)
  /-- A call made if `arg1` is the size of a signal set. -/
  | sized (nr : Sys) (args : Fin 6 → Src)
  | poll
  | dup2
  | clone
  | fcntl
  | prctl
  | archPrctl
  | time
  | exitGroup
  | clone3
  | ignored
  | rtSigaction
  | rtSigprocmask
  | rtSigreturn
  | sigaltstack
  | uname

def native (nr : Sys) : Entry := .call nr ![arg0, arg1, arg2, arg3, arg4, arg5]

/-- RISC-V has no `renameat`. -/
def renameatNr : Host → Sys
  | .x86_64 | .aarch64 => .renameat
  | .riscv => .renameat2

/-- The easy ones of `emulate_syscall`. -/
def nativeX86 : List (Nat × Sys) :=
  [(0, .read), (1, .write), (3, .close), (8, .lseek), (9, .mmap), (10, .mprotect), (11, .munmap),
    (12, .brk), (16, .ioctl), (17, .pread64), (18, .pwrite64), (19, .readv), (20, .writev), (24, .sched_yield),
    (25, .mremap), (28, .madvise), (32, .dup), (39, .getpid), (41, .socket), (42, .connect), (59, .execve), (61, .wait4), (63, .uname), (76, .truncate), (77, .ftruncate),
    (79, .getcwd), (80, .chdir), (81, .fchdir), (91, .fchmod), (96, .gettimeofday),
    (97, .getrlimit), (99, .sysinfo), (102, .getuid), (104, .getgid), (107, .geteuid),
    (108, .getegid), (110, .getppid), (115, .getgroups), (116, .setgroups), (121, .getpgid),
    (137, .statfs), (161, .chroot), (186, .gettid), (191, .getxattr), (192, .lgetxattr),
    (193, .fgetxattr), (202, .futex), (217, .getdents64), (218, .set_tid_address),
    (221, .fadvise64), (228, .clock_gettime), (229, .clock_getres), (230, .clock_nanosleep),
    (260, .fchownat), (268, .fchmodat), (270, .pselect6), (271, .ppoll), (273, .set_robust_list),
    (274, .get_robust_list), (292, .dup3), (293, .pipe2), (302, .prlimit64), (318, .getrandom),
    (60, .exit)]

/-- `select` is there on x86-64 hosts only. -/
def selectX86 : Host → List (Nat × Sys)
  | .x86_64 => [(23, .select)]
  | .aarch64 | .riscv => []

/-- Those that have replacements, and those that need special handling. -/
def specialX86 (host : Host) : List (Nat × Entry) :=
  [(257, .call .openat ![arg0, arg1, .openatFlags 2, arg3, arg4, arg5]),
    (2, .call .openat ![AT_FDCWD, arg0, .openatFlags 1, arg2, arg4, arg5]),
    (21, .call .faccessat ![AT_FDCWD, arg0, arg1, 0, 0, 0]),
    (22, .call .pipe2 ![arg0, 0, 0, 0, 0, 0]),
    (82, .call (renameatNr host) ![AT_FDCWD, arg0, AT_FDCWD, arg1, 0, 0]),
    (83, .call .mkdirat ![AT_FDCWD, arg0, arg1, 0, 0, 0]),
    (84, .call .unlinkat ![AT_FDCWD, arg0, AT_REMOVEDIR, 0, 0, 0]),
    (87, .call .unlinkat ![AT_FDCWD, arg0, 0, 0, 0, 0]),
    (89, .call .readlinkat ![AT_FDCWD, arg0, arg1, arg2, 0, 0]),
    (90, .call .fchmodat ![AT_FDCWD, arg0, arg1, 0, 0, 0]),
    (92, .call .fchownat ![AT_FDCWD, arg0, arg1, arg2, 0, 0]),
    (94, .call .fchownat ![AT_FDCWD, arg0, arg1, arg2, AT_SYMLINK_NOFOLLOW, 0]),
    (111, .call .getpgid ![0, 0, 0, 0, 0, 0]),
    (262, .stat .newfstatat ![arg0, arg1, tmpAddr, arg3, 0, 0] 2),
    (4, .stat .newfstatat ![AT_FDCWD, arg0, tmpAddr, 0, 0, 0] 1),
    (5, .stat .fstat ![arg0, tmpAddr, 0, 0, 0, 0] 1),
    (6, .stat .newfstatat ![AT_FDCWD, arg0, tmpAddr, AT_SYMLINK_NOFOLLOW, 0, 0] 1),
    (7, .poll), (33, .dup2), (34, .call .ppoll ![0, 0, 0, 0, 0, 0]), (56, .clone), (72, .fcntl),
    (157, .prctl), (158, .archPrctl), (201, .time), (231, .exitGroup), (435, .clone3),
    (203, .ignored), (204, .ignored), (334, .ignored), (13, .rtSigaction), (14, .rtSigprocmask),
    (15, .rtSigreturn), (127, .sized .rt_sigpending ![arg0, arg1, 0, 0, 0, 0]),
    (130, .sized .rt_sigsuspend ![arg0, arg1, 0, 0, 0, 0]), (131, .sigaltstack)]

/-- The easy ones of `emulate_syscall_generic`. -/
def nativeGeneric : List (Nat × Sys) :=
  [(17, .getcwd), (23, .dup), (24, .dup3), (29, .ioctl), (35, .unlinkat), (46, .ftruncate),
    (48, .faccessat), (49, .chdir), (50, .fchdir), (51, .chroot), (52, .fchmod), (53, .fchmodat),
    (54, .fchownat), (55, .fchown), (57, .close), (59, .pipe2), (61, .getdents64), (62, .lseek),
    (63, .read), (64, .write), (65, .readv), (66, .writev), (67, .pread64), (68, .pwrite64),
    (72, .pselect6), (73, .ppoll), (78, .readlinkat), (93, .exit), (94, .exit_group),
    (96, .set_tid_address), (98, .futex), (99, .set_robust_list), (100, .get_robust_list),
    (113, .clock_gettime), (114, .clock_getres), (115, .clock_nanosleep), (124, .sched_yield),
    (131, .tgkill), (155, .getpgid), (169, .gettimeofday), (172, .getpid), (173, .getppid),
    (174, .getuid), (175, .geteuid), (176, .getgid), (177, .getegid), (178, .gettid),
    (179, .sysinfo), (214, .brk), (215, .munmap), (216, .mremap), (221, .execve), (222, .mmap),
    (223, .fadvise64), (226, .mprotect), (233, .madvise), (260, .wait4), (261, .prlimit64),
    (276, .renameat2), (278, .getrandom)]

def specialGeneric (host : Host) : List (Nat × Entry) :=
  [(25, .fcntl), (38, native (renameatNr host)),
    (56, .call .openat ![arg0, arg1, .openatFlags 2, arg3, arg4, arg5]),
    (80, .stat .fstat ![arg0, tmpAddr, 0, 0, 0, 0] 1),
    (79, .stat .newfstatat ![arg0, arg1, tmpAddr, arg3, 0, 0] 2),
    (160, .uname), (220, .clone), (122, .ignored), (123, .ignored), (293, .ignored),
    (134, .rtSigaction), (135, .rtSigprocmask), (139, .rtSigreturn),
    (136, .sized .rt_sigpending ![arg0, arg1, 0, 0, 0, 0]),
    (133, .sized .rt_sigsuspend ![arg0, arg1, 0, 0, 0, 0]), (132, .sigaltstack)]

def table (host : Host) : Abi → List (Nat × Entry)
  | .x86_64 => (nativeX86 ++ selectX86 host).map (fun p => (p.1, native p.2)) ++ specialX86 host
  | .generic => nativeGeneric.map (fun p => (p.1, native p.2)) ++ specialGeneric host

/-! ## Arguments and buffers -/

/-- The host's `O_DIRECT`, `O_LARGEFILE`, `O_DIRECTORY` and `O_NOFOLLOW` for those of x86-64. -/
def emulateOpenatFlags (uapiFlags : BitVec 32) : BitVec 32 :=
  let res := uapiFlags &&& ~~~0o740000#32
  let res := if uapiFlags &&& 0o40000#32 ≠ 0#32 then res ||| 0o200000#32 else res
  let res := if uapiFlags &&& 0o100000#32 ≠ 0#32 then res ||| 0o400000#32 else res
  let res := if uapiFlags &&& 0o200000#32 ≠ 0#32 then res ||| 0o40000#32 else res
  if uapiFlags &&& 0o400000#32 ≠ 0#32 then res ||| 0o100000#32 else res

def Src.eval (host : Host) (a : Args) : Src → HostArg
  | .const w => .word w
  | .arg i => .word (a i)
  | .openatFlags i =>
      match host with
      | .x86_64 | .riscv => .word (a i)
      | .aarch64 => .word ((emulateOpenatFlags ((a i).setWidth 32)).setWidth 64)
  | .statBuf => .statBuf

/-- The guest's `struct stat`: offset and size of the members, in the order of the writes. -/
def statLayout : Abi → List (StatMember × Nat × Nat)
  | .x86_64 =>
      [(.dev, 0, 8), (.ino, 8, 8), (.nlink, 16, 8), (.mode, 24, 4), (.uid, 28, 4), (.gid, 32, 4),
        (.rdev, 40, 8), (.size, 48, 8), (.blksize, 56, 8), (.blocks, 64, 8), (.atime, 72, 8),
        (.atimeNsec, 80, 8), (.mtime, 88, 8), (.mtimeNsec, 96, 8), (.ctime, 104, 8),
        (.ctimeNsec, 112, 8)]
  | .generic =>
      [(.dev, 0, 8), (.ino, 8, 8), (.nlink, 20, 4), (.mode, 16, 4), (.uid, 24, 4), (.gid, 28, 4),
        (.rdev, 32, 8), (.size, 48, 8), (.blksize, 56, 4), (.blocks, 64, 8), (.atime, 72, 8),
        (.atimeNsec, 80, 8), (.mtime, 88, 8), (.mtimeNsec, 96, 8), (.ctime, 104, 8),
        (.ctimeNsec, 112, 8)]

def storeStat (abi : Abi) (tgt : Word) (stat : StatMember → Word) : Emu Unit :=
  (statLayout abi).forM fun (member, offset, size) =>
    store (tgt + BitVec.ofNat 64 offset) size (stat member)

/-- `c <= '4'`: `char` is signed on x86-64 only. -/
def charLeFour (host : Host) (c : Byte) : Bool :=
  match host with
  | .x86_64 => c.toInt ≤ 0x34
  | .aarch64 | .riscv => c.toNat ≤ 0x34

/-! ## The calls -/

/-- `1 << nr % 64`, an `int`: the shift instructions of the hosts take the amount modulo 32. -/
def warnBit (nr : Word) : Word := (1#32 <<< (nr.toNat % 64 % 32)).signExtend 64

/-- A warning has been printed for the number, or for another one with its bit. -/
def Machine.warned (m : Machine) (nr : Word) : Bool :=
  if h : nr.toNat < 1024 then m.warnmap ⟨nr.toNat / 64, by omega⟩ &&& warnBit nr ≠ 0#64 else false

def Machine.warn (m : Machine) (nr : Word) : Machine :=
  if h : nr.toNat < 1024 then
    let i : Fin 16 := ⟨nr.toNat / 64, by omega⟩
    { m with warnmap := Function.update m.warnmap i (m.warnmap i ||| warnBit nr) }
  else m

@[simp] theorem Machine.warn_regs (m : Machine) (nr : Word) : (m.warn nr).regs = m.regs := by
  rw [warn]
  split_ifs <;> rfl

def unhandledSyscall (nr : Word) (a : Args) (m : Machine) : Emu (Option Word × Machine) :=
  if m.warned nr then return (some enosys, m)
  else do
    let _ ← Prog.ask (.unhandled nr a)
    return (some enosys, m.warn nr)

/-- The timeout of `ppoll` for that of `poll`. -/
def pollTimeout (timeout : Word) : HostArg :=
  if 0 ≤ timeout.toInt then .timespec (timeout / 1000#64) (timeout % 1000#64 * 1000000#64)
  else .word 0#64

def emulatePoll (a : Args) : Emu Word := do
  let r ← syscall .ppoll ![.word (a 0), .word (a 1), pollTimeout (a 2), .word 0#64, .word 8#64,
    .word 0#64]
  return r.res

def F_GETFL : Word := 3#64

def emulateDup2 (a : Args) : Emu Word :=
  if a 0 = a 1 then do
    let r ← syscall .fcntl ![.word (a 0), .word F_GETFL, .word 0#64, .word 0#64, .word 0#64,
      .word 0#64]
    return if 0 ≤ r.res.toInt then a 1 else r.res
  else do
    let r ← syscall .dup3 ![.word (a 0), .word (a 1), .word 0#64, .word 0#64, .word 0#64,
      .word 0#64]
    return r.res

/-- `F_DUPFD`, `F_DUPFD_CLOEXEC`, `F_GETFD`, `F_SETFD`, `F_GETFL`, `F_SETFL`, `F_SETOWN`,
`F_SETLK`, `F_SETLKW` and `F_GETLK`. -/
def fcntlCommands : List Nat := [0, 1030, 1, 2, 3, 4, 8, 6, 7, 5]

/-- The `switch` is on `arg0`. -/
def emulateFcntl (nr : Word) (a : Args) (m : Machine) : Emu (Option Word × Machine) :=
  if (a 0).toNat ∈ fcntlCommands then do
    let r ← syscall .fcntl fun i => .word (a i)
    return (some r.res, m)
  else unhandledSyscall nr a m

def archSetGs : Word := 0x1001#64
def archSetFs : Word := 0x1002#64

def emulateArchPrctl (a : Args) (m : Machine) : Option Word × Machine :=
  if a 0 = archSetGs then (some 0#64, m.setReg 19 (a 1))
  else if a 0 = archSetFs then (some 0#64, m.setReg 18 (a 1))
  else (some einval, m)

def emulateTime (a : Args) : Emu Word := do
  let r ← syscall .clock_gettime ![.word 5#64, .timespecBuf, .word 0#64, .word 0#64, .word 0#64,
    .word 0#64]
  if a 0 ≠ 0#64 then store (a 0) 8 r.tvSec
  return r.tvSec

def printProfile (h : Handlers) : Emu Unit :=
  match h.tcProfile with
  | none => return ()
  | some (writtenBytes, rewTime) => do
      let _ ← Prog.ask (.profile (writtenBytes.setWidth 32) ((rewTime / 1000000#64).setWidth 32))

def emulateExitGroup (h : Handlers) (a : Args) : Emu Word := do
  printProfile h
  let r ← syscall .exit_group fun i => .word (a i)
  return r.res

def cloneArgsOf (a : Args) : Abi → Except Errno CloneArgs
  | .x86_64 => cloneArgsX86 (a 0) (a 1) (a 2) (a 3) (a 4)
  | .generic => cloneArgsGeneric (a 0) (a 1) (a 2) (a 3) (a 4)

def emulateClone (h : Handlers) (abi : Abi) (a : Args) : Emu Word :=
  match cloneArgsOf a abi with
  | .error _ => return einval
  | .ok args => do return (← h.handleClone (.here args) 88#64).signExtend 64

/-- Emulate kernel 5.0.0. -/
def emulateUname (host : Host) (a : Args) : Emu Word := do
  let r ← syscall .uname ![.word (a 0), .word 0#64, .word 0#64, .word 0#64, .word 0#64, .word 0#64]
  if r.res = 0#64 ∧ charLeFour host r.release.1 ∧ r.release.2 = 0x2e#8 then
    store (a 0 + 130#64) 6 0x302e302e35#64
  return r.res

/-- `sizeof(sigset_t)` -/
def sigsetSize : Word := 8#64

def withResult (m : Machine) (p : Emu Word) : Emu (Option Word × Machine) := do
  return (some (← p), m)

/-- One `case`; there is no result after `rt_sigreturn`. -/
def emulate (h : Handlers) (host : Host) (abi : Abi) (nr : Word) (a : Args) (m : Machine) :
    Entry → Emu (Option Word × Machine)
  | .call nr args => withResult m do return (← syscall nr fun i => (args i).eval host a).res
  | .stat nr args tgt => withResult m do
      let r ← syscall nr fun i => (args i).eval host a
      if r.res = 0#64 then storeStat abi (a tgt) r.stat
      return r.res
  | .sized nr args => withResult m <|
      if a 1 ≠ sigsetSize then return einval
      else do return (← syscall nr fun i => (args i).eval host a).res
  | .poll => withResult m (emulatePoll a)
  | .dup2 => withResult m (emulateDup2 a)
  | .clone => withResult m (emulateClone h abi a)
  | .fcntl => emulateFcntl nr a m
  | .prctl => return (some einval, m)
  | .archPrctl => return emulateArchPrctl a m
  | .time => withResult m (emulateTime a)
  | .exitGroup => withResult m (emulateExitGroup h a)
  | .clone3 => withResult m do return (← h.handleClone (.guest (a 0)) (a 1)).signExtend 64
  | .ignored => return (some enosys, m)
  | .rtSigaction => withResult m <|
      if a 3 ≠ sigsetSize then return einval
      else do return (← h.signalSigaction ((a 0).setWidth 32) (a 1) (a 2)).signExtend 64
  | .rtSigprocmask => withResult m <|
      if a 3 ≠ sigsetSize then return einval
      else do return (← h.signalSigprocmask ((a 0).setWidth 32) (a 1) (a 2)).signExtend 64
  | .rtSigreturn => do
      h.signalSigreturn
      return (none, m)
  | .sigaltstack => withResult m do return (← h.signalSigaltstack (a 0) (a 1)).signExtend 64
  | .uname => withResult m (emulateUname host a)

/-- The `switch` of either table. -/
def dispatch (h : Handlers) (host : Host) (abi : Abi) (nr : Word) (a : Args) (m : Machine) :
    Emu (Option Word × Machine) :=
  match (table host abi).lookup nr.toNat with
  | some entry => emulate h host abi nr a m entry
  | none => unhandledSyscall nr a m

/-- The result is stored, and a signal that has become pending is handled. -/
def finish (h : Handlers) (reg : Fin 128) : Option Word × Machine → Emu Machine
  | (none, m) => return m
  | (some res, m) => do
      let m := m.setReg reg res
      h.signalHandle
      return m

/-! ## The guests' entry points -/

def x86Args (regs : Regdata) : Args := ![regs 8, regs 7, regs 3, regs 11, regs 9, regs 10]

def emulateSyscall (h : Handlers) (host : Host) (m : Machine) : Emu Machine := do
  finish h 1 (← dispatch h host .x86_64 (m.regs 1) (x86Args m.regs) m)

def emulateSyscallGeneric (h : Handlers) (host : Host) (nr : Word) (a : Args) (m : Machine) :
    Emu (Option Word × Machine) :=
  dispatch h host .generic nr a m

def emulateRv64Syscall (h : Handlers) (host : Host) (m : Machine) : Emu Machine := do
  let a : Args := ![m.regs 11, m.regs 12, m.regs 13, m.regs 14, m.regs 15, m.regs 16]
  finish h 11 (← emulateSyscallGeneric h host (m.regs 18) a m)

/-- `openat` on AArch64 has some swapped flags. -/
def swappedFlags (a2 : Word) : Word :=
  let new := a2 &&& ~~~0o740000#64
  let new := if a2 &&& 0o40000#64 ≠ 0#64 then new ||| 0o200000#64 else new
  let new := if a2 &&& 0o100000#64 ≠ 0#64 then new ||| 0o400000#64 else new
  let new := if a2 &&& 0o200000#64 ≠ 0#64 then new ||| 0o40000#64 else new
  if a2 &&& 0o400000#64 ≠ 0#64 then new ||| 0o100000#64 else new

def emulateAarch64Syscall (h : Handlers) (host : Host) (m : Machine) : Emu Machine := do
  let nr := m.regs 10
  let a2 := if nr = 56#64 then swappedFlags (m.regs 4) else m.regs 4
  let a : Args := ![m.regs 2, m.regs 3, a2, m.regs 5, m.regs 6, m.regs 7]
  finish h 2 (← emulateSyscallGeneric h host nr a m)

end Instrew.Client.Syscall
