import Instrew.Client.Syscall

/-!
# Emulated `fcntl`

Both tables pass `fcntl` on for a list of commands and refuse the rest. The `switch` that does
so is on the first argument, the descriptor, in either copy. `fcntl_by_command_iff` says for
which calls that gives what a `switch` on the command would.
-/

namespace Instrew.Client.Syscall

open Instrew.Lib.Requests

/-- The command, an `unsigned int`. -/
def command (a : Args) : Nat := ((a 1).setWidth 32).toNat

/-- The call is made on the host as it is, and its result returned. -/
def Forwards (a : Args) (p : Emu (Option Word × Machine)) : Prop :=
  ∀ answers, (p.run answers).1 = [.syscall .fcntl fun i => .word (a i)] ∧
    (p.run answers).2.1 = some (answers 0).res

/-- `-ENOSYS` is returned; nothing is done but that the message may be printed. -/
def Refuses (nr : Word) (a : Args) (p : Emu (Option Word × Machine)) : Prop :=
  ∀ answers, (∀ event ∈ (p.run answers).1, event = .unhandled nr a) ∧
    (p.run answers).2.1 = some enosys

/-- **What is demanded of `fcntl`.** -/
def DecidedByCommand (nr : Word) (a : Args) (p : Emu (Option Word × Machine)) : Prop :=
  (Forwards a p ↔ command a ∈ fcntlCommands) ∧ (command a ∉ fcntlCommands → Refuses nr a p)

section Fcntl

variable {nr : Word} {a : Args} {m : Machine} {p : Emu (Option Word × Machine)}

theorem Forwards.not_refuses (h : Forwards a p) : ¬ Refuses nr a p := by
  intro hrefuses
  have hevents := (hrefuses fun _ => default).1
  rw [(h fun _ => default).1] at hevents
  exact nomatch hevents _ List.mem_cons_self

theorem emulateFcntl_forwards (hin : (a 0).toNat ∈ fcntlCommands) :
    Forwards a (emulateFcntl nr a m) := by
  rw [emulateFcntl, if_pos hin]
  exact fun answers => ⟨rfl, rfl⟩

theorem emulateFcntl_refuses (hout : (a 0).toNat ∉ fcntlCommands) :
    Refuses nr a (emulateFcntl nr a m) := by
  rw [emulateFcntl, if_neg hout, unhandledSyscall]
  intro answers
  split_ifs
  · exact ⟨fun _ hmem => absurd hmem List.not_mem_nil, rfl⟩
  · exact ⟨fun _ hmem => List.mem_singleton.mp hmem, rfl⟩

theorem emulateFcntl_decided_iff :
    DecidedByCommand nr a (emulateFcntl nr a m) ↔
      ((a 0).toNat ∈ fcntlCommands ↔ command a ∈ fcntlCommands) := by
  by_cases hin : (a 0).toNat ∈ fcntlCommands
  · have hforwards : Forwards a (emulateFcntl nr a m) := emulateFcntl_forwards hin
    constructor
    · exact fun hdecided => ⟨fun _ => hdecided.1.mp hforwards, fun _ => hin⟩
    · intro hiff
      exact ⟨iff_of_true hforwards (hiff.mp hin), fun hcmd => absurd (hiff.mp hin) hcmd⟩
  · have hrefuses : Refuses nr a (emulateFcntl nr a m) := emulateFcntl_refuses hin
    constructor
    · intro hdecided
      refine iff_of_false hin fun hcmd => ?_
      exact (hdecided.1.mpr hcmd).not_refuses hrefuses
    · intro hiff
      have hcmd := mt hiff.mpr hin
      exact ⟨iff_of_false (fun hforwards => hforwards.not_refuses hrefuses) hcmd, fun _ => hrefuses⟩

end Fcntl

theorem lookup_fcntl_x86 (host : Host) : (table host .x86_64).lookup 72 = some .fcntl := by
  cases host <;> rfl

theorem lookup_fcntl_generic (host : Host) : (table host .generic).lookup 25 = some .fcntl := by
  cases host <;> rfl

theorem dispatch_fcntl_x86 (h : Handlers) (host : Host) (a : Args) (m : Machine) :
    dispatch h host .x86_64 72#64 a m = emulateFcntl 72#64 a m := by
  rw [dispatch, show (72#64).toNat = 72 from rfl, lookup_fcntl_x86]
  rfl

theorem emulateSyscallGeneric_fcntl (h : Handlers) (host : Host) (a : Args) (m : Machine) :
    emulateSyscallGeneric h host 25#64 a m = emulateFcntl 25#64 a m := by
  rw [emulateSyscallGeneric, dispatch, show (25#64).toNat = 25 from rfl, lookup_fcntl_generic]
  rfl

/-- **`fcntl` is decided by the descriptor**, in both tables: the calls that are treated as their
command demands are those where the descriptor's register holds the number of a command in the
list just when the command is in it. -/
theorem fcntl_by_command_iff (h : Handlers) (host : Host) (a : Args) (m : Machine) :
    (DecidedByCommand 72#64 a (dispatch h host .x86_64 72#64 a m) ↔
        ((a 0).toNat ∈ fcntlCommands ↔ command a ∈ fcntlCommands)) ∧
      (DecidedByCommand 25#64 a (emulateSyscallGeneric h host 25#64 a m) ↔
        ((a 0).toNat ∈ fcntlCommands ↔ command a ∈ fcntlCommands)) := by
  rw [dispatch_fcntl_x86, emulateSyscallGeneric_fcntl]
  exact ⟨emulateFcntl_decided_iff, emulateFcntl_decided_iff⟩

/-- `fcntl(fd, cmd, 0)` -/
def fcntlArgs (fd cmd : Word) : Args := ![fd, cmd, 0#64, 0#64, 0#64, 0#64]

/-- `fcntl(9, F_GETFD)` is refused, and `fcntl(3, F_SETSIG)` is passed on. -/
theorem fcntl_command_not_examined :
    command (fcntlArgs 9#64 1#64) ∈ fcntlCommands ∧ command (fcntlArgs 3#64 10#64) ∉ fcntlCommands ∧
      ∀ h host m,
        Refuses 72#64 (fcntlArgs 9#64 1#64)
            (dispatch h host .x86_64 72#64 (fcntlArgs 9#64 1#64) m) ∧
          Refuses 25#64 (fcntlArgs 9#64 1#64)
            (emulateSyscallGeneric h host 25#64 (fcntlArgs 9#64 1#64) m) ∧
          Forwards (fcntlArgs 3#64 10#64)
            (dispatch h host .x86_64 72#64 (fcntlArgs 3#64 10#64) m) ∧
          Forwards (fcntlArgs 3#64 10#64)
            (emulateSyscallGeneric h host 25#64 (fcntlArgs 3#64 10#64) m) := by
  refine ⟨by decide, by decide, fun h host m => ?_⟩
  rw [dispatch_fcntl_x86, dispatch_fcntl_x86, emulateSyscallGeneric_fcntl,
    emulateSyscallGeneric_fcntl]
  exact ⟨emulateFcntl_refuses (by decide), emulateFcntl_refuses (by decide),
    emulateFcntl_forwards (by decide), emulateFcntl_forwards (by decide)⟩

end Instrew.Client.Syscall
