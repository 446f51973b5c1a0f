import Mathlib.Data.BitVec
import Mathlib.Tactic

/-!
# Machine words and error numbers

`Word` is the `uintptr_t`/`uint64_t` of the supported hosts, all of which are
64-bit. Functions of the client that return a negative `errno` return
`Except Errno` here.
-/

namespace Instrew

abbrev Byte : Type := BitVec 8
abbrev Word : Type := BitVec 64

/-- The error numbers the modelled functions return. -/
inductive Errno : Type where
  | EINVAL
  | ENOENT
  | EEXIST
  | ENOSPC
  | ENOMEM
  | EFAULT
  | EPROTO
  | E2BIG
  | EOPNOTSUPP
deriving DecidableEq, Repr

/-- The value of `errno` in a failed system call. -/
abbrev ErrNo : Type := { e : Nat // 0 < e ∧ e < 4096 }

end Instrew
