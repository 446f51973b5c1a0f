import Instrew.Basic
import Instrew.Lib.Run

/-!
# The on-disk object cache

`Cache::Put` and `Cache::Get` for one hash, run by any number of server processes.
The file system has two names, the temporary and the final one, and inodes that live
as long as they are used; a lock is on an inode, while `rename` and `unlink` work on
names. A step is one system call of one process, done or failed, or its death.

In a run in which every `Put` that starts to write does so because there is no final
file, and has the inode of the temporary name, one no longer than its buffer, the final
name only ever shows the complete buffer of one `Put` (`final_is_one_buffer`).
-/

namespace Instrew.Server.Cache

open Instrew.Lib.Run

/-- Where a `Put` is: `unlinking` and `closing` are on the way to `close_fds`. -/
inductive Pc : Type where
  | opened
  | locked
  | writing (written : Nat)
  | unlinking
  | closing
  deriving DecidableEq

/-- A `Put` under way: its buffer, and the inode it has open as the temporary file. -/
structure Put : Type where
  buf : List Byte
  fd : Nat
  pc : Pc
  deriving DecidableEq

structure Disk : Type where
  content : Nat → List Byte
  /-- The inodes from here on are unused. -/
  next : Nat
  tmpName : Option Nat
  finalName : Option Nat
  /-- The process that holds the write lock of an inode. -/
  lock : Nat → Option Nat
  procs : Nat → Option Put
  /-- The buffers of all `Put` calls so far. -/
  puts : List (List Byte)

/-- What `Cache::Get` finds: the length and the contents of the file under the final
name. -/
def get (d : Disk) : Option (List Byte) := d.finalName.map d.content

/-- `write` at an offset; there is no truncation. -/
def writeAt (old : List Byte) (off : Nat) (chunk : List Byte) : List Byte :=
  old.take off ++ chunk ++ old.drop (off + chunk.length)

inductive Op : Type where
  /-- Enter `Put` and open the temporary name with `O_CREAT`. -/
  | openTmp (buf : List Byte)
  | setlk
  | openFinal
  /-- One `write` of `write_full`, of at least one byte. -/
  | write (n : Nat)
  | rename
  | unlinkTmp
  | close
  /-- The call that is next fails, for a reason that is not in this state. -/
  | fails
  /-- The process dies, and the kernel closes its files. -/
  | die
  deriving DecidableEq

def setProc (d : Disk) (pid : Nat) (put : Option Put) : Disk :=
  { d with procs := Function.update d.procs pid put }

def unlock (d : Disk) (pid : Nat) : Disk :=
  { d with lock := fun ino => if d.lock ino = some pid then none else d.lock ino }

/-- The process closes its files, and its locks go. -/
def release (d : Disk) (pid : Nat) : Disk := setProc (unlock d pid) pid none

/-- One system call of a `Put` under way. -/
def stepPut (d : Disk) (pid : Nat) (put : Put) : Op → Option Disk
  | .openTmp _ => none
  | .setlk =>
      if put.pc ≠ .opened then none
      else if d.lock put.fd = none then
        some (setProc { d with lock := Function.update d.lock put.fd (some pid) } pid
          (some { put with pc := .locked }))
      else some (setProc d pid (some { put with pc := .closing }))
  | .openFinal =>
      if put.pc ≠ .locked then none
      else
        -- if someone else got it already, there is nothing to do
        match d.finalName with
        | some _ => some (setProc d pid (some { put with pc := .unlinking }))
        | none => some (setProc d pid (some { put with pc := .writing 0 }))
  | .write n =>
      match put.pc with
      | .writing written =>
          if 0 < n ∧ written + n ≤ put.buf.length then
            some (setProc
              { d with
                content := Function.update d.content put.fd
                  (writeAt (d.content put.fd) written ((put.buf.drop written).take n)) }
              pid (some { put with pc := .writing (written + n) }))
          else none
      | _ => none
  | .rename =>
      if put.pc ≠ .writing put.buf.length then none
      else
        match d.tmpName with
        | some ino =>
            some (setProc { d with tmpName := none, finalName := some ino } pid
              (some { put with pc := .closing }))
        | none => some (setProc d pid (some { put with pc := .unlinking }))
  | .unlinkTmp =>
      if put.pc ≠ .unlinking then none
      else some (setProc { d with tmpName := none } pid (some { put with pc := .closing }))
  | .close => if put.pc ≠ .closing then none else some (release d pid)
  | .fails =>
      match put.pc with
      | .opened | .unlinking => some (setProc d pid (some { put with pc := .closing }))
      -- any failure of this `open` is taken for a missing file
      | .locked => some (setProc d pid (some { put with pc := .writing 0 }))
      | .writing _ => some (setProc d pid (some { put with pc := .unlinking }))
      | .closing => none
  | .die => some (release d pid)

/-- `Put` begins: the temporary name is opened, and created if there is none. -/
def enter (d : Disk) (pid : Nat) (buf : List Byte) : Disk :=
  match d.tmpName with
  | some ino => { setProc d pid (some ⟨buf, ino, .opened⟩) with puts := buf :: d.puts }
  | none =>
      { setProc d pid (some ⟨buf, d.next, .opened⟩) with
        content := Function.update d.content d.next []
        next := d.next + 1
        tmpName := some d.next
        puts := buf :: d.puts }

def step (d : Disk) (po : Nat × Op) : Option Disk :=
  match d.procs po.1, po.2 with
  | none, .openTmp buf => some (enter d po.1 buf)
  -- without the temporary file there is nothing to close
  | none, .fails => some d
  | none, _ => none
  | some put, op => stepPut d po.1 put op

/-- An empty cache directory. -/
def empty : Disk where
  content _ := []
  next := 0
  tmpName := none
  finalName := none
  lock _ := none
  procs _ := none
  puts := []

/-- The step lets a `Put` start to write: its `open` of the final name fails. -/
def StartsToWrite (d : Disk) (put : Put) (op : Op) : Prop :=
  put.pc = .locked ∧ (op = .openFinal ∧ d.finalName = none ∨ op = .fails)

instance (d : Disk) (put : Put) (op : Op) : Decidable (StartsToWrite d put op) :=
  inferInstanceAs (Decidable (_ ∧ _))

/-- The condition on a step, which is about a `Put` that starts to write: there is no final
file, and the inode it has open and locked is still the one of the temporary name, and not
longer than its buffer. -/
def okStep (d : Disk) (po : Nat × Op) : Prop :=
  ∀ put, d.procs po.1 = some put → StartsToWrite d put po.2 →
    d.finalName = none ∧ d.tmpName = some put.fd ∧ (d.content put.fd).length ≤ put.buf.length

instance (d : Disk) (po : Nat × Op) : Decidable (okStep d po) :=
  inferInstanceAs (Decidable (∀ put ∈ d.procs po.1, StartsToWrite d put po.2 →
    d.finalName = none ∧ d.tmpName = some put.fd ∧ (d.content put.fd).length ≤ put.buf.length))

/-- The final name shows one `Put`'s buffer, whole. -/
def OneBuffer (d : Disk) : Prop := ∀ file, get d = some file → file ∈ d.puts

/-! ## The invariant -/

/-- Writing, or about to remove the temporary name. -/
def Active : Pc → Prop
  | .writing _ | .unlinking => True
  | .opened | .locked | .closing => False

/-- What holds of a `Put` under way. Before there is a final file, the one that is active
owns the temporary name. -/
structure PutInv (d : Disk) (pid : Nat) (put : Put) : Prop where
  used : put.fd < d.next
  called : put.buf ∈ d.puts
  locked : put.pc = .locked ∨ Active put.pc → d.lock put.fd = some pid
  owner : d.finalName = none → Active put.pc → d.tmpName = some put.fd
  noFinal : ∀ w, put.pc = .writing w → d.finalName = none
  progress : ∀ w, put.pc = .writing w → w ≤ (d.content put.fd).length ∧
    (d.content put.fd).take w = put.buf.take w ∧ (d.content put.fd).length ≤ put.buf.length

structure Inv (d : Disk) : Prop where
  tmpUsed : ∀ ino, d.tmpName = some ino → ino < d.next
  finalUsed : ∀ ino, d.finalName = some ino → ino < d.next
  procs : ∀ pid put, d.procs pid = some put → PutInv d pid put
  oneBuffer : OneBuffer d

variable {d d' : Disk} {pid : Nat} {put : Put}

theorem inv_empty : Inv empty where
  tmpUsed := fun _ h => by cases h
  finalUsed := fun _ h => by cases h
  procs := fun _ _ h => by cases h
  oneBuffer := fun _ h => by cases h

/-- Two active processes before there is a final file are one: both hold the lock of the
inode of the temporary name. -/
theorem active_unique (hi : Inv d) (hfinal : d.finalName = none) {pid' : Nat} {put' : Put}
    (h : d.procs pid = some put) (h' : d.procs pid' = some put') (ha : Active put.pc)
    (ha' : Active put'.pc) : pid = pid' := by
  have hi1 := hi.procs pid put h
  have hi2 := hi.procs pid' put' h'
  have hfd : put.fd = put'.fd :=
    Option.some.inj ((hi1.owner hfinal ha).symm.trans (hi2.owner hfinal ha'))
  have hl1 := hi1.locked (.inr ha)
  have hl2 := hi2.locked (.inr ha')
  rw [hfd] at hl1
  exact Option.some.inj (hl1.symm.trans hl2)

/-- A process that a step does not concern keeps its part of the invariant: nothing it
relies on is changed. -/
theorem PutInv.frame (h : PutInv d pid put) (hnext : d.next ≤ d'.next) (hputs : d.puts ⊆ d'.puts)
    (hlock : d.lock put.fd = some pid → d'.lock put.fd = some pid)
    (howner : d'.finalName = none → Active put.pc → d'.tmpName = some put.fd)
    (hfinal : ∀ w, put.pc = .writing w → d'.finalName = none)
    (hcontent : ∀ w, put.pc = .writing w → d'.content put.fd = d.content put.fd) :
    PutInv d' pid put where
  used := Nat.lt_of_lt_of_le h.used hnext
  called := hputs h.called
  locked := fun hp => hlock (h.locked hp)
  owner := howner
  noFinal := hfinal
  progress := fun w hw => by
    rw [hcontent w hw]
    exact h.progress w hw

/-- A `Put` that has no lock yet, or is done with it. -/
theorem putInv_of_idle (hused : put.fd < d.next) (hcalled : put.buf ∈ d.puts)
    (hpc : put.pc = .opened ∨ put.pc = .closing) : PutInv d pid put := by
  have hactive : ¬ Active put.pc := by rcases hpc with hpc | hpc <;> simp [hpc, Active]
  have hwriting : ∀ w, put.pc ≠ .writing w := by rcases hpc with hpc | hpc <;> simp [hpc]
  have hlocked : put.pc ≠ .locked := by rcases hpc with hpc | hpc <;> simp [hpc]
  exact ⟨hused, hcalled, fun h => absurd h (not_or.mpr ⟨hlocked, hactive⟩),
    fun _ h => absurd h hactive, fun w h => absurd h (hwriting w), fun w h => absurd h (hwriting w)⟩

theorem setProc_procs_of_ne {p : Nat} (h : p ≠ pid) (x : Option Put) :
    (setProc d pid x).procs p = d.procs p := Function.update_of_ne h _ _

theorem setProc_procs_self (x : Option Put) : (setProc d pid x).procs pid = x :=
  Function.update_self _ _ _

/-- The invariant says nothing of a process that another one relies on. -/
theorem inv_setProc {x : Option Put} (htmp : ∀ ino, d.tmpName = some ino → ino < d.next)
    (hfinal : ∀ ino, d.finalName = some ino → ino < d.next) (hone : OneBuffer d)
    (hother : ∀ p q, p ≠ pid → d.procs p = some q → PutInv d p q)
    (hself : ∀ q, x = some q → PutInv d pid q) : Inv (setProc d pid x) := by
  have hput : ∀ {p q}, PutInv d p q → PutInv (setProc d pid x) p q := fun h =>
    h.frame le_rfl (List.Subset.refl _) id h.owner h.noFinal (fun _ _ => rfl)
  refine ⟨htmp, hfinal, fun p q hq => hput ?_, hone⟩
  by_cases hp : p = pid
  · subst hp
    rw [setProc_procs_self] at hq
    exact hself q hq
  · rw [setProc_procs_of_ne hp] at hq
    exact hother p q hp hq

/-! ## The steps -/

theorem enter_inv (hi : Inv d) (buf : List Byte) : Inv (enter d pid buf) := by
  unfold enter
  cases htmp : d.tmpName with
  | some ino =>
      have hother : ∀ p q, d.procs p = some q →
          PutInv { d with puts := buf :: d.puts } p q := fun p q hq =>
        (hi.procs p q hq).frame le_rfl (List.subset_cons_self _ _) id (hi.procs p q hq).owner
          (hi.procs p q hq).noFinal (fun _ _ => rfl)
      refine inv_setProc (d := { d with puts := buf :: d.puts }) hi.tmpUsed hi.finalUsed
        (fun file hf => List.mem_cons_of_mem _ (hi.oneBuffer file hf)) (fun p q _ => hother p q) ?_
      intro q hq
      obtain rfl := Option.some.inj hq
      exact putInv_of_idle (hi.tmpUsed ino htmp) List.mem_cons_self (.inl rfl)
  | none =>
      set d1 : Disk := { d with
        content := Function.update d.content d.next []
        next := d.next + 1
        tmpName := some d.next
        puts := buf :: d.puts } with hd1
      have hold : ∀ ino, ino < d.next → d1.content ino = d.content ino := fun ino h =>
        Function.update_of_ne (by omega) _ _
      refine inv_setProc (d := d1) ?_ ?_ ?_ ?_ ?_
      · intro ino h
        cases h
        exact Nat.lt_succ_self _
      · intro ino h
        exact Nat.lt_succ_of_lt (hi.finalUsed ino h)
      · intro file hf
        obtain ⟨ino, hino, rfl⟩ := Option.map_eq_some_iff.mp hf
        rw [hold ino (hi.finalUsed ino hino)]
        exact List.mem_cons_of_mem _ (hi.oneBuffer _ (Option.map_eq_some_iff.mpr ⟨ino, hino, rfl⟩))
      · intro p q _ hq
        have hinv := hi.procs p q hq
        refine hinv.frame (Nat.le_succ _) (List.subset_cons_self _ _) id (fun hf ha => ?_)
          hinv.noFinal (fun _ _ => hold q.fd hinv.used)
        -- an active process would own a temporary name, and there is none
        have howner := hinv.owner hf ha
        rw [htmp] at howner
        cases howner
      · intro q hq
        obtain rfl := Option.some.inj hq
        exact putInv_of_idle (Nat.lt_succ_self _) List.mem_cons_self (.inl rfl)

theorem release_inv (hi : Inv d) : Inv (release d pid) := by
  refine inv_setProc (d := unlock d pid) hi.tmpUsed hi.finalUsed hi.oneBuffer ?_
    (fun q hq => by cases hq)
  intro p q hp hq
  have hinv := hi.procs p q hq
  refine hinv.frame le_rfl (List.Subset.refl _) (fun hl => ?_) hinv.owner hinv.noFinal
    (fun _ _ => rfl)
  have hne : d.lock q.fd ≠ some pid := fun h => hp (Option.some.inj (hl.symm.trans h))
  simp only [unlock]
  rw [if_neg hne]
  exact hl

/-- Going on to a program point where the process writes nothing. -/
theorem setPc_inv (hi : Inv d) (h : d.procs pid = some put) {pc : Pc}
    (hpc : ∀ w, pc ≠ .writing w) (hlocked : pc = .locked ∨ Active pc → d.lock put.fd = some pid)
    (howner : d.finalName = none → Active pc → d.tmpName = some put.fd) :
    Inv (setProc d pid (some { put with pc := pc })) := by
  refine inv_setProc hi.tmpUsed hi.finalUsed hi.oneBuffer (fun p q _ => hi.procs p q) ?_
  intro q hq
  obtain rfl := Option.some.inj hq
  have hput := hi.procs pid put h
  exact ⟨hput.used, hput.called, hlocked, howner, fun w hw => absurd hw (hpc w),
    fun w hw => absurd hw (hpc w)⟩

theorem setlk_inv (hi : Inv d) (h : d.procs pid = some put)
    (hs : stepPut d pid put .setlk = some d') : Inv d' := by
  simp only [stepPut] at hs
  split at hs
  case isTrue => cases hs
  case isFalse =>
    split at hs
    case isTrue hfree =>
      cases hs
      have hput := hi.procs pid put h
      refine inv_setProc (d := { d with lock := Function.update d.lock put.fd (some pid) })
        hi.tmpUsed hi.finalUsed hi.oneBuffer (fun p q _ hq => ?_) (fun q hq => ?_)
      · have hinv := hi.procs p q hq
        refine hinv.frame le_rfl (List.Subset.refl _) (fun hl => ?_) hinv.owner hinv.noFinal
          (fun _ _ => rfl)
        have hne : q.fd ≠ put.fd := by
          intro heq
          rw [heq, hfree] at hl
          cases hl
        simp only
        rw [Function.update_of_ne hne]
        exact hl
      · obtain rfl := Option.some.inj hq
        exact ⟨hput.used, hput.called, fun _ => Function.update_self _ _ _, by simp [Active],
          by simp, by simp⟩
    case isFalse =>
      cases hs
      exact setPc_inv hi h (by simp) (by simp [Active]) (by simp [Active])

/-- A `Put` starts to write: this is where the condition is used. -/
theorem startsToWrite_inv {op : Op} (hi : Inv d) (h : d.procs pid = some put)
    (hok : okStep d (pid, op)) (hstart : StartsToWrite d put op) :
    Inv (setProc d pid (some { put with pc := .writing 0 })) := by
  have hput := hi.procs pid put h
  obtain ⟨hfinal, htmp, hlen⟩ := hok put h hstart
  refine inv_setProc hi.tmpUsed hi.finalUsed hi.oneBuffer (fun p q _ => hi.procs p q)
    (fun q hq => ?_)
  obtain rfl := Option.some.inj hq
  refine ⟨hput.used, hput.called, fun _ => hput.locked (.inl hstart.1), fun _ _ => htmp,
    fun _ _ => hfinal, fun w hw => ?_⟩
  obtain rfl := Pc.writing.inj hw
  exact ⟨Nat.zero_le _, rfl, hlen⟩

theorem openFinal_inv (hi : Inv d) (h : d.procs pid = some put) (hok : okStep d (pid, .openFinal))
    (hs : stepPut d pid put .openFinal = some d') : Inv d' := by
  simp only [stepPut] at hs
  split at hs
  case isTrue => cases hs
  case isFalse hpc =>
    rw [not_not] at hpc
    split at hs
    case h_1 ino hfinal =>
      cases hs
      exact setPc_inv hi h (by simp) (fun _ => (hi.procs pid put h).locked (.inl hpc))
        (by simp [hfinal])
    case h_2 hfinal =>
      cases hs
      exact startsToWrite_inv hi h hok ⟨hpc, .inl ⟨rfl, hfinal⟩⟩

/-- A failed call: the process leaves, or starts to write, or gives up writing. -/
theorem fails_inv (hi : Inv d) (h : d.procs pid = some put) (hok : okStep d (pid, .fails))
    (hs : stepPut d pid put .fails = some d') : Inv d' := by
  simp only [stepPut] at hs
  cases hpc : put.pc with
  | opened | unlinking =>
      rw [hpc] at hs
      cases hs
      exact setPc_inv hi h (by simp) (by simp [Active]) (by simp [Active])
  | locked =>
      rw [hpc] at hs
      cases hs
      exact startsToWrite_inv hi h hok ⟨hpc, .inr rfl⟩
  | writing w =>
      rw [hpc] at hs
      cases hs
      have hput := hi.procs pid put h
      have hactive : Active put.pc := by simp [hpc, Active]
      exact setPc_inv hi h (by simp) (fun _ => hput.locked (.inr hactive))
        (fun hf _ => hput.owner hf hactive)
  | closing =>
      rw [hpc] at hs
      cases hs

theorem take_writeAt {old buf : List Byte} {w n : Nat} (hw : w ≤ old.length)
    (htake : old.take w = buf.take w) (hn : w + n ≤ buf.length) (hlen : old.length ≤ buf.length) :
    let new := writeAt old w ((buf.drop w).take n)
    w + n ≤ new.length ∧ new.take (w + n) = buf.take (w + n) ∧ new.length ≤ buf.length := by
  have hchunk : ((buf.drop w).take n).length = n := by simp; omega
  have hhead : (old.take w ++ (buf.drop w).take n) = buf.take (w + n) := by
    rw [htake, List.take_add]
  have hheadlen : (buf.take (w + n)).length = w + n := by simp; omega
  have hnew : writeAt old w ((buf.drop w).take n) = buf.take (w + n) ++ old.drop (w + n) := by
    rw [writeAt, hchunk, hhead]
  simp only [hnew]
  refine ⟨?_, ?_, ?_⟩
  · rw [List.length_append, hheadlen]
    exact Nat.le_add_right _ _
  · exact List.take_left' hheadlen
  · rw [List.length_append, hheadlen, List.length_drop]
    omega

theorem write_inv (hi : Inv d) (h : d.procs pid = some put) {n : Nat}
    (hs : stepPut d pid put (.write n) = some d') : Inv d' := by
  simp only [stepPut] at hs
  split at hs
  case h_2 => cases hs
  case h_1 w hpc =>
    split at hs
    case isFalse => cases hs
    case isTrue hn =>
      cases hs
      have hput := hi.procs pid put h
      have hactive : Active put.pc := by simp [hpc, Active]
      have hfinal := hput.noFinal w hpc
      obtain ⟨hw, htake, hlen⟩ := hput.progress w hpc
      obtain ⟨hw', htake', hlen'⟩ := take_writeAt hw htake hn.2 hlen
      set new := writeAt (d.content put.fd) w ((put.buf.drop w).take n)
      refine inv_setProc (d := { d with content := Function.update d.content put.fd new })
        hi.tmpUsed hi.finalUsed (fun file hf => ?_) (fun p q hp hq => ?_) (fun q hq => ?_)
      · simp [get, hfinal] at hf
      · have hinv := hi.procs p q hq
        refine hinv.frame le_rfl (List.Subset.refl _) id hinv.owner hinv.noFinal (fun w' hpc' => ?_)
        -- the other process does not write: it would be active too
        have ha : Active q.pc := by simp [hpc', Active]
        exact absurd (active_unique hi hfinal hq h ha hactive) hp
      · obtain rfl := Option.some.inj hq
        refine ⟨hput.used, hput.called, fun _ => hput.locked (.inr hactive),
          fun hf _ => hput.owner hf hactive, fun _ _ => hfinal, fun w' hpc' => ?_⟩
        obtain rfl := Pc.writing.inj hpc'
        simp only [Function.update_self]
        exact ⟨hw', htake', hlen'⟩

/-- The renamed inode is the process's own, and it has the buffer in it. -/
theorem rename_inv (hi : Inv d) (h : d.procs pid = some put)
    (hs : stepPut d pid put .rename = some d') : Inv d' := by
  simp only [stepPut] at hs
  split at hs
  case isTrue => cases hs
  case isFalse hpc =>
    rw [not_not] at hpc
    have hput := hi.procs pid put h
    have hactive : Active put.pc := by simp [hpc, Active]
    have hfinal := hput.noFinal _ hpc
    have htmp := hput.owner hfinal hactive
    obtain ⟨hw, htake, hlen⟩ := hput.progress _ hpc
    have hcontent : d.content put.fd = put.buf := by
      rwa [List.take_length, List.take_of_length_le hlen] at htake
    rw [htmp] at hs
    cases hs
    refine inv_setProc (d := { d with tmpName := none, finalName := some put.fd })
      (fun ino hino => by cases hino) (fun ino hino => ?_) (fun file hf => ?_)
      (fun p q hp hq => ?_) (fun q hq => ?_)
    · obtain rfl := Option.some.inj hino
      exact hput.used
    · obtain rfl := Option.some.inj hf
      rw [hcontent]
      exact hput.called
    · have hinv := hi.procs p q hq
      refine hinv.frame le_rfl (List.Subset.refl _) id (fun hf => by cases hf) (fun w hpc' => ?_)
        (fun _ _ => rfl)
      have ha : Active q.pc := by simp [hpc', Active]
      exact absurd (active_unique hi hfinal hq h ha hactive) hp
    · obtain rfl := Option.some.inj hq
      exact putInv_of_idle hput.used hput.called (.inr rfl)

theorem unlinkTmp_inv (hi : Inv d) (h : d.procs pid = some put)
    (hs : stepPut d pid put .unlinkTmp = some d') : Inv d' := by
  simp only [stepPut] at hs
  split at hs
  case isTrue => cases hs
  case isFalse hpc =>
    rw [not_not] at hpc
    cases hs
    have hput := hi.procs pid put h
    have hactive : Active put.pc := by simp [hpc, Active]
    refine inv_setProc (d := { d with tmpName := none }) (fun ino hino => by cases hino)
      hi.finalUsed hi.oneBuffer (fun p q hp hq => ?_) (fun q hq => ?_)
    · have hinv := hi.procs p q hq
      refine hinv.frame le_rfl (List.Subset.refl _) id (fun hf ha => ?_) hinv.noFinal (fun _ _ => rfl)
      exact absurd (active_unique hi hf hq h ha hactive) hp
    · obtain rfl := Option.some.inj hq
      exact ⟨hput.used, hput.called, by simp [Active], by simp [Active], by simp, by simp⟩

theorem step_inv {po : Nat × Op} (hi : Inv d) (hok : okStep d po) (hs : step d po = some d') :
    Inv d' := by
  obtain ⟨pid, op⟩ := po
  unfold step at hs
  split at hs
  case h_1 => exact Option.some.inj hs ▸ enter_inv hi _
  case h_2 => exact Option.some.inj hs ▸ hi
  case h_3 => cases hs
  case h_4 put h =>
    simp only at h hs
    cases op with
    | openTmp buf => cases hs
    | setlk => exact setlk_inv hi h hs
    | openFinal => exact openFinal_inv hi h hok hs
    | write n => exact write_inv hi h hs
    | rename => exact rename_inv hi h hs
    | unlinkTmp => exact unlinkTmp_inv hi h hs
    | close =>
        simp only [stepPut] at hs
        split at hs
        case isTrue => cases hs
        case isFalse => exact Option.some.inj hs ▸ release_inv hi
    | fails => exact fails_inv hi h hok hs
    | die => exact Option.some.inj hs ▸ release_inv hi

/-- **The final name shows one buffer.** In every run, of any processes and in any
order, whose every step meets the condition, and so in every state of it, a `Get`
finds either nothing or the complete buffer of one `Put`. -/
theorem final_is_one_buffer (pos : List (Nat × Op)) (hok : AllSteps step okStep empty pos)
    {d : Disk} (hrun : run step empty pos = some d) {file : List Byte} (hget : get d = some file) :
    file ∈ d.puts :=
  (run_invariant_of (fun _ _ _ => step_inv) pos inv_empty hok hrun).oneBuffer file hget

/-- Two `Put`s that overlap: the second opens the temporary file too, does not get the lock
and leaves while the first one writes. Its next `Put` finds the final file. -/
def twoPuts : List (Nat × Op) :=
  [(1, .openTmp [7#8, 8#8]), (2, .openTmp [9#8]), (1, .setlk), (1, .openFinal), (1, .write 1),
    (2, .setlk), (1, .write 1), (2, .close), (1, .rename), (2, .openTmp [9#8]), (2, .setlk),
    (1, .close), (2, .openFinal), (2, .unlinkTmp), (2, .close)]

theorem twoPuts_ok : AllSteps step okStep empty twoPuts := by decide

theorem final_is_one_buffer_twoPuts :
    ∃ d, AllSteps step okStep empty twoPuts ∧ run step empty twoPuts = some d ∧
      get d = some [7#8, 8#8] ∧ [7#8, 8#8] ∈ d.puts :=
  ⟨_, twoPuts_ok, rfl, rfl, final_is_one_buffer twoPuts twoPuts_ok rfl rfl⟩

/-- The first process opens, locks and fails to write; a second has opened the same
inode before the first removes the name. A third creates the name anew and has written
one byte when the second, on its unlinked inode, is done and renames. -/
def staleInode : List (Nat × Op) :=
  [(1, .openTmp [7#8, 8#8]), (1, .setlk), (1, .openFinal), (2, .openTmp [7#8, 8#8]), (1, .fails),
    (1, .unlinkTmp), (1, .close), (3, .openTmp [7#8, 8#8]), (3, .setlk), (3, .openFinal),
    (3, .write 1), (2, .setlk), (2, .openFinal), (2, .write 2), (2, .rename)]

/-- A `Get` then finds one byte of two. -/
theorem stale_inode_torn :
    (run step empty staleInode).map get = some (some [7#8]) ∧
    ¬ ∀ d, run step empty staleInode = some d → OneBuffer d := by
  have hrun : (run step empty staleInode).map (fun d => (get d, d.puts)) =
      some (some [7#8], [[7#8, 8#8], [7#8, 8#8], [7#8, 8#8]]) := by decide
  obtain ⟨d, hd, hpair⟩ := Option.map_eq_some_iff.mp hrun
  obtain ⟨hget, hputs⟩ := Prod.mk.inj hpair
  refine ⟨by rw [hd, Option.map_some, hget], fun h => ?_⟩
  have hmem := h d hd _ hget
  rw [hputs] at hmem
  exact absurd hmem (by decide)

end Instrew.Server.Cache
