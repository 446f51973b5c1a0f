import Instrew.Client.Dispatch
import Instrew.Client.Translator
import Instrew.Lib.Transfer

/-!
# Transfers that a signal interrupts

`read_full` and `write_full` of `client/minilibc.c`, and `translator_get` down to their
calls, with the values that these return on an error. What the kernel does is a sequence of
results. A handler that `signal_sigaction` has installed without `SA_RESTART` makes a call
that waits return `EINTR`; neither function tries again then.

`transfers_survive_iff` says for each of the functions, and for `resolve_func`, that it
succeeds exactly if no such result comes on the way.
-/

namespace Instrew.Client.Socket

open Lib.Bytes Lib.Transfer

def eintr : Nat := 4
def eio : Nat := 5
def efault : Nat := 14

/-- A translator with its socket: the bytes that the server sends, how many of them have been
read, what has been written, and the results of the calls from `next` on. -/
structure Conn : Type where
  t : Translator
  writtenBytes : Nat
  input : Nat → Byte
  pos : Nat
  output : List Byte
  script : Nat → Res
  next : Nat

/-- A piece of a function: it returns early with a code (`throw`) or goes on with a value.
There is nothing if it is cut off by the bound on the rounds of a loop. -/
def Io (α : Type) : Type := Conn → Option (Except Int α × Conn)

variable {α β : Type}

namespace Io

def bind (m : Io α) (f : α → Io β) : Io β := fun s =>
  match m s with
  | none => none
  | some (.error e, s₁) => some (.error e, s₁)
  | some (.ok a, s₁) => f a s₁

instance : Monad Io where
  pure a := fun s => some (.ok a, s)
  bind := Io.bind

def throw (e : Int) : Io α := fun s => some (.error e, s)

theorem bind_ok {m : Io α} {f : α → Io β} {s s₁ : Conn} {a : α} (h : m s = some (.ok a, s₁)) :
    (m >>= f) s = f a s₁ := by
  show Io.bind m f s = _
  rw [Io.bind, h]

theorem bind_error {m : Io α} {f : α → Io β} {s s₁ : Conn} {e : Int}
    (h : m s = some (.error e, s₁)) : (m >>= f) s = some (.error e, s₁) := by
  show Io.bind m f s = _
  rw [Io.bind, h]

theorem bind_none {m : Io α} {f : α → Io β} {s : Conn} (h : m s = none) : (m >>= f) s = none := by
  show Io.bind m f s = _
  rw [Io.bind, h]

/-- Look at the translator. -/
def withT (m : Translator → Io α) : Io α := fun s => m s.t s

def modifyT (f : Translator → Translator) : Io Unit := fun s => some (.ok (), { s with t := f s.t })

end Io

/-! ## The functions -/

/-- `read_full`: the value returned and the bytes that have been read. -/
def readFull (nbytes : Nat) : Io (Int × List Byte) := fun s =>
  let r := transferAll (fun _ => s.script) eio nbytes 0 s.next
  some (.ok (r.ret, (List.range r.moved).map fun j => s.input (s.pos + j)),
    { s with pos := s.pos + r.moved, next := r.next })

def writeFull (buf : List Byte) : Io Int := fun s =>
  let r := transferAll (fun _ => s.script) eio buf.length 0 s.next
  some (.ok r.ret, { s with output := s.output ++ buf.take r.moved, next := r.next })

/-- What a call returns that would have to read from an invalid address. -/
def faulting : Res → Res
  | .error e => .error e
  | .count _ => .error efault

/-- `write_full` from a page of the guest. -/
def writeGuest (bufSz : Nat) : Option (Nat → Byte) → Io Int
  | some mem => writeFull ((List.range bufSz).map mem)
  | none => fun s =>
      let r := transferAll (fun _ j => faulting (s.script j)) eio bufSz 0 s.next
      some (.ok r.ret, { s with next := r.next })

def translatorHdrSend (id : MsgId) (sz : Nat) : Io Int :=
  Io.withT fun t => do
    if t.lastHdr.id ≠ MsgId.unknown.num then
      return -eproto
    else
      let ret ← writeFull (MsgHdr.mk' id sz).bytes
      if ret ≠ 8 then return ret else return 0

/-- The header is read into `last_hdr`, of which a part may be left as it was. -/
def recvLastHdr : Io Int := do
  let (ret, bytes) ← readFull 8
  Io.modifyT fun t =>
    { t with lastHdr := MsgHdr.ofBytes (bytes ++ t.lastHdr.bytes.drop bytes.length) }
  return ret

/-- The end of `translator_hdr_recv`. -/
def checkLastHdr (id : MsgId) : Io Int :=
  Io.withT fun t => do
    Io.modifyT fun _ => (checkHdr t id t.lastHdr).2
    return (checkHdr t id t.lastHdr).1

def translatorHdrRecv (id : MsgId) : Io Int :=
  Io.withT fun t => do
    if t.lastHdr.id = MsgId.unknown.num then
      let ret ← recvLastHdr
      if ret ≠ 8 then return ret else checkLastHdr id
    else checkLastHdr id

/-- What a translation meets besides the socket: guest memory, the page size, and
`mem_alloc_data`. -/
structure GetEnv : Type where
  pagesz : Nat
  page : Word → Option (Nat → Byte)
  memAllocData : Nat → Except Nat Unit

/-- The receive buffer is enlarged for an object of `sz` bytes. -/
def enlarge (env : GetEnv) (sz : Nat) : Io Unit :=
  Io.withT fun t =>
    if t.recvbufSz ≤ sz then
      match env.memAllocData (recvbufSize env.pagesz sz) with
      | .error e => Io.throw (-(e : Int))
      | .ok _ => Io.modifyT fun t => { t with recvbufSz := recvbufSize env.pagesz sz }
    else pure ()

def translatorGetObject (env : GetEnv) : Io (List Byte) := do
  let sz ← translatorHdrRecv .sObject
  if sz < 0 then Io.throw sz
  else
    enlarge env sz.toNat
    let (ret, obj) ← readFull sz.toNat
    if ret ≠ sz then Io.throw ret else return obj

/-- Send zero bytes as padding; `ret` is what the write of the page has returned. -/
def padding (ret : Int) : Nat → Io Unit
  | 0 => pure ()
  | n + 1 => do
      let r ← writeFull [0#8]
      if r ≠ 1 then Io.throw ret else padding ret n

/-- The last byte of `C_MEMBUF`. -/
def writeFailed (failed : Byte) : Io Unit := do
  let ret ← writeFull [failed]
  if ret ≠ 1 then Io.throw ret else pure ()

/-- The content of `C_MEMBUF`. -/
def writePage (env : GetEnv) (start : Word) (bufSz : Nat) : Io Unit := do
  let ret ← writeGuest bufSz (env.page start)
  if ret ≠ bufSz then
    -- gracefully handle reads from invalid addresses
    if ret = -(efault : Int) then
      padding ret bufSz
      writeFailed 1#8
    else Io.throw ret
  else writeFailed 0#8

def countWritten (bufSz : Nat) : Io Unit := fun s =>
  some (.ok (), { s with writtenBytes := s.writtenBytes + bufSz })

/-- A memory request of `translator_get`. -/
def handleMemreq (env : GetEnv) : Io Unit := do
  let (ret, memrq) ← readFull 16
  if ret ≠ 16 then Io.throw ret
  else
    let bufSz := min (unle (memrq.drop 8)) 0x1000
    let ret ← translatorHdrSend .cMembuf (bufSz + 1)
    if ret < 0 then Io.throw ret
    else
      writePage env (BitVec.ofNat 64 (unle (memrq.take 8))) bufSz
      countWritten bufSz

/-- The loop of `translator_get`, for at most `fuel` rounds. -/
def translatorGetLoop (env : GetEnv) : Nat → Io (List Byte)
  | 0 => fun _ => none
  | fuel + 1 => do
      let sz ← translatorHdrRecv .sMemreq
      if sz = -eproto then translatorGetObject env
      else if sz < 0 then Io.throw sz
      else if sz ≠ 16 then Io.throw (-1)
      else
        handleMemreq env
        translatorGetLoop env fuel

def translatorGet (env : GetEnv) (fuel : Nat) (addr : Word) : Io (List Byte) := do
  let ret ← translatorHdrSend .cTranslate 8
  if ret ≠ 0 then Io.throw ret
  else
    let ret ← writeFull (le 8 addr.toNat)
    if ret ≠ 8 then Io.throw ret else translatorGetLoop env fuel

/-! ## Two runs -/

/-- The connections differ in what the kernel does at most. -/
structure Same (s s' : Conn) : Prop where
  t : s.t = s'.t
  writtenBytes : s.writtenBytes = s'.writtenBytes
  input : s.input = s'.input
  pos : s.pos = s'.pos
  output : s.output = s'.output

/-- The results are counts or interruptions. -/
def Interruptible (script : Nat → Res) : Prop :=
  ∀ j, (script j).Positive ∨ script j = .error eintr

def Uninterrupted (script : Nat → Res) : Prop := ∀ j, (script j).Positive

/-- A call on the way from one state to another was interrupted. -/
def Interrupted (s s₁ : Conn) : Prop :=
  ∃ j, s.next ≤ j ∧ j < s₁.next ∧ s.script j = .error eintr

structure Advances (s s₁ : Conn) : Prop where
  script : s₁.script = s.script
  next : s.next ≤ s₁.next

theorem Advances.refl (s : Conn) : Advances s s := ⟨rfl, le_rfl⟩

theorem Advances.trans {s s₁ s₂ : Conn} (h : Advances s s₁) (h' : Advances s₁ s₂) : Advances s s₂ :=
  ⟨h'.script.trans h.script, h.next.trans h'.next⟩

theorem interrupted_trans_iff {s s₁ s₂ : Conn} (h : Advances s s₁) (h' : Advances s₁ s₂) :
    Interrupted s s₂ ↔ Interrupted s s₁ ∨ Interrupted s₁ s₂ := by
  simp only [Interrupted, h.script]
  constructor
  · rintro ⟨j, hlo, hhi, hj⟩
    rcases Nat.lt_or_ge j s₁.next with hlt | hge
    · exact .inl ⟨j, hlo, hlt, hj⟩
    · exact .inr ⟨j, hge, hhi, hj⟩
  · rintro (⟨j, hlo, hhi, hj⟩ | ⟨j, hlo, hhi, hj⟩)
    · exact ⟨j, hlo, hhi.trans_le h'.next, hj⟩
    · exact ⟨j, h.next.trans hlo, hhi, hj⟩

theorem not_interrupted_self (s : Conn) : ¬ Interrupted s s := fun ⟨_, hlo, hhi, _⟩ =>
  absurd hhi (Nat.not_lt.mpr hlo)

/-- A negative code, or a value that the caller takes for one. -/
def Fails (bad : α → Prop) : Except Int α → Prop
  | .error e => e < 0
  | .ok a => bad a

/-- **What a function does under interruptions**, compared with a run that is not
interrupted: the same, or it is interrupted and fails. -/
def Guarded (bad : α → Prop) (m : Io α) : Prop :=
  ∀ s s', Same s s' → Interruptible s.script → Uninterrupted s'.script → ∀ r s₁',
    m s' = some (r, s₁') → Advances s' s₁' ∧ ∃ r₁ s₁, m s = some (r₁, s₁) ∧ Advances s s₁ ∧
      (¬ Interrupted s s₁ ∧ r₁ = r ∧ Same s₁ s₁' ∨ Interrupted s s₁ ∧ Fails bad r₁)

namespace Guarded

variable {bad : α → Prop} {bad' : β → Prop} {m : Io α} {f : α → Io β}

theorem pure (a : α) : Guarded bad (pure a : Io α) := by
  rintro s s' hsame - - r s₁' hrun
  cases hrun
  exact ⟨.refl s', _, s, rfl, .refl s, .inl ⟨not_interrupted_self s, rfl, hsame⟩⟩

theorem throw (e : Int) : Guarded bad (Io.throw e : Io α) := by
  rintro s s' hsame - - r s₁' hrun
  cases hrun
  exact ⟨.refl s', _, s, rfl, .refl s, .inl ⟨not_interrupted_self s, rfl, hsame⟩⟩

theorem withT {m : Translator → Io α} (h : ∀ t, Guarded bad (m t)) : Guarded bad (Io.withT m) := by
  intro s s' hsame hs hs' r s₁' hrun
  rw [Io.withT, ← hsame.t] at hrun
  exact h s.t s s' hsame hs hs' r s₁' hrun

theorem modifyT (g : Translator → Translator) {bad : Unit → Prop} : Guarded bad (Io.modifyT g) := by
  rintro s s' hsame - - r s₁' hrun
  cases hrun
  refine ⟨⟨rfl, le_rfl⟩, _, _, rfl, ⟨rfl, le_rfl⟩, .inl ⟨not_interrupted_self _, rfl, ?_⟩⟩
  exact ⟨congrArg g hsame.t, hsame.writtenBytes, hsame.input, hsame.pos, hsame.output⟩

/-- A value that stands for a failure makes the rest fail. -/
theorem bind (hm : Guarded bad m) (hf : ∀ a, Guarded bad' (f a))
    (hbad : ∀ a, bad a → ∀ s, ∃ r s₁, f a s = some (r, s₁) ∧ Advances s s₁ ∧ Fails bad' r) :
    Guarded bad' (m >>= f) := by
  intro s s' hsame hs hs' r s₂' hrun
  cases hm' : m s' with
  | none => cases (Io.bind_none hm').symm.trans hrun
  | some p =>
      obtain ⟨r', s₁'⟩ := p
      obtain ⟨hadv', r₁, s₁, hms, hadv, ⟨hno, rfl, hsame₁⟩ | ⟨hint, hfails⟩⟩ :=
        hm s s' hsame hs hs' r' s₁' hm'
      · -- the same so far
        cases r₁ with
        | error e =>
            cases (Io.bind_error hm').symm.trans hrun
            exact ⟨hadv', _, s₁, Io.bind_error hms, hadv, .inl ⟨hno, rfl, hsame₁⟩⟩
        | ok a =>
            rw [Io.bind_ok hm'] at hrun
            obtain ⟨hadv₂', r₂, s₂, hfs, hadv₂, hcases⟩ := hf a s₁ s₁' hsame₁
              (hadv.script ▸ hs) (hadv'.script ▸ hs') r s₂' hrun
            refine ⟨hadv'.trans hadv₂', r₂, s₂, (Io.bind_ok hms).trans hfs, hadv.trans hadv₂, ?_⟩
            rw [interrupted_trans_iff hadv hadv₂]
            exact hcases.imp (fun h => ⟨fun hor => hor.elim hno h.1, h.2⟩)
              fun h => ⟨.inr h.1, h.2⟩
      · -- interrupted: the caller fails with the code, or takes the value for a failure
        have hadv₂' : Advances s' s₂' := by
          cases r' with
          | error e =>
              cases (Io.bind_error hm').symm.trans hrun
              exact hadv'
          | ok a =>
              rw [Io.bind_ok hm'] at hrun
              have hself := hf a s₁' s₁' ⟨rfl, rfl, rfl, rfl, rfl⟩ (fun j => .inl (hadv'.script ▸ hs' j))
                (hadv'.script ▸ hs') r s₂' hrun
              exact hadv'.trans hself.1
        cases r₁ with
        | error e => exact ⟨hadv₂', _, s₁, Io.bind_error hms, hadv, .inr ⟨hint, hfails⟩⟩
        | ok a =>
            obtain ⟨r₂, s₂, hfs, hadv₂, hfails₂⟩ := hbad a hfails s₁
            refine ⟨hadv₂', r₂, s₂, (Io.bind_ok hms).trans hfs, hadv.trans hadv₂, .inr ⟨?_, hfails₂⟩⟩
            exact (interrupted_trans_iff hadv hadv₂).mpr (.inl hint)

/-- A piece that returns no failure as a value. -/
theorem bind_of_false (hm : Guarded (fun _ => False) m) (hf : ∀ a, Guarded bad' (f a)) :
    Guarded bad' (m >>= f) :=
  hm.bind hf fun _ h => h.elim

end Guarded

/-- A code that the caller returns. -/
theorem throw_fails {bad : α → Prop} {e : Int} (he : e < 0) (s : Conn) :
    ∃ r s₁, (Io.throw e : Io α) s = some (r, s₁) ∧ Advances s s₁ ∧ Fails bad r :=
  ⟨.error e, s, rfl, .refl s, he⟩

/-! ## The functions under interruptions -/

section Functions

/-- What a loop of the kernel's calls has done. -/
theorem transferAll_guarded {script : Nat → Res} (hs : Interruptible script) (n i : Nat) :
    (transferAll (fun _ => script) eio n 0 i).moved = n ∧
        (∀ j, i ≤ j → j < (transferAll (fun _ => script) eio n 0 i).next →
          script j ≠ .error eintr) ∨
      (transferAll (fun _ => script) eio n 0 i).ret = -(eintr : Int) ∧
        ∃ j, i ≤ j ∧ j < (transferAll (fun _ => script) eio n 0 i).next ∧
          script j = .error eintr := by
  cases transferAll_ended (fun _ => script) eio i (Nat.zero_le n) with
  | complete _ hmoved =>
      refine .inl ⟨hmoved, fun j hij hj heq => ?_⟩
      rcases transferAll_used script j hij hj with ⟨k, hk⟩ | hlt
      · cases hk.symm.trans heq
      · exact hlt.ne hmoved
  | @failed j e hlt hnext hres hret =>
      rcases hs j with ⟨k, hk⟩ | heintr
      · cases hk.symm.trans hres
      · have hi : i < (transferAll (fun _ => script) eio n 0 i).next :=
          lt_transferAll_next (Nat.lt_of_le_of_lt (Nat.zero_le _) hlt)
        cases heintr.symm.trans hres
        exact .inr ⟨hret, j, by omega, by omega, heintr⟩
  | @stuck j hlt hnext hres hret =>
      rcases hs j with ⟨k, hk⟩ | heintr
      · cases hk.symm.trans hres
      · cases heintr.symm.trans hres

theorem transferAll_moved_of_uninterrupted {script : Nat → Res} (hs : Uninterrupted script) (n i : Nat) :
    (transferAll (fun _ => script) eio n 0 i).moved = n := by
  rcases transferAll_guarded (fun j => .inl (hs j)) n i with h | ⟨-, j, -, -, heintr⟩
  · exact h.1
  · obtain ⟨k, hk⟩ := hs j
    cases hk.symm.trans heintr

/-- One of the two loops: its effect depends on the number of bytes moved only. -/
theorem guarded_transfer {bad : α → Prop} (n : Nat) (val : Outcome → Conn → α)
    (eff : Outcome → Conn → Conn)
    (heff : ∀ r s, (eff r s).script = s.script ∧ (eff r s).next = r.next)
    (hsame : ∀ r r' s s', r.moved = r'.moved → r.ret = r'.ret → Same s s' →
      val r s = val r' s' ∧ Same (eff r s) (eff r' s'))
    (hbad : ∀ r s, r.ret = -(eintr : Int) → bad (val r s)) :
    Guarded bad fun s => some (.ok (val (transferAll (fun _ => s.script) eio n 0 s.next) s),
      eff (transferAll (fun _ => s.script) eio n 0 s.next) s) := by
  intro s s' hss hs hs' r s₁' hrun
  cases hrun
  have hnext : ∀ s : Conn, Advances s (eff (transferAll (fun _ => s.script) eio n 0 s.next) s) := by
    intro s
    refine ⟨(heff _ s).1, ?_⟩
    rw [(heff _ s).2]
    exact le_transferAll_next
  refine ⟨hnext s', _, _, rfl, hnext s, ?_⟩
  have hmoved' := transferAll_moved_of_uninterrupted hs' n s'.next
  have hret : ∀ s : Conn, (transferAll (fun _ => s.script) eio n 0 s.next).moved = n →
      (transferAll (fun _ => s.script) eio n 0 s.next).ret = n :=
    fun s => (transferAll_ret_eq_iff (Nat.zero_le n)).mpr
  rw [Interrupted, (heff _ s).2]
  rcases transferAll_guarded hs n s.next with ⟨hmoved, hno⟩ | ⟨hneg, hint⟩
  · have h := hsame _ _ s s' (hmoved.trans hmoved'.symm)
      ((hret s hmoved).trans (hret s' hmoved').symm) hss
    exact .inl ⟨fun ⟨j, hlo, hhi, hj⟩ => hno j hlo hhi hj, by rw [h.1], h.2⟩
  · exact .inr ⟨hint, hbad _ s hneg⟩

theorem readFull_guarded (n : Nat) : Guarded (fun r => r.1 = -(eintr : Int)) (readFull n) := by
  refine guarded_transfer n
    (fun r s => (r.ret, (List.range r.moved).map fun j => s.input (s.pos + j)))
    (fun r s => { s with pos := s.pos + r.moved, next := r.next }) (fun _ _ => ⟨rfl, rfl⟩) ?_
    fun _ _ h => h
  intro r r' s s' hmoved hret hss
  refine ⟨by simp only [hmoved, hret, hss.input, hss.pos], hss.t, hss.writtenBytes, hss.input, ?_,
    hss.output⟩
  simp only [hmoved, hss.pos]

theorem writeFull_guarded (buf : List Byte) : Guarded (· = -(eintr : Int)) (writeFull buf) := by
  refine guarded_transfer buf.length (fun r _ => r.ret)
    (fun r s => { s with output := s.output ++ buf.take r.moved, next := r.next })
    (fun _ _ => ⟨rfl, rfl⟩) ?_ fun _ _ h => h
  intro r r' s s' hmoved hret hss
  refine ⟨hret, hss.t, hss.writtenBytes, hss.input, hss.pos, ?_⟩
  simp only [hmoved, hss.output]

theorem writeGuest_guarded (bufSz : Nat) (page : Option (Nat → Byte)) :
    Guarded (· = -(eintr : Int)) (writeGuest bufSz page) := by
  cases page with
  | some mem => exact writeFull_guarded _
  | none =>
      intro s s' hss hs hs' r s₁' hrun
      cases hrun
      rcases Nat.eq_zero_or_pos bufSz with rfl | hpos
      · -- nothing is written
        refine ⟨⟨rfl, le_transferAll_next⟩, _, _, rfl, ⟨rfl, le_transferAll_next⟩, .inl ⟨?_, ?_, ?_⟩⟩
        · rw [transferAll_nothing]
          exact not_interrupted_self s
        · rw [transferAll_nothing, transferAll_nothing]
        · exact ⟨hss.t, hss.writtenBytes, hss.input, hss.pos, hss.output⟩
      · -- the first call fails
        obtain ⟨k', hk'⟩ := hs' s'.next
        rw [transferAll_first_error hpos (by rw [hk']; rfl : faulting (s'.script s'.next) = .error efault)]
        refine ⟨⟨rfl, Nat.le_succ _⟩, _, _, rfl, ⟨rfl, le_transferAll_next⟩, ?_⟩
        rcases hs s.next with ⟨k, hk⟩ | heintr
        · rw [transferAll_first_error hpos (by rw [hk]; rfl : faulting (s.script s.next) = .error efault)]
          refine .inl ⟨?_, rfl, hss.t, hss.writtenBytes, hss.input, hss.pos, hss.output⟩
          rintro ⟨j, hlo, hhi, hj⟩
          have hj' : j = s.next := by
            have : j < s.next + 1 := hhi
            omega
          rw [hj', hk] at hj
          cases hj
        · rw [transferAll_first_error hpos (by rw [heintr]; rfl : faulting (s.script s.next) = .error eintr)]
          exact .inr ⟨⟨s.next, le_rfl, Nat.lt_succ_self _, heintr⟩, rfl⟩

/-- A code that is passed on. -/
theorem pure_fails (bad : α → Prop) {a : α} (ha : bad a) (s : Conn) :
    ∃ r s₁, (pure a : Io α) s = some (r, s₁) ∧ Advances s s₁ ∧ Fails bad r :=
  ⟨.ok a, s, rfl, .refl s, ha⟩

theorem translatorHdrSend_guarded (id : MsgId) (sz : Nat) :
    Guarded (· = -(eintr : Int)) (translatorHdrSend id sz) := by
  refine .withT fun t => ?_
  split_ifs with hhdr
  · exact .pure _
  · refine (writeFull_guarded _).bind (fun ret => ?_) ?_
    · split_ifs <;> exact .pure _
    · rintro ret rfl s
      rw [if_pos (by decide)]
      exact pure_fails (fun x => x = -(eintr : Int)) rfl s

theorem recvLastHdr_guarded : Guarded (· = -(eintr : Int)) recvLastHdr := by
  refine (readFull_guarded 8).bind (fun r => ?_) ?_
  · obtain ⟨ret, bytes⟩ := r
    exact (Guarded.modifyT _).bind_of_false fun _ => .pure _
  · rintro ⟨ret, bytes⟩ rfl s
    exact ⟨_, _, rfl, ⟨rfl, le_rfl⟩, rfl⟩

theorem checkLastHdr_guarded {bad : Int → Prop} (id : MsgId) : Guarded bad (checkLastHdr id) :=
  .withT fun _ => (Guarded.modifyT _).bind_of_false fun _ => .pure _

theorem translatorHdrRecv_guarded (id : MsgId) :
    Guarded (· = -(eintr : Int)) (translatorHdrRecv id) := by
  refine .withT fun t => ?_
  split_ifs with hhdr
  · refine recvLastHdr_guarded.bind (fun ret => ?_) ?_
    · split_ifs
      · exact .pure _
      · exact checkLastHdr_guarded id
    · rintro ret rfl s
      rw [if_pos (by decide)]
      exact pure_fails (fun x => x = -(eintr : Int)) rfl s
  · exact checkLastHdr_guarded id

theorem enlarge_guarded (env : GetEnv) (sz : Nat) : Guarded (fun _ => False) (enlarge env sz) := by
  refine .withT fun t => ?_
  split_ifs
  · cases env.memAllocData (recvbufSize env.pagesz sz) with
    | error e => exact .throw _
    | ok _ => exact .modifyT _
  · exact .pure _

theorem translatorGetObject_guarded (env : GetEnv) :
    Guarded (fun _ => False) (translatorGetObject env) := by
  refine (translatorHdrRecv_guarded .sObject).bind (fun sz => ?_) ?_
  · split_ifs with hsz
    · exact .throw _
    · refine (enlarge_guarded env _).bind_of_false fun _ => (readFull_guarded _).bind (fun r => ?_) ?_
      · obtain ⟨ret, obj⟩ := r
        dsimp only
        split_ifs
        · exact .throw _
        · exact .pure _
      · rintro ⟨ret, obj⟩ rfl s
        dsimp only
        rw [if_pos (show -(eintr : Int) ≠ sz by rw [eintr]; omega)]
        exact throw_fails (by decide) s
  · rintro sz rfl s
    rw [if_pos (by decide)]
    exact throw_fails (by decide) s

theorem padding_guarded {ret : Int} (hret : ret < 0) :
    ∀ n, Guarded (fun _ => False) (padding ret n)
  | 0 => .pure _
  | n + 1 => by
      refine (writeFull_guarded _).bind (fun r => ?_) ?_
      · split_ifs
        · exact .throw _
        · exact padding_guarded hret n
      · rintro r rfl s
        rw [if_pos (by decide)]
        exact throw_fails hret s

theorem writeFailed_guarded (failed : Byte) : Guarded (fun _ => False) (writeFailed failed) := by
  refine (writeFull_guarded _).bind (fun r => ?_) ?_
  · split_ifs
    · exact .throw _
    · exact .pure _
  · rintro r rfl s
    rw [if_pos (by decide)]
    exact throw_fails (by decide) s

theorem writePage_guarded (env : GetEnv) (start : Word) (bufSz : Nat) :
    Guarded (fun _ => False) (writePage env start bufSz) := by
  refine (writeGuest_guarded bufSz _).bind (fun ret => ?_) ?_
  · split_ifs with hne hfault
    · exact (padding_guarded (by rw [hfault]; decide) bufSz).bind_of_false fun _ =>
        writeFailed_guarded 1#8
    · exact .throw _
    · exact writeFailed_guarded 0#8
  · rintro ret rfl s
    rw [if_pos (by rw [eintr]; omega), if_neg (by decide)]
    exact throw_fails (by decide) s

theorem countWritten_guarded (bufSz : Nat) : Guarded (fun _ => False) (countWritten bufSz) := by
  rintro s s' hss - - r s₁' hrun
  cases hrun
  refine ⟨⟨rfl, le_rfl⟩, _, _, rfl, ⟨rfl, le_rfl⟩, .inl ⟨not_interrupted_self _, rfl, ?_⟩⟩
  exact ⟨hss.t, congrArg (· + bufSz) hss.writtenBytes, hss.input, hss.pos, hss.output⟩

theorem handleMemreq_guarded (env : GetEnv) : Guarded (fun _ => False) (handleMemreq env) := by
  refine (readFull_guarded 16).bind (fun r => ?_) ?_
  · obtain ⟨ret, memrq⟩ := r
    dsimp only
    split_ifs
    · exact .throw _
    · refine (translatorHdrSend_guarded .cMembuf _).bind (fun ret => ?_) ?_
      · split_ifs
        · exact .throw _
        · exact (writePage_guarded env _ _).bind_of_false fun _ => countWritten_guarded _
      · rintro ret rfl s
        rw [if_pos (by decide)]
        exact throw_fails (by decide) s
  · rintro ⟨ret, memrq⟩ rfl s
    dsimp only
    rw [if_pos (by decide)]
    exact throw_fails (by decide) s

theorem translatorGetLoop_guarded (env : GetEnv) :
    ∀ fuel, Guarded (fun _ => False) (translatorGetLoop env fuel)
  | 0 => fun _ _ _ _ _ _ _ hrun => nomatch hrun
  | fuel + 1 => by
      refine (translatorHdrRecv_guarded .sMemreq).bind (fun sz => ?_) ?_
      · split_ifs
        · exact translatorGetObject_guarded env
        · exact .throw _
        · exact .throw _
        · exact (handleMemreq_guarded env).bind_of_false fun _ => translatorGetLoop_guarded env fuel
      · rintro sz rfl s
        rw [if_neg (by decide), if_pos (by decide)]
        exact throw_fails (by decide) s

theorem translatorGet_guarded (env : GetEnv) (fuel : Nat) (addr : Word) :
    Guarded (fun _ => False) (translatorGet env fuel addr) := by
  refine (translatorHdrSend_guarded .cTranslate 8).bind (fun ret => ?_) ?_
  · split_ifs
    · exact .throw _
    · refine (writeFull_guarded _).bind (fun ret => ?_) ?_
      · split_ifs
        · exact .throw _
        · exact translatorGetLoop_guarded env fuel
      · rintro ret rfl s
        rw [if_pos (by decide)]
        exact throw_fails (by decide) s
  · rintro ret rfl s
    rw [if_pos (by decide)]
    exact throw_fails (by decide) s

end Functions

/-! ## Surviving a signal -/

/-- The connection with a kernel that moves everything at once. -/
def Conn.quiet (s : Conn) : Conn := { s with script := fun _ => .count (2 ^ 31) }

/-- A call made by a piece was interrupted. -/
def WasInterrupted (m : Io α) (s : Conn) : Prop := ∃ r s₁, m s = some (r, s₁) ∧ Interrupted s s₁

/-- What a piece returns. -/
def Io.result (m : Io α) (s : Conn) : Option (Except Int α) := (m s).map Prod.fst

/-- `read_full` returns `nbytes` with the next bytes of the stream, each of them taken once. -/
def FullyRead (s : Conn) (nbytes : Nat) : Prop :=
  ∃ next, readFull nbytes s = some (.ok (nbytes, (List.range nbytes).map fun j => s.input (s.pos + j)),
    { s with pos := s.pos + nbytes, next := next })

/-- `write_full` returns the number of bytes, which follow what was written before. -/
def FullyWritten (s : Conn) (buf : List Byte) : Prop :=
  ∃ next, writeFull buf s = some (.ok (buf.length : Int),
    { s with output := s.output ++ buf, next := next })

/-- What `resolve_func` meets when `translator_get` uses the connection. It does not look at
the code of a failed request. -/
def Conn.callEnv (s : Conn) (load : LoadEnv) (printTrace : Bool) (env : GetEnv) (recvbuf : Word)
    (fuel : Nat) : CallEnv where
  load := load
  printTrace := printTrace
  translatorGet addr := match (translatorGet env fuel addr).result s with
    | some (.ok obj) => .ok (obj, recvbuf)
    | some (.error _) | none => .error .EPROTO

section CallEnv

variable {s : Conn} {load : LoadEnv} {printTrace : Bool} {env : GetEnv} {recvbuf addr : Word}
  {fuel : Nat}

theorem callEnv_translatorGet_ok {obj : List Byte}
    (h : (translatorGet env fuel addr).result s = some (.ok obj)) :
    (s.callEnv load printTrace env recvbuf fuel).translatorGet addr = .ok (obj, recvbuf) := by
  simp only [Conn.callEnv, h]

theorem callEnv_translatorGet_error
    (h : ∀ obj, (translatorGet env fuel addr).result s ≠ some (.ok obj)) :
    (s.callEnv load printTrace env recvbuf fuel).translatorGet addr = .error .EPROTO := by
  simp only [Conn.callEnv]
  split
  · exact absurd ‹_› (h _)
  · rfl
  · rfl

end CallEnv

theorem fullyRead_iff (s : Conn) (nbytes : Nat) :
    FullyRead s nbytes ↔ Delivers s.script s.next nbytes := by
  have hcomplete : _ ↔ Delivers s.script s.next nbytes :=
    transferAll_complete_iff s.script eio (Nat.zero_le nbytes)
  rw [← hcomplete]
  constructor
  · rintro ⟨next, hrun⟩
    simp only [readFull, Option.some.injEq, Prod.mk.injEq, Except.ok.injEq] at hrun
    exact (transferAll_ret_eq_iff (Nat.zero_le _)).mp hrun.1.1
  · intro hmoved
    refine ⟨(transferAll (fun _ => s.script) eio nbytes 0 s.next).next, ?_⟩
    rw [readFull, (transferAll_ret_eq_iff (Nat.zero_le _)).mpr hmoved, hmoved]

theorem fullyWritten_iff (s : Conn) (buf : List Byte) :
    FullyWritten s buf ↔ Delivers s.script s.next buf.length := by
  have hcomplete : _ ↔ Delivers s.script s.next buf.length :=
    transferAll_complete_iff s.script eio (Nat.zero_le buf.length)
  rw [← hcomplete]
  constructor
  · rintro ⟨next, hrun⟩
    simp only [writeFull, Option.some.injEq, Prod.mk.injEq, Except.ok.injEq] at hrun
    exact (transferAll_ret_eq_iff (Nat.zero_le _)).mp hrun.1
  · intro hmoved
    refine ⟨(transferAll (fun _ => s.script) eio buf.length 0 s.next).next, ?_⟩
    rw [writeFull, (transferAll_ret_eq_iff (Nat.zero_le _)).mpr hmoved, hmoved, List.take_length]

/-- A piece under interruptions, compared with the quiet connection. -/
theorem Guarded.result_eq {m : Io α} (hm : Guarded (fun _ => False) m) {s : Conn}
    (hs : Interruptible s.script) {r : Except Int α} (hquiet : m.result s.quiet = some r) :
    ¬ WasInterrupted m s ∧ m.result s = some r ∨
      WasInterrupted m s ∧ ∃ e : Int, e < 0 ∧ m.result s = some (.error e) := by
  obtain ⟨⟨r', s₁'⟩, hrun, hr⟩ := Option.map_eq_some_iff.mp hquiet
  cases hr
  obtain ⟨-, r₁, s₁, hms, -, hcases⟩ :=
    hm s s.quiet ⟨rfl, rfl, rfl, rfl, rfl⟩ hs (fun _ => ⟨_, rfl⟩) r' s₁' hrun
  have hresult : m.result s = some r₁ := by rw [Io.result, hms]; rfl
  rw [hresult]
  rcases hcases with ⟨hno, rfl, -⟩ | ⟨hint, hfails⟩
  · refine .inl ⟨?_, rfl⟩
    rintro ⟨r₂, s₂, hms₂, hint⟩
    cases hms.symm.trans hms₂
    exact hno hint
  · refine .inr ⟨⟨r₁, s₁, hms, hint⟩, ?_⟩
    cases r₁ with
    | error e => exact ⟨e, hfails, rfl⟩
    | ok a => exact hfails.elim

/-- An address that is not known is resolved by a translation. -/
theorem resolveFunc_of_unknown {env : CallEnv} {cpu : CpuState} {addr : Word}
    {patchData : Option RtldPatchData} {e e' : Errno}
    (hunknown : rtldResolve cpu.objects (patchData.elim addr (·.symAddr)) = .error e)
    (hget : env.translatorGet (patchData.elim addr (·.symAddr)) = .error e') :
    resolveFunc env cpu addr patchData = none := by
  have herror : resolveAddr env cpu.objects (patchData.elim addr (·.symAddr)) = .error e' := by
    rw [resolveAddr, hunknown, hget]
    rfl
  cases patchData with
  | none => simp only [resolveFunc, show resolveAddr env cpu.objects addr = _ from herror]
  | some p => simp only [resolveFunc, show resolveAddr env cpu.objects p.symAddr = _ from herror]

/-- The resolution depends on the translation of its own address only. -/
theorem resolveFunc_congr (env env' : CallEnv) (hload : env.load = env'.load)
    (htrace : env.printTrace = env'.printTrace) {cpu : CpuState} {addr : Word}
    {patchData : Option RtldPatchData}
    (hget : (∃ func, rtldResolve cpu.objects (patchData.elim addr (·.symAddr)) = .ok func) ∨
      env.translatorGet (patchData.elim addr (·.symAddr)) =
        env'.translatorGet (patchData.elim addr (·.symAddr))) :
    resolveFunc env cpu addr patchData = resolveFunc env' cpu addr patchData := by
  have hresolve : resolveAddr env cpu.objects (patchData.elim addr (·.symAddr)) =
      resolveAddr env' cpu.objects (patchData.elim addr (·.symAddr)) := by
    rcases hget with ⟨func, hfound⟩ | hget
    · rw [resolveAddr, resolveAddr, hfound]
    · rw [resolveAddr, resolveAddr, hload, hget]
  cases patchData with
  | none => simp only [resolveFunc, show resolveAddr env cpu.objects addr = _ from hresolve, htrace,
      Option.elim_none]
  | some p => simp only [resolveFunc, show resolveAddr env cpu.objects p.symAddr = _ from hresolve,
      htrace, Option.elim_some]

section Survive

variable {s : Conn} {env : GetEnv} {fuel : Nat}

/-- A translation that succeeds on the quiet connection gives the object or an error. -/
theorem translatorGet_result_eq (hs : Interruptible s.script) {addr : Word} {obj : List Byte}
    (hquiet : (translatorGet env fuel addr).result s.quiet = some (.ok obj)) :
    ¬ WasInterrupted (translatorGet env fuel addr) s ∧
        (translatorGet env fuel addr).result s = some (.ok obj) ∨
      WasInterrupted (translatorGet env fuel addr) s ∧
        ∀ obj', (translatorGet env fuel addr).result s ≠ some (.ok obj') := by
  rcases (translatorGet_guarded env fuel addr).result_eq hs hquiet with h | ⟨hint, e, -, hres⟩
  · exact .inl h
  · refine .inr ⟨hint, ?_⟩
    intro obj' h
    cases hres.symm.trans h

theorem resolveFunc_survives_iff (hs : Interruptible s.script) {load : LoadEnv} {printTrace : Bool}
    {recvbuf addr : Word} {cpu : CpuState} {patchData : Option RtldPatchData} {r : Word × CpuState}
    (hquiet : resolveFunc (s.quiet.callEnv load printTrace env recvbuf fuel) cpu addr patchData =
      some r) :
    resolveFunc (s.callEnv load printTrace env recvbuf fuel) cpu addr patchData = some r ↔
      (∃ func, rtldResolve cpu.objects (patchData.elim addr (·.symAddr)) = .ok func) ∨
        ¬ WasInterrupted (translatorGet env fuel (patchData.elim addr (·.symAddr))) s := by
  have hcongr := @resolveFunc_congr (s.callEnv load printTrace env recvbuf fuel)
    (s.quiet.callEnv load printTrace env recvbuf fuel) rfl rfl cpu addr patchData
  rw [← hquiet]
  cases hfound : rtldResolve cpu.objects (patchData.elim addr (·.symAddr)) with
  | ok func =>
      -- known: the translator is not asked
      exact iff_of_true (hcongr (.inl ⟨func, hfound⟩)) (.inl ⟨func, rfl⟩)
  | error e =>
      simp only [reduceCtorEq, exists_const, false_or]
      -- the quiet connection has got an object
      obtain ⟨obj, hobj⟩ : ∃ obj, (translatorGet env fuel (patchData.elim addr (·.symAddr))).result
          s.quiet = some (.ok obj) := by
        by_contra hnone
        rw [resolveFunc_of_unknown hfound (callEnv_translatorGet_error fun obj h => hnone ⟨obj, h⟩)]
          at hquiet
        cases hquiet
      rcases translatorGet_result_eq hs hobj with ⟨hno, hres⟩ | ⟨hint, hfail⟩
      · refine iff_of_true (hcongr (.inr ?_)) hno
        exact (callEnv_translatorGet_ok hres).trans (callEnv_translatorGet_ok hobj).symm
      · refine iff_of_false ?_ (not_not_intro hint)
        rw [resolveFunc_of_unknown hfound (callEnv_translatorGet_error hfail), hquiet]
        exact fun h => nomatch h

end Survive

/-- **What a signal does to a transfer.** `read_full` and `write_full` succeed exactly if
positive counts come until everything is moved. A translation that succeeds on the quiet
connection, and the resolution of an address that needs one, succeed exactly if none of their
calls is interrupted. -/
theorem transfers_survive_iff (s : Conn) (hs : Interruptible s.script) :
    (∀ nbytes, FullyRead s nbytes ↔ Delivers s.script s.next nbytes) ∧
      (∀ buf, FullyWritten s buf ↔ Delivers s.script s.next buf.length) ∧
      ∀ env fuel, (∀ addr obj, (translatorGet env fuel addr).result s.quiet = some (.ok obj) →
          ((translatorGet env fuel addr).result s = some (.ok obj) ↔
            ¬ WasInterrupted (translatorGet env fuel addr) s)) ∧
        ∀ load printTrace recvbuf cpu addr patchData r,
          resolveFunc (s.quiet.callEnv load printTrace env recvbuf fuel) cpu addr patchData = some r →
          (resolveFunc (s.callEnv load printTrace env recvbuf fuel) cpu addr patchData = some r ↔
            (∃ func, rtldResolve cpu.objects (patchData.elim addr (·.symAddr)) = .ok func) ∨
              ¬ WasInterrupted (translatorGet env fuel (patchData.elim addr (·.symAddr))) s) := by
  refine ⟨fullyRead_iff s, fullyWritten_iff s, fun env fuel => ⟨?_, ?_⟩⟩
  · intro addr obj hquiet
    rcases translatorGet_result_eq hs hquiet with ⟨hno, hres⟩ | ⟨hint, hfail⟩
    · exact iff_of_true hres hno
    · exact iff_of_false (hfail obj) (not_not_intro hint)
  · intro load printTrace recvbuf cpu addr patchData r hquiet
    exact resolveFunc_survives_iff hs hquiet

/-- The server has an empty object ready; a signal arrives with the first call. -/
def signalled : Conn where
  t := ⟨.none, 0x1000⟩
  writtenBytes := 0
  input j := (MsgHdr.mk' .sObject 0).bytes.getD j 0#8
  pos := 0
  output := []
  script j := if j = 0 then .error eintr else .count 0x1000
  next := 0

def noMemory : GetEnv := ⟨0x1000, fun _ => none, fun n => .error n⟩

theorem interruptible_signalled : Interruptible signalled.script := by
  intro j
  rcases Nat.eq_zero_or_pos j with rfl | hpos
  · exact .inr rfl
  · exact .inl ⟨0xfff, if_neg hpos.ne'⟩

theorem signalled_translation :
    (translatorGet noMemory 1 0x400000#64).result signalled = some (.error (-eintr)) ∧
      (translatorGet noMemory 1 0x400000#64).result signalled.quiet = some (.ok []) := by
  decide +kernel

theorem signalled_translation_interrupted :
    WasInterrupted (translatorGet noMemory 1 0x400000#64) signalled := by
  have hiff := ((transfers_survive_iff signalled interruptible_signalled).2.2 noMemory 1).1
    0x400000#64 [] signalled_translation.2
  rw [signalled_translation.1] at hiff
  exact not_not.mp (mt hiff.mpr (fun h => nomatch h))

/-- The rest of the script would have moved everything. -/
theorem signal_breaks_transfer :
    Interruptible signalled.script ∧ 8 ≤ delivered signalled.script signalled.next 2 ∧
      ¬ FullyRead signalled 8 ∧ ¬ FullyWritten signalled (le 8 0x400000) ∧
      (translatorGet noMemory 1 0x400000#64).result signalled = some (.error (-eintr)) ∧
      (translatorGet noMemory 1 0x400000#64).result signalled.quiet = some (.ok []) := by
  have hfirst : ∀ n, ¬ Delivers signalled.script signalled.next (n + 1) := fun n =>
    not_delivers_of_not_positive (fun ⟨_, h⟩ => nomatch h) n.succ_pos
  refine ⟨interruptible_signalled, by decide, ?_, ?_, signalled_translation⟩
  · rw [fullyRead_iff]
    exact hfirst 7
  · rw [fullyWritten_iff]
    exact hfirst 7

end Instrew.Client.Socket
