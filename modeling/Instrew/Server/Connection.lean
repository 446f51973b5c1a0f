import Instrew.Message

/-!
# The server's side of a connection

`Conn`, `RemoteMemory` and `IWConnection` of `connection.cc` as programs over the
socket. A failed assertion is the program that fails. The environment takes part where
the functions of `IWFunctions` work and where the process is forked; there a program
stops at a `ServerPoint` and is taken up again.
-/

namespace Instrew.Server

open Instrew.Lib.Bytes
open Instrew.Lib.Dialogue

/-- The part of `IWConnection` and of its `Conn` that the dialogue depends on. -/
structure IWConnection : Type where
  /-- `recv_hdr.sz` of the `Conn`: how much of a message has not been read. -/
  recvSz : BitVec 32
  iwsc : ServerConfig
  iwcc : ClientConfig
  needIwcc : Bool

inductive ServerPoint : Type where
  /-- In `Run`, before `fns->init`. -/
  | initialising (s : IWConnection)
  /-- In `Run`, at the start of the loop. -/
  | looping (s : IWConnection)
  /-- In `fns->translate`. -/
  | translating (s : IWConnection) (addr : Word)
  /-- In `Run`, on a `C_FORK`. -/
  | forking (s : IWConnection)
  | exited (code : Nat)

/-! ## Conn -/

def recvMsg (s : IWConnection) : Prog Item (BitVec 32 × IWConnection) :=
  if s.recvSz ≠ 0#32 then .fail
  else do
    let hdr ← recvHdr
    return (hdr.id, { s with recvSz := hdr.sz })

def read (s : IWConnection) (size : Nat) : Prog Item (List Byte × IWConnection) :=
  -- `recv_hdr.sz` is cast to `size_t`: a negative size would pass
  if (s.recvSz.signExtend 64).toNat < size then .fail
  else do
    let buf ← recvPayload size
    return (buf, { s with recvSz := s.recvSz - BitVec.ofNat 32 size })

def sendMsgHdr (id : MsgId) (size : Nat) : Prog Item Unit :=
  if size ≤ 0x7fffffff then .send (MsgHdr.mk' id size).items (.ret ()) else .fail

/-- `Write` and `Sendfile`. -/
def write (l : List Byte) : Prog Item Unit := .send (payload l) (.ret ())

def sendMsg (id : MsgId) (val : List Byte) : Prog Item Unit := do
  sendMsgHdr id val.length
  write val

def sendMsgWithFd (id : MsgId) (val : List Byte) (conn : Nat) : Prog Item Unit := do
  sendMsgHdr id val.length
  .send (payloadWithFd conn val) (.ret ())

/-! ## RemoteMemory and IWConnection -/

def pgSize : Nat := 0x1000

/-- The end of `GetPage`, on a `C_MEMBUF`. -/
def readPage (s : IWConnection) : Prog Item (Option (List Byte) × IWConnection) := do
  let (page, s) ← read s pgSize
  let (failed, s) ← read s 1
  return (if failed ≠ [0#8] then none else some page, s)

/-- `GetPage` on a page that is not in the cache, and what `Translate` does next; what a
page is used for is up to the lifter. -/
def translateRead (s : IWConnection) (addr pageAddr : Word) : Prog Item ServerPoint := do
  sendMsg .sMemreq (le 8 pageAddr.toNat ++ le 8 pgSize)
  let (msgid, s) ← recvMsg s
  if msgid ≠ MsgId.cMembuf.num then
    return .translating s addr
  let (_, s) ← readPage s
  return .translating s addr

/-- An object whose size fits a header, which `SendMsgHdr` asserts. -/
abbrev Obj : Type := { l : List Byte // l.length ≤ 0x7fffffff }

def Obj.empty : Obj := ⟨[], Nat.zero_le _⟩

/-- `CacheProbe`, with what the cache has for the hash. -/
def cacheProbe (res : Option Obj) : Prog Item Bool := do
  match res with
  | none => return false
  | some obj =>
      sendMsgHdr .sObject obj.val.length
      write obj.val
      return true

def sendObject (s : IWConnection) (obj : Obj) : Prog Item IWConnection := do
  if s.needIwcc then
    sendMsg .sInit s.iwcc.bytes
  sendMsgHdr .sObject obj.val.length
  write obj.val
  return { s with needIwcc := false }

/-- How `Translate` ends after its reads of guest memory. -/
inductive Outcome : Type where
  | decodeFailed
  /-- What the cache has for the hash, and the object that is compiled if it has
  nothing, unless lifting fails. -/
  | decoded (cached compiled : Option Obj)

/-- The object that is sent. -/
def Outcome.object : Outcome → Obj
  | .decodeFailed => .empty
  | .decoded (some obj) _ => obj
  | .decoded none compiled => compiled.getD .empty

/-- The end of `Translate`. -/
def translateEnd (s : IWConnection) : Outcome → Prog Item ServerPoint
  | .decodeFailed => do
      let s ← sendObject s .empty
      return .looping s
  | .decoded cached compiled => do
      if ← cacheProbe cached then
        return .looping s
      let s ← sendObject s (compiled.getD .empty)
      return .looping s

/-! ## Run -/

def start : IWConnection := ⟨0#32, ⟨0, 0, 0, 0, 0⟩, ⟨0, 0, 0, 0, 0⟩, false⟩

/-- Store the configuration of a `C_INIT`. In mode 0, we need to respond with a client
config. -/
def readConfig (s : IWConnection) : Prog Item IWConnection := do
  let (cfg, s) ← read s configSize
  let iwsc := ServerConfig.ofBytes cfg
  return { s with iwsc := iwsc, needIwcc := iwsc.serverMode == 0#32 }

def run (s : IWConnection) : Prog Item ServerPoint := do
  let (msgid, s) ← recvMsg s
  if msgid ≠ MsgId.cInit.num then
    return .exited 1
  let s ← readConfig s
  return .initialising s

/-- `fns->init`, which sets the client config and sends an object, and what follows it
before the loop. -/
def runInitialised (s : IWConnection) (iwcc : ClientConfig) (obj : Obj) : Prog Item ServerPoint := do
  let s ← sendObject { s with iwcc := iwcc } obj
  if s.needIwcc then
    let s ← sendObject s .empty
    return .looping s
  return .looping s

/-- One round of the loop of `Run`. -/
def runLoop (s : IWConnection) : Prog Item ServerPoint := do
  let (msgid, s) ← recvMsg s
  if msgid = MsgId.cExit.num then
    return .exited 0
  else if msgid = MsgId.cTranslate.num then
    let (addr, s) ← read s 8
    return .translating s (BitVec.ofNat 64 (unle addr))
  else if msgid = MsgId.cFork.num then
    return .forking s
  else if msgid = MsgId.cInit.num then
    let s ← readConfig s
    let s ← sendObject s .empty
    return .looping s
  else
    return .exited 1

/-- The errors of `socketpair` and `fork`. -/
inductive ForkErrno : Type where
  | EAFNOSUPPORT
  | EAGAIN
  | EFAULT
  | EMFILE
  | ENFILE
  | ENOMEM
  | ENOSYS
  | EOPNOTSUPP
  | EPROTONOSUPPORT
  deriving DecidableEq

def ForkErrno.num : ForkErrno → Int
  | .EAFNOSUPPORT => 97
  | .EAGAIN => 11
  | .EFAULT => 14
  | .EMFILE => 24
  | .ENFILE => 23
  | .ENOMEM => 12
  | .ENOSYS => 38
  | .EOPNOTSUPP => 95
  | .EPROTONOSUPPORT => 93

/-- The answer to a `C_FORK` when the fork fails, and in the parent when it succeeds:
`conn` is the number of the new connection. -/
def answerFork (s : IWConnection) (res : Except ForkErrno Nat) : Prog Item ServerPoint := do
  match res with
  | .error err => sendMsg .sFd (le 4 (BitVec.ofInt 32 (-err.num)).toNat)
  | .ok conn => sendMsgWithFd .sFd (le 4 0) conn
  return .looping s

/-- The loop of `Run`. -/
def ServerPoint.next : ServerPoint → Option (Prog Item ServerPoint)
  | .looping s => some (runLoop s)
  | .initialising _ | .translating .. | .forking _ | .exited _ => none

/-! ## What the programs do -/

section Specs

variable {s : IWConnection}

theorem recvMsg_runs (hs : s.recvSz = 0#32) (id : MsgId) (sz : Nat) :
    Runs (recvMsg s) (MsgHdr.mk' id sz).items []
      (id.num, { s with recvSz := BitVec.ofNat 32 sz }) := by
  rw [recvMsg, if_neg (not_not.mpr hs)]
  exact (recvHdr_runs (.mk' id sz)).map _

theorem recvMsg_waits (hs : s.recvSz = 0#32) : (recvMsg s).Waits := by
  rw [recvMsg, if_neg (not_not.mpr hs)]
  exact recvHdr_waits.bind _

theorem read_runs (l : List Byte) (hl : l.length ≤ (s.recvSz.signExtend 64).toNat) :
    Runs (read s l.length) (payload l) []
      (l, { s with recvSz := s.recvSz - BitVec.ofNat 32 l.length }) := by
  rw [read, if_neg (not_lt.mpr hl)]
  exact (recvPayload_runs l).map _

theorem sendMsgHdr_runs (id : MsgId) {size : Nat} (hsize : size ≤ 0x7fffffff) :
    Runs (sendMsgHdr id size) [] (MsgHdr.mk' id size).items () := by
  rw [sendMsgHdr, if_pos hsize]
  exact .send _ _

theorem write_runs (l : List Byte) : Runs (write l) [] (payload l) () := .send _ _

theorem sendMsg_runs (id : MsgId) {val : List Byte} (hval : val.length ≤ 0x7fffffff) :
    Runs (sendMsg id val) [] (frame id val) () :=
  (sendMsgHdr_runs id hval).bind_write (write_runs val)

theorem sendObject_runs (hs : s.needIwcc = false) (obj : Obj) :
    Runs (sendObject s obj) [] (frame .sObject obj.val) s := by
  have hsame : { s with needIwcc := false } = s := by rw [← hs]
  rw [sendObject, if_neg (by rw [hs]; decide), hsame]
  exact (sendMsgHdr_runs .sObject obj.property).bind_write ((write_runs obj.val).map _)

/-- The first object of a connection comes after the client config. -/
theorem sendObject_runs_first (hs : s.needIwcc = true) (obj : Obj) :
    Runs (sendObject s obj) [] (frame .sInit s.iwcc.bytes ++ frame .sObject obj.val)
      { s with needIwcc := false } := by
  rw [sendObject, if_pos hs]
  refine (sendMsg_runs .sInit (by rw [s.iwcc.length_bytes]; decide)).bind_write ?_
  exact (sendMsgHdr_runs .sObject obj.property).bind_write ((write_runs obj.val).map _)

theorem readConfig_runs (hs : s.recvSz = BitVec.ofNat 32 configSize) (tsc : ServerConfig) :
    ∃ s', s'.recvSz = 0#32 ∧ s'.needIwcc = (tsc.serverMode == 0#32) ∧
      Runs (readConfig s) (payload tsc.bytes) [] s' := by
  have hread := read_runs (s := s) tsc.bytes (by rw [hs, tsc.length_bytes]; decide)
  rw [tsc.length_bytes] at hread
  refine ⟨_, ?_, ?_, hread.map _⟩
  · dsimp only
    rw [hs, BitVec.sub_self]
  · rw [tsc.serverMode_ofBytes]

theorem run_runs (hs : s.recvSz = 0#32) (tsc : ServerConfig) :
    ∃ s', s'.recvSz = 0#32 ∧ s'.needIwcc = (tsc.serverMode == 0#32) ∧
      Runs (run s) (frame .cInit tsc.bytes) [] (.initialising s') := by
  obtain ⟨s', hsz, hneed, hread⟩ :=
    readConfig_runs (s := { s with recvSz := BitVec.ofNat 32 configSize }) rfl tsc
  refine ⟨s', hsz, hneed, ?_⟩
  rw [frame, tsc.length_bytes]
  refine (recvMsg_runs hs .cInit configSize).bind_read ?_
  dsimp only
  rw [if_neg (by decide)]
  exact hread.map _

theorem runInitialised_runs (hs : s.needIwcc = true) (iwcc : ClientConfig) (obj : Obj) :
    Runs (runInitialised s iwcc obj) [] (frame .sInit iwcc.bytes ++ frame .sObject obj.val)
      (.looping { s with iwcc := iwcc, needIwcc := false }) := by
  rw [← List.append_nil (frame _ _ ++ _)]
  exact (sendObject_runs_first (s := { s with iwcc := iwcc }) hs obj).bind_write (.ret _)

/-! In the loop the server has read all of the last message and owes no config. -/

/-- The server waits for the next request. -/
structure Idle (s : IWConnection) : Prop where
  recvSz : s.recvSz = 0#32
  needIwcc : s.needIwcc = false

theorem runLoop_translate (hs : s.recvSz = 0#32) (addr : Word) :
    Runs (runLoop s) (frame .cTranslate (le 8 addr.toNat)) [] (.translating s addr) := by
  have hsame : { s with recvSz := 0#32 } = s := by rw [← hs]
  have hread := read_runs (s := { s with recvSz := 8#32 }) (le 8 addr.toNat)
    (by rw [length_le]; show 8 ≤ (BitVec.signExtend 64 8#32).toNat; decide)
  have hdone := hread.map (fun x => ServerPoint.translating x.2 (BitVec.ofNat 64 (unle x.1)))
  simp only [length_le, BitVec.sub_self, hsame, ofNat_unle_le (show 2 ^ 64 = 256 ^ 8 by norm_num)] at hdone
  rw [frame, length_le]
  refine (recvMsg_runs hs .cTranslate 8).bind_read ?_
  dsimp only
  rw [if_neg (by decide), if_pos rfl]
  exact hdone

theorem runLoop_fork (hs : s.recvSz = 0#32) :
    Runs (runLoop s) (MsgHdr.mk' .cFork 0).items [] (.forking s) := by
  have hsame : { s with recvSz := 0#32 } = s := by rw [← hs]
  rw [← List.append_nil (MsgHdr.items _)]
  refine (recvMsg_runs hs .cFork 0).bind_read ?_
  dsimp only
  rw [if_neg (by decide), if_neg (by decide), if_pos rfl, hsame]
  exact .ret _

/-- A new thread's `C_INIT` is answered with the client config and an empty object. -/
theorem runLoop_init (hs : s.recvSz = 0#32) {tsc : ServerConfig} (hmode : tsc.serverMode = 0#32) :
    ∃ s' iwcc, Idle s' ∧ Runs (runLoop s) (frame .cInit tsc.bytes)
      (frame .sInit (ClientConfig.bytes iwcc) ++ frame .sObject []) (.looping s') := by
  obtain ⟨s', hsz, hneed, hread⟩ :=
    readConfig_runs (s := { s with recvSz := BitVec.ofNat 32 configSize }) rfl tsc
  rw [hmode, beq_self_eq_true] at hneed
  refine ⟨{ s' with needIwcc := false }, s'.iwcc, ⟨hsz, rfl⟩, ?_⟩
  rw [frame, tsc.length_bytes]
  refine (recvMsg_runs hs .cInit configSize).bind_read ?_
  dsimp only
  rw [if_neg (by decide), if_neg (by decide), if_neg (by decide), if_pos rfl,
    ← List.append_nil (payload _)]
  exact hread.bind_read ((sendObject_runs_first hneed .empty).map _)

/-- What is left of a translation's read of guest memory when the page is on its way. -/
def awaitPage (s : IWConnection) (addr : Word) : Prog Item ServerPoint := do
  let (_, s) ← readPage { s with recvSz := 0x1001#32 }
  return .translating s addr

theorem translateRead_reaches (hs : s.recvSz = 0#32) (addr pageAddr : Word) :
    Reaches ServerPoint.next (translateRead s addr pageAddr) (MsgHdr.mk' .cMembuf 0x1001).items
      (frame .sMemreq (le 8 pageAddr.toNat ++ le 8 pgSize)) (awaitPage s addr) [] := by
  have hlen : (le 8 pageAddr.toNat ++ le 8 pgSize).length ≤ 0x7fffffff := by
    rw [List.length_append, length_le, length_le]
    decide
  have hmsg : Reaches ServerPoint.next
      (recvMsg s >>= fun x => if x.1 ≠ MsgId.cMembuf.num then .ret (.translating x.2 addr)
        else readPage x.2 >>= fun y => .ret (.translating y.2 addr))
      ((MsgHdr.mk' .cMembuf 0x1001).items ++ []) [] (awaitPage s addr) [] := by
    refine (recvMsg_runs hs .cMembuf 0x1001).reaches ?_
    rw [if_neg (not_not.mpr rfl)]
    exact .refl _ _
  have h := (sendMsg_runs .sMemreq hlen).reaches (f := fun _ => _) hmsg
  rwa [List.append_nil, List.append_nil] at h

theorem awaitPage_waits (s : IWConnection) (addr : Word) : (awaitPage s addr).Waits := by
  have hread : (read { s with recvSz := 0x1001#32 } pgSize).Waits := by
    rw [read, if_neg (by show ¬ (BitVec.signExtend 64 0x1001#32).toNat < pgSize; decide)]
    show 0 < pgSize
    decide
  exact (hread.bind _).bind _

theorem readPage_runs (hs : s.recvSz = 0#32) {page : List Byte} (b : Byte)
    (hpage : page.length = 0x1000) :
    Runs (readPage { s with recvSz := 0x1001#32 }) (payload page ++ payload [b]) []
      (if [b] ≠ [0#8] then none else some page, s) := by
  have hsame : { s with recvSz := 0#32 } = s := by rw [← hs]
  have hread := read_runs (s := { s with recvSz := 0x1001#32 }) page
    (by rw [hpage]; show 0x1000 ≤ (BitVec.signExtend 64 0x1001#32).toNat; decide)
  have hfailed := read_runs (s := { s with recvSz := 1#32 }) [b]
    (by show 1 ≤ (BitVec.signExtend 64 1#32).toNat; decide)
  rw [hpage, show 0x1001#32 - BitVec.ofNat 32 0x1000 = 1#32 by decide] at hread
  rw [List.length_singleton, BitVec.sub_self, hsame] at hfailed
  exact hread.bind_read (hfailed.map (fun y => (if y.1 ≠ [0#8] then none else some page, y.2)))

theorem awaitPage_runs (hs : s.recvSz = 0#32) (addr : Word) {page : List Byte} (b : Byte)
    (hpage : page.length = 0x1000) :
    Runs (awaitPage s addr) (payload page ++ payload [b]) [] (.translating s addr) :=
  (readPage_runs hs b hpage).map (fun x => ServerPoint.translating x.2 addr)

theorem cacheProbe_hit (obj : Obj) :
    Runs (cacheProbe (some obj)) [] (frame .sObject obj.val) true :=
  (sendMsgHdr_runs .sObject obj.property).bind_write ((write_runs obj.val).map _)

theorem translateEnd_runs (hs : s.needIwcc = false) (oc : Outcome) :
    Runs (translateEnd s oc) [] (frame .sObject oc.object.val) (.looping s) := by
  cases oc with
  | decodeFailed => exact (sendObject_runs hs .empty).map _
  | decoded cached compiled =>
      cases cached with
      | none => exact (sendObject_runs hs (compiled.getD .empty)).map _
      | some obj =>
          rw [← List.append_nil (frame _ _)]
          exact (cacheProbe_hit obj).bind_write (.ret _)

theorem answerFork_error (s : IWConnection) (err : ForkErrno) :
    Runs (answerFork s (.error err)) [] (frame .sFd (le 4 (BitVec.ofInt 32 (-err.num)).toNat))
      (.looping s) :=
  (sendMsg_runs .sFd (by rw [length_le]; decide)).map _

theorem answerFork_ok (s : IWConnection) (conn : Nat) :
    Runs (answerFork s (.ok conn)) [] ((MsgHdr.mk' .sFd 4).items ++ payloadWithFd conn (le 4 0))
      (.looping s) := by
  have hsend : Runs (sendMsgWithFd .sFd (le 4 0) conn) []
      ((MsgHdr.mk' .sFd 4).items ++ payloadWithFd conn (le 4 0)) () :=
    (sendMsgHdr_runs .sFd (by decide)).bind_write (.send _ _)
  exact hsend.map _

end Specs

end Instrew.Server
