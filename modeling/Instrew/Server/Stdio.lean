import Instrew.Server.Connection
import Instrew.Lib.Buffered

/-!
# The server's output buffer

`Conn` writes with `fwrite`, so that messages gather in the buffer of a `FILE` until they are
flushed. `Write` flushes at the end of a message, which it knows from `wr_hdr.sz`; `Sendfile`
and `SendMsgWithFd` write to the socket itself, and flush before. The functions of
`connection.cc` again, with the buffer and with `wr_hdr.sz`, which each is given and returns:
without the buffer they are those of `Instrew.Server.Connection` (`erase`), and the buffer is
empty whenever they wait or are done (`Drains`).
-/

namespace Instrew.Server.Stdio

open Instrew.Lib.Bytes
open Instrew.Lib.Dialogue
open BProg (ofReader erase_bind erase_ofReader Drains Clean drains_ofReader)

/-- `wr_hdr.sz`: how much of a message has not been written. -/
abbrev WrSz : Type := BitVec 32

/-! ## Conn -/

def sendMsgHdr (id : MsgId) (size : Nat) : BProg Item WrSz :=
  if size ≤ 0x7fffffff then .write (MsgHdr.mk' id size).items (.ret (BitVec.ofNat 32 size))
  else .fail

def write (wrSz : WrSz) (l : List Byte) : BProg Item WrSz :=
  let wrSz := wrSz - BitVec.ofNat 32 l.length
  .write (payload l) (if wrSz = 0#32 then .flush (.ret wrSz) else .ret wrSz)

/-- The loop counts `size` down to 0 before it is subtracted from `wr_hdr.sz`. -/
def sendfile (wrSz : WrSz) (l : List Byte) : BProg Item WrSz := .flush (.direct (payload l) (.ret wrSz))

def sendMsg (id : MsgId) (val : List Byte) : BProg Item WrSz := do
  let wrSz ← sendMsgHdr id val.length
  write wrSz val

def sendMsgWithFd (id : MsgId) (val : List Byte) (conn : Nat) : BProg Item WrSz := do
  let wrSz ← sendMsgHdr id val.length
  .flush (.direct (payloadWithFd conn val) (.ret wrSz))

/-! ## RemoteMemory and IWConnection -/

/-- `GetPage` after the request. -/
def receivePage (s : IWConnection) (addr : Word) : Prog Item ServerPoint := do
  let (msgid, s) ← recvMsg s
  if msgid ≠ MsgId.cMembuf.num then
    return .translating s addr
  let (_, s) ← readPage s
  return .translating s addr

def translateRead (s : IWConnection) (addr pageAddr : Word) : BProg Item (ServerPoint × WrSz) := do
  let wrSz ← sendMsg .sMemreq (le 8 pageAddr.toNat ++ le 8 pgSize)
  let p ← ofReader (receivePage s addr)
  return (p, wrSz)

/-- `CacheProbe` sends the object from the cache's file. -/
def cacheProbe (wrSz : WrSz) (res : Option Obj) : BProg Item (Bool × WrSz) := do
  match res with
  | none => return (false, wrSz)
  | some obj =>
      let wrSz ← sendMsgHdr .sObject obj.val.length
      let wrSz ← sendfile wrSz obj.val
      return (true, wrSz)

/-- The client config, if it is owed. -/
def sendConfig (s : IWConnection) (wrSz : WrSz) : BProg Item WrSz :=
  if s.needIwcc then sendMsg .sInit s.iwcc.bytes else return wrSz

def sendObject (s : IWConnection) (wrSz : WrSz) (obj : Obj) : BProg Item (IWConnection × WrSz) := do
  let _ ← sendConfig s wrSz
  let wrSz ← sendMsgHdr .sObject obj.val.length
  let wrSz ← write wrSz obj.val
  return ({ s with needIwcc := false }, wrSz)

/-- An object is sent, and the loop is taken up again. -/
def sendAndLoop (s : IWConnection) (wrSz : WrSz) (obj : Obj) : BProg Item (ServerPoint × WrSz) := do
  let (s, wrSz) ← sendObject s wrSz obj
  return (.looping s, wrSz)

def translateEnd (s : IWConnection) (wrSz : WrSz) : Outcome → BProg Item (ServerPoint × WrSz)
  | .decodeFailed => sendAndLoop s wrSz .empty
  | .decoded cached compiled => do
      let (hit, wrSz) ← cacheProbe wrSz cached
      if hit then return (.looping s, wrSz)
      else sendAndLoop s wrSz (compiled.getD .empty)

/-! ## Run -/

/-- In `Run` before the first message, `wr_hdr` has not been written yet. -/
def run (s : IWConnection) (wrSz : WrSz) : BProg Item (ServerPoint × WrSz) := do
  let p ← ofReader (Server.run s)
  return (p, wrSz)

def runInitialised (s : IWConnection) (wrSz : WrSz) (iwcc : ClientConfig) (obj : Obj) :
    BProg Item (ServerPoint × WrSz) := do
  let (s, wrSz) ← sendObject { s with iwcc := iwcc } wrSz obj
  if s.needIwcc then sendAndLoop s wrSz .empty
  else return (.looping s, wrSz)

/-- What a message asks for. -/
inductive Request : Type where
  | point (p : ServerPoint)
  /-- A new thread's `C_INIT`, which is answered at once. -/
  | threadInit (s : IWConnection)

/-- A round of the loop of `Run`, up to the answer. -/
def readRequest (s : IWConnection) : Prog Item Request := do
  let (msgid, s) ← recvMsg s
  if msgid = MsgId.cExit.num then
    return .point (.exited 0)
  else if msgid = MsgId.cTranslate.num then
    let (addr, s) ← read s 8
    return .point (.translating s (BitVec.ofNat 64 (unle addr)))
  else if msgid = MsgId.cFork.num then
    return .point (.forking s)
  else if msgid = MsgId.cInit.num then
    let s ← readConfig s
    return .threadInit s
  else
    return .point (.exited 1)

def runLoop (s : IWConnection) (wrSz : WrSz) : BProg Item (ServerPoint × WrSz) := do
  match ← ofReader (readRequest s) with
  | .point p => return (p, wrSz)
  | .threadInit s => sendAndLoop s wrSz .empty

def answerFork (s : IWConnection) (res : Except ForkErrno Nat) : BProg Item (ServerPoint × WrSz) := do
  let wrSz ← match res with
    | .error err => sendMsg .sFd (le 4 (BitVec.ofInt 32 (-err.num)).toNat)
    | .ok conn => sendMsgWithFd .sFd (le 4 0) conn
  return (.looping s, wrSz)

def next : ServerPoint × WrSz → Option (BProg Item (ServerPoint × WrSz))
  | (.looping s, wrSz) => some (runLoop s wrSz)
  | (.initialising _, _) | (.translating .., _) | (.forking _, _) | (.exited _, _) => none

/-! ## Without the buffer -/

section Erase

variable {s : IWConnection} {wrSz : WrSz}

theorem sendMsgHdr_erase (id : MsgId) (size : Nat) :
    (sendMsgHdr id size).erase (fun _ => ()) = Server.sendMsgHdr id size := by
  rw [sendMsgHdr, Server.sendMsgHdr]
  split_ifs
  · rfl
  · rfl

theorem write_erase (wrSz : WrSz) (l : List Byte) :
    (write wrSz l).erase (fun _ => ()) = Server.write l := by
  simp only [write]
  split_ifs
  · rfl
  · rfl

theorem sendMsg_erase (id : MsgId) (val : List Byte) :
    (sendMsg id val).erase (fun _ => ()) = Server.sendMsg id val := by
  rw [sendMsg, Server.sendMsg, ← sendMsgHdr_erase]
  exact erase_bind (fun _ => ()) fun wrSz => write_erase wrSz val

theorem sendMsgWithFd_erase (id : MsgId) (val : List Byte) (conn : Nat) :
    (sendMsgWithFd id val conn).erase (fun _ => ()) = Server.sendMsgWithFd id val conn := by
  rw [sendMsgWithFd, Server.sendMsgWithFd, ← sendMsgHdr_erase]
  exact erase_bind (fun _ => ()) fun wrSz => rfl

theorem sendConfig_erase (s : IWConnection) (wrSz : WrSz) :
    (sendConfig s wrSz).erase (fun _ => ()) =
      if s.needIwcc then Server.sendMsg .sInit s.iwcc.bytes else .ret () := by
  rw [sendConfig]
  split_ifs
  · exact sendMsg_erase _ _
  · rfl

theorem sendObject_erase (s : IWConnection) (wrSz : WrSz) (obj : Obj) :
    (sendObject s wrSz obj).erase Prod.fst = Server.sendObject s obj := by
  have hobject : (sendObject s wrSz obj).erase Prod.fst =
      ((sendConfig s wrSz).erase (fun _ => ()) >>= fun _ =>
        Server.sendMsgHdr .sObject obj.val.length >>= fun _ => Server.write obj.val >>= fun _ =>
          .ret { s with needIwcc := false }) := by
    refine erase_bind (fun _ => ()) fun _ => ?_
    rw [← sendMsgHdr_erase]
    refine erase_bind (fun _ => ()) fun wrSz => ?_
    rw [← write_erase wrSz]
    exact erase_bind (fun _ => ()) fun _ => rfl
  rw [hobject, sendConfig_erase, Server.sendObject]
  cases s.needIwcc with
  | true => rfl
  | false => rfl

theorem sendAndLoop_erase (s : IWConnection) (wrSz : WrSz) (obj : Obj) :
    (sendAndLoop s wrSz obj).erase Prod.fst =
      (Server.sendObject s obj >>= fun s => .ret (.looping s)) := by
  rw [← sendObject_erase s wrSz]
  exact erase_bind Prod.fst fun _ => rfl

theorem cacheProbe_erase (wrSz : WrSz) (res : Option Obj) :
    (cacheProbe wrSz res).erase Prod.fst = Server.cacheProbe res := by
  cases res with
  | none => rfl
  | some obj =>
      rw [cacheProbe, Server.cacheProbe, ← sendMsgHdr_erase]
      exact erase_bind (fun _ => ()) fun _ => rfl

theorem translateEnd_erase (s : IWConnection) (wrSz : WrSz) (oc : Outcome) :
    (translateEnd s wrSz oc).erase Prod.fst = Server.translateEnd s oc := by
  cases oc with
  | decodeFailed => exact sendAndLoop_erase s wrSz .empty
  | decoded cached compiled =>
      rw [translateEnd, Server.translateEnd, ← cacheProbe_erase wrSz]
      refine erase_bind Prod.fst ?_
      rintro ⟨hit, wrSz⟩
      cases hit with
      | true => rfl
      | false => exact sendAndLoop_erase s wrSz _

theorem runInitialised_erase (s : IWConnection) (wrSz : WrSz) (iwcc : ClientConfig) (obj : Obj) :
    (runInitialised s wrSz iwcc obj).erase Prod.fst = Server.runInitialised s iwcc obj := by
  rw [runInitialised, Server.runInitialised, ← sendObject_erase { s with iwcc := iwcc } wrSz]
  refine erase_bind Prod.fst ?_
  rintro ⟨s, wrSz⟩
  dsimp only
  split_ifs
  · exact sendAndLoop_erase s wrSz .empty
  · rfl

theorem answerFork_erase (s : IWConnection) (res : Except ForkErrno Nat) :
    (answerFork s res).erase Prod.fst = Server.answerFork s res := by
  cases res with
  | error err =>
      rw [answerFork, Server.answerFork]
      simp only
      rw [← sendMsg_erase]
      exact erase_bind (fun _ => ()) fun _ => rfl
  | ok conn =>
      rw [answerFork, Server.answerFork]
      simp only
      rw [← sendMsgWithFd_erase]
      exact erase_bind (fun _ => ()) fun _ => rfl

/-! What only reads. -/

theorem recvMsg_reads (s : IWConnection) : (recvMsg s).Reads := by
  rw [recvMsg]
  split_ifs
  · trivial
  · refine Prog.Reads.bind ?_ fun _ => trivial
    intro l
    dsimp only
    split_ifs
    · trivial
    · trivial

theorem read_reads (s : IWConnection) (size : Nat) : (read s size).Reads := by
  rw [read]
  split_ifs
  · trivial
  · refine Prog.Reads.bind ?_ fun _ => trivial
    intro l
    dsimp only
    split_ifs
    · trivial
    · trivial

theorem readConfig_reads (s : IWConnection) : (readConfig s).Reads :=
  (read_reads s configSize).bind fun _ => trivial

theorem readPage_reads (s : IWConnection) : (readPage s).Reads :=
  (read_reads s pgSize).bind fun x => (read_reads x.2 1).bind fun _ => trivial

theorem receivePage_reads (s : IWConnection) (addr : Word) : (receivePage s addr).Reads := by
  refine (recvMsg_reads s).bind ?_
  rintro ⟨msgid, s⟩
  dsimp only
  split_ifs
  · trivial
  · exact (readPage_reads s).bind fun _ => trivial

theorem run_reads (s : IWConnection) : (Server.run s).Reads := by
  refine (recvMsg_reads s).bind ?_
  rintro ⟨msgid, s⟩
  dsimp only
  split_ifs
  · trivial
  · exact (readConfig_reads s).bind fun _ => trivial

theorem readRequest_reads (s : IWConnection) : (readRequest s).Reads := by
  refine (recvMsg_reads s).bind ?_
  rintro ⟨msgid, s⟩
  dsimp only
  split_ifs
  · trivial
  · exact (read_reads s 8).bind fun _ => trivial
  · trivial
  · exact (readConfig_reads s).bind fun _ => trivial
  · trivial

theorem run_erase (s : IWConnection) (wrSz : WrSz) :
    (run s wrSz).erase Prod.fst = Server.run s := by
  rw [run, BProg.erase_ofReader_bind (run_reads s) (q := Prog.ret) fun _ => rfl, Prog.bind_ret]

theorem translateRead_erase (s : IWConnection) (addr pageAddr : Word) :
    (translateRead s addr pageAddr).erase Prod.fst = Server.translateRead s addr pageAddr := by
  have hreceive : (translateRead s addr pageAddr).erase Prod.fst =
      ((sendMsg .sMemreq (le 8 pageAddr.toNat ++ le 8 pgSize)).erase (fun _ => ()) >>= fun _ =>
        receivePage s addr) := by
    refine erase_bind (fun _ => ()) fun wrSz => ?_
    rw [BProg.erase_ofReader_bind (receivePage_reads s addr) (q := Prog.ret) fun _ => rfl,
      Prog.bind_ret]
  rw [hreceive, sendMsg_erase]
  rfl

theorem runLoop_erase (s : IWConnection) (wrSz : WrSz) :
    (runLoop s wrSz).erase Prod.fst = Server.runLoop s := by
  let answer : Request → Prog Item ServerPoint
    | .point p => .ret p
    | .threadInit s => Server.sendObject s .empty >>= fun s => .ret (.looping s)
  have hanswer : (runLoop s wrSz).erase Prod.fst = (readRequest s >>= answer) := by
    refine BProg.erase_ofReader_bind (readRequest_reads s) fun r => ?_
    cases r with
    | point p => rfl
    | threadInit s => exact sendAndLoop_erase s wrSz .empty
  rw [hanswer, readRequest, Server.runLoop, Prog.bind_assoc]
  congr 1
  funext x
  obtain ⟨msgid, s⟩ := x
  dsimp only
  split_ifs
  · rfl
  · exact Prog.bind_assoc _ _ _
  · rfl
  · exact Prog.bind_assoc _ _ _
  · rfl

end Erase

/-! ## What is in the buffer -/

section Drains

/-- A header leaves its size in `wr_hdr.sz`. -/
theorem sendMsgHdr_drains (id : MsgId) (size : Nat) (dirty : Bool) :
    Drains (fun _ wrSz => wrSz = BitVec.ofNat 32 size) dirty (sendMsgHdr id size) := by
  rw [sendMsgHdr]
  split_ifs
  · rfl
  · trivial

/-- All of the content at once is followed by a flush. -/
theorem write_drains (l : List Byte) (dirty : Bool) :
    Drains Clean dirty (write (BitVec.ofNat 32 l.length) l) := by
  simp only [write, BitVec.sub_self, if_true]
  rfl

theorem sendfile_drains (wrSz : WrSz) (l : List Byte) (dirty : Bool) :
    Drains Clean dirty (sendfile wrSz l) := ⟨rfl, rfl⟩

theorem sendMsg_drains (id : MsgId) (val : List Byte) (dirty : Bool) :
    Drains Clean dirty (sendMsg id val) := by
  refine (sendMsgHdr_drains id val.length dirty).bind ?_
  rintro dirty wrSz rfl
  exact write_drains val dirty

theorem sendMsgWithFd_drains (id : MsgId) (val : List Byte) (conn : Nat) (dirty : Bool) :
    Drains Clean dirty (sendMsgWithFd id val conn) :=
  (sendMsgHdr_drains id val.length dirty).bind fun _ _ _ => ⟨rfl, rfl⟩

/-- A reader, and what is done with what it has read. -/
theorem drains_ofReader_bind {α β : Type} {p : Prog Item α} (h : p.Reads) {k : α → BProg Item β}
    (hk : ∀ a, Drains Clean false (k a)) : Drains Clean false (ofReader p >>= k) := by
  refine (drains_ofReader h).bind ?_
  rintro dirty a rfl
  exact hk a

theorem sendObject_drains (s : IWConnection) (wrSz : WrSz) (obj : Obj) :
    Drains Clean false (sendObject s wrSz obj) := by
  have hconfig : Drains Clean false (sendConfig s wrSz) := by
    rw [sendConfig]
    split_ifs
    · exact sendMsg_drains _ _ _
    · rfl
  refine hconfig.bind fun dirty _ _ => (sendMsgHdr_drains _ _ dirty).bind ?_
  rintro dirty wrSz rfl
  exact (write_drains obj.val dirty).bind fun _ _ h => h

theorem sendAndLoop_drains (s : IWConnection) (wrSz : WrSz) (obj : Obj) :
    Drains Clean false (sendAndLoop s wrSz obj) :=
  (sendObject_drains s wrSz obj).bind fun _ _ h => h

theorem cacheProbe_drains (wrSz : WrSz) (res : Option Obj) :
    Drains Clean false (cacheProbe wrSz res) := by
  cases res with
  | none => rfl
  | some obj =>
      refine (sendMsgHdr_drains _ _ _).bind fun dirty wrSz _ => ?_
      exact (sendfile_drains wrSz obj.val dirty).bind fun _ _ h => h

theorem translateEnd_drains (s : IWConnection) (wrSz : WrSz) (oc : Outcome) :
    Drains Clean false (translateEnd s wrSz oc) := by
  cases oc with
  | decodeFailed => exact sendAndLoop_drains s wrSz .empty
  | decoded cached compiled =>
      refine (cacheProbe_drains wrSz cached).bind ?_
      rintro dirty ⟨hit, wrSz⟩ rfl
      cases hit with
      | true => rfl
      | false => exact sendAndLoop_drains s wrSz _

theorem translateRead_drains (s : IWConnection) (addr pageAddr : Word) :
    Drains Clean false (translateRead s addr pageAddr) := by
  refine (sendMsg_drains _ _ _).bind ?_
  rintro dirty wrSz rfl
  exact drains_ofReader_bind (receivePage_reads s addr) fun _ => rfl

theorem run_drains (s : IWConnection) (wrSz : WrSz) : Drains Clean false (run s wrSz) :=
  drains_ofReader_bind (run_reads s) fun _ => rfl

theorem runInitialised_drains (s : IWConnection) (wrSz : WrSz) (iwcc : ClientConfig) (obj : Obj) :
    Drains Clean false (runInitialised s wrSz iwcc obj) := by
  refine (sendObject_drains _ wrSz obj).bind ?_
  rintro dirty ⟨s, wrSz⟩ rfl
  dsimp only
  split_ifs
  · exact sendAndLoop_drains s wrSz .empty
  · rfl

theorem runLoop_drains (s : IWConnection) (wrSz : WrSz) : Drains Clean false (runLoop s wrSz) := by
  refine drains_ofReader_bind (readRequest_reads s) fun r => ?_
  cases r with
  | point p => rfl
  | threadInit s => exact sendAndLoop_drains s wrSz .empty

theorem answerFork_drains (s : IWConnection) (res : Except ForkErrno Nat) :
    Drains Clean false (answerFork s res) := by
  cases res with
  | error err => exact (sendMsg_drains _ _ _).bind fun _ _ h => h
  | ok conn => exact (sendMsgWithFd_drains _ _ _ _).bind fun _ _ h => h

theorem next_drains (p : ServerPoint × WrSz) (q : BProg Item (ServerPoint × WrSz))
    (h : next p = some q) : Drains Clean false q := by
  obtain ⟨point, wrSz⟩ := p
  cases point with
  | looping s =>
      cases h
      exact runLoop_drains s wrSz
  | initialising | translating | forking | exited => cases h

end Drains

theorem next_erase (p : ServerPoint × WrSz) :
    ServerPoint.next p.1 = (next p).map (BProg.erase Prod.fst) := by
  obtain ⟨point, wrSz⟩ := p
  cases point with
  | looping s => exact congrArg some (runLoop_erase s wrSz).symm
  | initialising | translating | forking | exited => rfl

end Instrew.Server.Stdio
