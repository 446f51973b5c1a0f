import Instrew.Message

/-!
# The client's side of a connection

The functions of `translator.c` as programs over the socket. A function returns what
the C function does, an `int` that is negative for an error. The environment takes part
in three places, where a program stops at a `ClientPoint` and is taken up again:
between two calls, when guest memory is about to be written to the socket, and when a
buffer is about to be allocated.
-/

namespace Instrew.Client

open Instrew.Lib.Bytes
open Instrew.Lib.Dialogue

def eproto : Int := 71
def enomem : Int := 12

/-- `struct Translator`: the header that was read and put back, and the size of the
receive buffer. -/
structure Translator : Type where
  lastHdr : MsgHdr
  recvbufSz : Nat

inductive Call : Type where
  | init
  | threadInit
  | configFetch
  | getObject
  | get (addr : Word)
  | forkPrepare
  | forkFinalize
  deriving DecidableEq

/-- What a call returns: a code, with the data it has filled in if it succeeded. -/
inductive Result : Type where
  | code (ret : Int)
  | config (cfg : List Byte)
  | object (obj : List Byte)
  | fd (conn : Nat)
  deriving DecidableEq

inductive ClientPoint : Type where
  /-- No call has been made on the socket yet: the one the server started the client
  with, or one from `translator_fork_prepare`. -/
  | unused (forked : Bool)
  /-- The call has returned. -/
  | returned (t : Translator) (c : Call) (res : Result)
  /-- In `translator_get`, before guest memory at `start` is written. -/
  | writing (t : Translator) (addr : Word) (start : Word) (bufSz : Nat)
  /-- In `translator_get`, at the start of the loop. -/
  | looping (t : Translator) (addr : Word)
  /-- In `translator_get_object`, before the buffer is enlarged. -/
  | allocating (t : Translator) (c : Call) (sz : Nat)

/-! ## Headers -/

def translatorHdrSend (t : Translator) (id : MsgId) (sz : Nat) : Prog Item Int :=
  if t.lastHdr.id ≠ MsgId.unknown.num then .ret (-eproto)
  else .send (MsgHdr.mk' id sz).items (.ret 0)

/-- The end of `translator_hdr_recv`: a header of another id is put back. -/
def checkHdr (t : Translator) (id : MsgId) (hdr : MsgHdr) : Int × Translator :=
  if hdr.id ≠ id.num then (-eproto, { t with lastHdr := hdr })
  else (hdr.sz.toInt, { t with lastHdr := .none })

def translatorHdrRecv (t : Translator) (id : MsgId) : Prog Item (Int × Translator) :=
  if t.lastHdr.id = MsgId.unknown.num then do
    let hdr ← recvHdr
    return checkHdr t id hdr
  else
    return checkHdr t id t.lastHdr

/-! ## The calls -/

def writeFull (l : List Byte) : Prog Item Unit := .send (payload l) (.ret ())

/-- `translator_init` and `translator_thread_init` do the same on their sockets. -/
def sendInit (c : Call) (tsc : ServerConfig) : Prog Item ClientPoint := do
  let t : Translator := ⟨.none, 0⟩
  let ret ← translatorHdrSend t .cInit configSize
  if ret ≠ 0 then
    return .returned t c (.code ret)
  writeFull tsc.bytes
  return .returned t c (.code 0)

def translatorInit (tsc : ServerConfig) : Prog Item ClientPoint := sendInit .init tsc

def translatorThreadInit (tsc : ServerConfig) : Prog Item ClientPoint := sendInit .threadInit tsc

def translatorConfigFetch (t : Translator) : Prog Item ClientPoint := do
  let (sz, t) ← translatorHdrRecv t .sInit
  if sz < 0 then
    return .returned t .configFetch (.code sz)
  if sz ≠ configSize then
    return .returned t .configFetch (.code (-eproto))
  let cfg ← recvPayload sz.toNat
  return .returned t .configFetch (.config cfg)

/-- The end of `translator_get_object`, with a buffer that is large enough. -/
def readObject (t : Translator) (c : Call) (sz : Nat) : Prog Item ClientPoint := do
  let obj ← recvPayload sz
  return .returned t c (.object obj)

/-- `translator_get_object`, as a call of its own or at the end of `translator_get`. -/
def translatorGetObject (t : Translator) (c : Call) : Prog Item ClientPoint := do
  let (sz, t) ← translatorHdrRecv t .sObject
  if sz < 0 then
    return .returned t c (.code sz)
  if t.recvbufSz ≤ sz.toNat then
    return .allocating t c sz.toNat
  readObject t c sz.toNat

/-- `newsz`: rounded up to pages. -/
def recvbufSize (pagesz sz : Nat) : Nat := (sz + (pagesz - 1)) / pagesz * pagesz

/-- What follows when `mem_alloc_data` has returned; a failed allocation leaves the object
on the socket. -/
def allocated (pagesz : Nat) (t : Translator) (c : Call) (sz : Nat) (ok : Bool) :
    Prog Item ClientPoint :=
  if ok then readObject { t with recvbufSz := recvbufSize pagesz sz } c sz
  else .ret (.returned t c (.code (-enomem)))

/-- One round of the loop of `translator_get`: the answer is a memory request or the
object. -/
def translatorGetLoop (t : Translator) (addr : Word) : Prog Item ClientPoint := do
  let (sz, t) ← translatorHdrRecv t .sMemreq
  if sz = -eproto then
    translatorGetObject t (.get addr)
  else if sz < 0 then
    return .returned t (.get addr) (.code sz)
  else if sz ≠ 16 then
    return .returned t (.get addr) (.code (-1))
  else
    let memrq ← recvPayload 16
    let bufSz := min (unle (memrq.drop 8)) 0x1000
    let ret ← translatorHdrSend t .cMembuf (bufSz + 1)
    if ret < 0 then
      return .returned t (.get addr) (.code ret)
    return .writing t addr (BitVec.ofNat 64 (unle (memrq.take 8))) bufSz

def translatorGet (t : Translator) (addr : Word) : Prog Item ClientPoint := do
  let ret ← translatorHdrSend t .cTranslate 8
  if ret ≠ 0 then
    return .returned t (.get addr) (.code ret)
  writeFull (le 8 addr.toNat)
  translatorGetLoop t addr

/-- The answer to a memory request: the page, or as many zero bytes if it cannot be
read, and whether it could. -/
def writePage (t : Translator) (addr : Word) (bufSz : Nat) (page : Option (Nat → Byte)) :
    Prog Item ClientPoint := do
  match page with
  | some mem =>
      writeFull ((List.range bufSz).map mem)
      writeFull [0#8]
  | none =>
      writeFull (List.replicate bufSz 0#8)
      writeFull [1#8]
  return .looping t addr

/-- The second half of `translator_fork_prepare`. The content of `S_FD` is taken by a
single `recvmsg`, since a file descriptor comes with it. -/
def recvFork (t : Translator) : Prog Item ClientPoint := do
  let (sz, t) ← translatorHdrRecv t .sFd
  if sz ≠ 4 then
    return .returned t .forkPrepare (.code (if sz < 0 then sz else -eproto))
  let msg ← recvMsgContent 4
  if msg.length ≠ 4 then
    return .returned t .forkPrepare (.code (-eproto))
  let error := (BitVec.ofNat 32 (unle (msg.map Item.byte))).toInt
  if error ≠ 0 then
    return .returned t .forkPrepare (.code error)
  match msg.findSome? Item.fd? with
  | none => return .returned t .forkPrepare (.code (-eproto))
  | some conn => return .returned t .forkPrepare (.fd conn)

def translatorForkPrepare (t : Translator) : Prog Item ClientPoint := do
  let ret ← translatorHdrSend t .cFork 0
  if ret ≠ 0 then
    return .returned t .forkPrepare (.code ret)
  recvFork t

/-- After these calls the program uses the translator for translations and forks. When
setting it up or a translation fails, it is not used again; a failed fork is reported to
the guest. -/
def ready : Call → Result → Bool
  | .getObject, .object _ | .get _, .object _ => true
  | .forkPrepare, .code _ | .forkPrepare, .fd _ => true
  | .forkFinalize, .code _ => true
  | _, _ => false

/-- The calls that the program makes after one that has returned; `main` and
`handle_clone` set a translator up in this order. -/
def mayFollow (c : Call) (res : Result) : Call → Bool
  | .configFetch => (c == .init || c == .threadInit) && res == .code 0
  | .getObject => c == .configFetch && (res matches .config _)
  | .get _ | .forkPrepare => ready c res
  | .init | .threadInit | .forkFinalize => false

/-- A call other than those that begin the use of a socket. -/
def call (t : Translator) : Call → Option (Prog Item ClientPoint)
  | .configFetch => some (translatorConfigFetch t)
  | .getObject => some (translatorGetObject t .getObject)
  | .get addr => some (translatorGet t addr)
  | .forkPrepare => some (translatorForkPrepare t)
  | .init | .threadInit | .forkFinalize => none

/-- The loop of `translator_get`. -/
def ClientPoint.next : ClientPoint → Option (Prog Item ClientPoint)
  | .looping t addr => some (translatorGetLoop t addr)
  | .unused _ | .returned .. | .writing .. | .allocating .. => none

/-! ## What the calls do -/

section Specs

variable {t : Translator} {c : Call} {id : MsgId} {sz : Nat}

theorem translatorHdrSend_runs (ht : t.lastHdr = .none) (id : MsgId) (sz : Nat) :
    Runs (translatorHdrSend t id sz) [] (MsgHdr.mk' id sz).items 0 := by
  rw [translatorHdrSend, ht, if_neg (by decide)]
  exact .send _ _

theorem translatorHdrRecv_runs (ht : t.lastHdr = .none) (id : MsgId) (hdr : MsgHdr) :
    Runs (translatorHdrRecv t id) hdr.items [] (checkHdr t id hdr) := by
  rw [translatorHdrRecv, ht, if_pos (by decide)]
  exact (recvHdr_runs hdr).map _

theorem translatorHdrRecv_waits (ht : t.lastHdr = .none) (id : MsgId) :
    (translatorHdrRecv t id).Waits := by
  rw [translatorHdrRecv, ht, if_pos (by decide)]
  exact recvHdr_waits.bind _

/-- A header that was put back is taken from there. -/
theorem translatorHdrRecv_back (ht : t.lastHdr.id ≠ MsgId.unknown.num) (id : MsgId) :
    Runs (translatorHdrRecv t id) [] [] (checkHdr t id t.lastHdr) := by
  rw [translatorHdrRecv, if_neg ht]
  exact .ret _

theorem checkHdr_same (t : Translator) (id : MsgId) (hsz : sz ≤ 0x7fffffff) :
    checkHdr t id (.mk' id sz) = ((sz : Int), { t with lastHdr := .none }) := by
  rw [checkHdr, if_neg (by simp), MsgHdr.toInt_sz id hsz]

/-- With no header put back before, the translator is as it was. -/
theorem Translator.with_none (ht : t.lastHdr = .none) : { t with lastHdr := .none } = t := by
  rw [← ht]

theorem checkHdr_other {other : MsgId} (t : Translator) (hne : other.num ≠ id.num) :
    checkHdr t id (.mk' other sz) = (-eproto, { t with lastHdr := .mk' other sz }) := by
  rw [checkHdr, MsgHdr.id_mk', if_pos hne]

theorem translatorHdrRecv_same (ht : t.lastHdr = .none) (id : MsgId) (hsz : sz ≤ 0x7fffffff) :
    Runs (translatorHdrRecv t id) (MsgHdr.mk' id sz).items [] ((sz : Int), t) := by
  have h := translatorHdrRecv_runs ht id (.mk' id sz)
  rwa [checkHdr_same t id hsz, Translator.with_none ht] at h

theorem writeFull_runs (l : List Byte) : Runs (writeFull l) [] (payload l) () := .send _ _

theorem sendInit_runs (c : Call) (tsc : ServerConfig) :
    Runs (sendInit c tsc) [] (frame .cInit tsc.bytes) (.returned ⟨.none, 0⟩ c (.code 0)) := by
  rw [frame, tsc.length_bytes]
  exact (translatorHdrSend_runs rfl .cInit configSize).bind
    ((writeFull_runs tsc.bytes).map _)

theorem translatorConfigFetch_runs (ht : t.lastHdr = .none) {cfg : List Byte}
    (hcfg : cfg.length = configSize) :
    Runs (translatorConfigFetch t) (frame .sInit cfg) [] (.returned t .configFetch (.config cfg)) := by
  have hsz : cfg.length ≤ 0x7fffffff := by rw [hcfg]; decide
  refine (translatorHdrRecv_same ht .sInit hsz).bind_read ?_
  dsimp only
  rw [if_neg (by omega), if_neg (by rw [hcfg]; decide), Int.toNat_natCast]
  exact (recvPayload_runs cfg).map _

/-- `translator_get_object` has found an object: it is read, or waits on the socket until
the buffer has been enlarged. -/
inductive Fetched (c : Call) (obj : List Byte) : Prog Item ClientPoint → List Item → Prop where
  | read (t : Translator) : t.lastHdr = .none →
      Fetched c obj (.ret (.returned t c (.object obj))) []
  | unread (t : Translator) : t.lastHdr = .none →
      Fetched c obj (.ret (.allocating t c obj.length)) (payload obj)

theorem translatorGetObject_fetched {obj : List Byte} {hdr : List Item}
    (hrecv : Runs (translatorHdrRecv t .sObject) hdr []
      ((obj.length : Int), { t with lastHdr := .none })) :
    ∃ p r, Fetched c obj p r ∧
      Reaches ClientPoint.next (translatorGetObject t c) (hdr ++ payload obj) [] p r := by
  by_cases hbuf : t.recvbufSz ≤ obj.length
  · refine ⟨_, _, .unread { t with lastHdr := .none } rfl, hrecv.reaches ?_⟩
    dsimp only
    rw [if_neg (by omega), Int.toNat_natCast, if_pos hbuf]
    exact .refl _ _
  · refine ⟨_, _, .read { t with lastHdr := .none } rfl, hrecv.reaches ?_⟩
    dsimp only
    rw [if_neg (by omega), Int.toNat_natCast, if_neg hbuf]
    exact ((recvPayload_runs obj).map _).reaches_ret

theorem translatorGetObject_reaches (ht : t.lastHdr = .none) (c : Call) {obj : List Byte}
    (hobj : obj.length ≤ 0x7fffffff) :
    ∃ p r, Fetched c obj p r ∧
      Reaches ClientPoint.next (translatorGetObject t c) (frame .sObject obj) [] p r := by
  refine translatorGetObject_fetched ?_
  rw [Translator.with_none ht]
  exact translatorHdrRecv_same ht .sObject hobj

/-- An object ends the loop: its header is put back and found again. -/
theorem translatorGetLoop_object (ht : t.lastHdr = .none) (addr : Word) {obj : List Byte}
    (hobj : obj.length ≤ 0x7fffffff) :
    ∃ p r, Fetched (.get addr) obj p r ∧
      Reaches ClientPoint.next (translatorGetLoop t addr) (frame .sObject obj) [] p r := by
  have hback : Runs (translatorHdrRecv { t with lastHdr := .mk' .sObject obj.length } .sObject) [] []
      ((obj.length : Int), { t with lastHdr := .none }) := by
    have h := translatorHdrRecv_back (t := { t with lastHdr := .mk' .sObject obj.length })
      (show MsgId.sObject.num ≠ _ by decide) .sObject
    rwa [checkHdr_same _ _ hobj] at h
  obtain ⟨p, r, hfetched, hreaches⟩ := translatorGetObject_fetched (c := .get addr) hback
  refine ⟨p, r, hfetched, ?_⟩
  have hrecv := translatorHdrRecv_runs ht .sMemreq (.mk' .sObject obj.length)
  rw [checkHdr_other t (by decide)] at hrecv
  refine hrecv.reaches ?_
  dsimp only
  rw [if_pos rfl]
  exact hreaches

/-- A memory request is answered with a header, before the page is written. -/
theorem translatorGetLoop_memreq (ht : t.lastHdr = .none) (addr page : Word) :
    Runs (translatorGetLoop t addr) (frame .sMemreq (le 8 page.toNat ++ le 8 0x1000))
      (MsgHdr.mk' .cMembuf 0x1001).items (.writing t addr page 0x1000) := by
  have hlen : (le 8 page.toNat ++ le 8 0x1000).length = 16 := by
    rw [List.length_append, length_le, length_le]
  have hread := recvPayload_runs (le 8 page.toNat ++ le 8 0x1000)
  rw [hlen] at hread
  rw [frame, hlen]
  refine (translatorHdrRecv_same ht .sMemreq (by decide)).bind_read ?_
  dsimp only
  rw [if_neg (by decide), if_neg (by decide), if_neg (by decide)]
  rw [← List.append_nil (payload _)]
  refine hread.bind_read ?_
  rw [List.take_left' (length_le 8 _), List.drop_left' (length_le 8 _), unle_le (by decide),
    ofNat_unle_le (by norm_num), min_self]
  rw [← List.append_nil (MsgHdr.items _)]
  refine (translatorHdrSend_runs ht .cMembuf 0x1001).bind_write ?_
  rw [if_neg (by decide)]
  exact .ret _

theorem translatorGet_reaches (ht : t.lastHdr = .none) (addr : Word) :
    Reaches ClientPoint.next (translatorGet t addr) [] (frame .cTranslate (le 8 addr.toNat))
      (translatorGetLoop t addr) [] := by
  rw [frame, length_le]
  refine (translatorHdrSend_runs ht .cTranslate 8).reaches ?_
  rw [if_neg (by decide), ← List.append_nil (payload _)]
  exact (writeFull_runs _).reaches (.refl _ _)

/-- The content of `C_MEMBUF`. -/
def membuf (n : Nat) : Option (Nat → Byte) → List Byte × Byte
  | some mem => ((List.range n).map mem, 0#8)
  | none => (List.replicate n 0#8, 1#8)

theorem length_membuf (n : Nat) (page : Option (Nat → Byte)) : (membuf n page).1.length = n := by
  cases page with
  | none => exact List.length_replicate
  | some mem => rw [membuf, List.length_map, List.length_range]

theorem writePage_runs (t : Translator) (addr : Word) (n : Nat) (page : Option (Nat → Byte)) :
    Runs (writePage t addr n page) [] (payload (membuf n page).1 ++ payload [(membuf n page).2])
      (.looping t addr) := by
  cases page with
  | none => exact (writeFull_runs _).bind ((writeFull_runs _).map _)
  | some mem => exact (writeFull_runs _).bind ((writeFull_runs _).map _)

theorem translatorForkPrepare_reaches (ht : t.lastHdr = .none) :
    Reaches ClientPoint.next (translatorForkPrepare t) [] (MsgHdr.mk' .cFork 0).items
      (recvFork t) [] := by
  rw [← List.append_nil (MsgHdr.mk' .cFork 0).items]
  refine (translatorHdrSend_runs ht .cFork 0).reaches ?_
  rw [if_neg (by decide)]
  exact .refl _ _

/-- The answer to a fork that succeeded; `recvmsg` yields all of it. -/
theorem recvFork_fd (ht : t.lastHdr = .none) (conn : Nat) :
    Runs (recvFork t) ((MsgHdr.mk' .sFd 4).items ++ payloadWithFd conn (le 4 0)) []
      (.returned t .forkPrepare (.fd conn)) := by
  refine (translatorHdrRecv_same ht .sFd (by decide)).bind_read ?_
  dsimp only
  rw [if_neg (by decide), ← List.append_nil (payloadWithFd _ _)]
  exact (recvMsgContent_runs (isHeader_payloadWithFd conn (le 4 0))).bind_read (.ret _)

theorem recvFork_error (ht : t.lastHdr = .none) {error : Int} (hne : error ≠ 0)
    (hlo : -0x80000000 ≤ error) (hhi : error ≤ 0x7fffffff) :
    Runs (recvFork t) (frame .sFd (le 4 (BitVec.ofInt 32 error).toNat)) []
      (.returned t .forkPrepare (.code error)) := by
  have hlen : (payload (le 4 (BitVec.ofInt 32 error).toNat)).length = 4 := by
    rw [payload, List.length_map, length_le]
  have hint : (BitVec.ofInt 32 error).toInt = error := by
    rw [BitVec.toInt_ofInt, Int.bmod_eq_of_le] <;> omega
  have hmsg := recvMsgContent_runs (isHeader_payload (le 4 (BitVec.ofInt 32 error).toNat))
  rw [hlen] at hmsg
  rw [frame, length_le]
  refine (translatorHdrRecv_same ht .sFd (by decide)).bind_read ?_
  dsimp only
  rw [if_neg (by decide), ← List.append_nil (payload _)]
  refine hmsg.bind_read ?_
  rw [if_neg (not_not.mpr hlen), byte_payload, ofNat_unle_le (by norm_num), hint, if_pos hne]
  exact .ret _

end Specs

end Instrew.Client
