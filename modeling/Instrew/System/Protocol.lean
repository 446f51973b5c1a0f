import Instrew.Client.Translator
import Instrew.Server.Connection
import Instrew.Lib.Run

/-!
# Client and server stay in step

A connection is a client and a server program with what is on the way between them. A
step moves a piece of data of any size, or is a decision: the client's next call, the
contents of guest memory, the outcome of a translation or of a fork. A fork adds a
connection, whose server goes on where the parent's is and whose client end is used by
a forked process or by a new thread.

At any time the two programs of a connection, with what is on the way, come to rest in
one of a few states (`Quiet`). The headline, `connections_in_step`, follows: as long as
each `recvmsg` takes the whole of the four bytes that it asks for, no call fails with
`-EPROTO`, headers are read as headers and content as content, and a translation
returns the object that was sent for it.
-/

namespace Instrew.System

open Instrew.Lib.Dialogue
open Instrew.Lib.Run (AllSteps)
open Instrew.Client
open Instrew.Server

structure Connection : Type where
  client : Prog Item ClientPoint
  server : Prog Item ServerPoint
  toClient : List Item
  toServer : List Item
  /-- The addresses the client has asked translations for. -/
  requested : List Word
  /-- The translations the server has answered, with the objects it sent. -/
  answered : List (Word × List Byte)

/-- What the client's program, and the kernel for it, decide. -/
inductive ClientDecision : Type where
  | init (tsc : ServerConfig)
  | threadInit (tsc : ServerConfig)
  /-- The forked process has a copy of the parent's translator. -/
  | forkFinalize (parent : Nat)
  | call (c : Call)
  /-- The page that is to be written, unless it cannot be read. -/
  | page (mem : Option (Nat → Byte))
  /-- The page size, and whether a buffer could be allocated. -/
  | alloc (pagesz : Nat) (ok : Bool)

/-- What the functions of `IWFunctions`, and the kernel, decide for the server. -/
inductive ServerDecision : Type where
  | initialise (iwcc : ClientConfig) (obj : Obj)
  | readPage (pageAddr : Word)
  | translated (oc : Outcome)
  | fork (res : Option ForkErrno)

inductive Action : Type where
  /-- A piece of data is read or written by the client, or by the server. -/
  | clientPiece (n : Nat)
  | serverPiece (n : Nat)
  | client (d : ClientDecision)
  | server (d : ServerDecision)

/-- A translator whose last call has returned. -/
def Connection.translator (c : Connection) : Option Translator :=
  match c.client with
  | .ret (.returned t _ _) => some t
  | _ => none

/-- The decisions of a client. In server mode 0, the configs sent say so. -/
def clientDecides (conns : List Connection) (p : ClientPoint) (d : ClientDecision) :
    Option (Prog Item ClientPoint) :=
  match p, d with
  | .unused false, .init tsc => if tsc.serverMode = 0#32 then some (translatorInit tsc) else none
  | .unused true, .threadInit tsc =>
      if tsc.serverMode = 0#32 then some (translatorThreadInit tsc) else none
  | .unused true, .forkFinalize parent =>
      (conns[parent]?.bind Connection.translator).map
        (fun t => .ret (.returned t .forkFinalize (.code 0)))
  | .returned t c res, .call c' => if mayFollow c res c' then call t c' else none
  | .writing t addr _ bufSz, .page mem => some (writePage t addr bufSz mem)
  | .allocating t c sz, .alloc pagesz ok => some (allocated pagesz t c sz ok)
  | _, _ => none

/-- The decisions of a server; `next` is the number of the connection a fork makes. -/
def serverDecides (next : Nat) (p : ServerPoint) (d : ServerDecision) :
    Option (Prog Item ServerPoint) :=
  match p, d with
  | .initialising s, .initialise iwcc obj => some (runInitialised s iwcc obj)
  | .translating s addr, .readPage pageAddr => some (translateRead s addr pageAddr)
  | .translating s _, .translated oc => some (translateEnd s oc)
  | .forking s, .fork (some err) => some (answerFork s (.error err))
  | .forking s, .fork none => some (answerFork s (.ok next))
  | _, _ => none

def ClientDecision.requests : ClientDecision → List Word
  | .call (.get addr) => [addr]
  | _ => []

def answers : ServerPoint → ServerDecision → List (Word × List Byte)
  | .translating _ addr, .translated oc => [(addr, oc.object.val)]
  | _, _ => []

def Connection.step (conns : List Connection) (c : Connection) (a : Action) : Option Connection :=
  match a with
  | .clientPiece n =>
      (c.client.step ClientPoint.next n c.toClient).map (fun (p, i, o) =>
        { c with client := p, toClient := i, toServer := c.toServer ++ o })
  | .serverPiece n =>
      (c.server.step ServerPoint.next n c.toServer).map (fun (p, i, o) =>
        { c with server := p, toServer := i, toClient := c.toClient ++ o })
  | .client d =>
      match c.client with
      | .ret p => (clientDecides conns p d).map (fun q =>
          { c with client := q, requested := c.requested ++ d.requests })
      | _ => none
  | .server d =>
      match c.server with
      | .ret p => (serverDecides conns.length p d).map (fun q =>
          { c with server := q, answered := c.answered ++ answers p d })
      | _ => none

/-- The connection that a fork makes. The child server closes the parent's socket and
goes on with the loop. -/
def forked (c : Connection) (a : Action) : List Connection :=
  match c.server, a with
  | .ret (.forking s), .server (.fork none) => [⟨.ret (.unused true), .ret (.looping s), [], [], [], []⟩]
  | _, _ => []

def step (conns : List Connection) (a : Nat × Action) : Option (List Connection) := do
  let c ← conns[a.1]?
  let c' ← c.step conns a.2
  some (conns.set a.1 c' ++ forked c a.2)

/-- The server has started the client. -/
def started : List Connection := [⟨.ret (.unused false), Server.run Server.start, [], [], [], []⟩]

/-- A piece that a `recvmsg` of the connection takes is all it asks for. -/
def Connection.RecvmsgWhole (c : Connection) : Action → Prop
  | .clientPiece n => c.client.Whole n
  | .serverPiece n => c.server.Whole n
  | .client _ | .server _ => True

instance (c : Connection) : ∀ a, Decidable (c.RecvmsgWhole a)
  | .clientPiece n => inferInstanceAs (Decidable (c.client.Whole n))
  | .serverPiece n => inferInstanceAs (Decidable (c.server.Whole n))
  | .client _ | .server _ => .isTrue trivial

def RecvmsgWhole (conns : List Connection) (a : Nat × Action) : Prop :=
  ∀ c ∈ conns[a.1]?, c.RecvmsgWhole a.2

instance (conns : List Connection) (a : Nat × Action) : Decidable (RecvmsgWhole conns a) :=
  inferInstanceAs (Decidable (∀ c ∈ conns[a.1]?, c.RecvmsgWhole a.2))

/-- What must hold of a connection. A program fails where an assertion of the source
does, where something is read as a header that was not written as one, and where
something is read as content that was not written as content. -/
structure InStep (c : Connection) : Prop where
  client_ok : c.client ≠ .fail
  server_ok : c.server ≠ .fail
  server_runs : ∀ code, c.server ≠ .ret (.exited code)
  returned : ∀ t k res, c.client = .ret (.returned t k res) →
    t.lastHdr = .none ∧ res ≠ .code (-eproto)
  object : ∀ t addr obj, c.client = .ret (.returned t (.get addr) (.object obj)) →
    c.answered.map Prod.fst = c.requested ∧ c.answered.getLast? = some (addr, obj)

/-! ## The states of rest -/

/-- Every request has been answered. -/
def Settled (requested : List Word) (answered : List (Word × List Byte)) : Prop :=
  answered.map Prod.fst = requested

/-- If the call was a translation, `obj` is what was sent for it. -/
def IsAnswer (answered : List (Word × List Byte)) (c : Call) (obj : List Byte) : Prop :=
  ∀ addr, c = .get addr → answered.getLast? = some (addr, obj)

/-- The states in which both programs of a connection are at rest, each with the input it
has not read. -/
inductive Quiet (requested : List Word) (answered : List (Word × List Byte)) :
    Prog Item ClientPoint → List Item → Prog Item ServerPoint → List Item → Prop where
  | unused (s : IWConnection) : s.recvSz = 0#32 → Settled requested answered →
      Quiet requested answered (.ret (.unused false)) [] (Server.run s) []
  | forked (s : IWConnection) : Idle s → Settled requested answered →
      Quiet requested answered (.ret (.unused true)) [] (runLoop s) []
  /-- The server has read the `C_INIT`, and the client may already wait for the answer. -/
  | initialising (t : Translator) (s : IWConnection) :
      t.lastHdr = .none → s.recvSz = 0#32 → s.needIwcc = true → Settled requested answered →
      Quiet requested answered (.ret (.returned t .init (.code 0))) [] (.ret (.initialising s)) []
  | awaitingConfig (t : Translator) (s : IWConnection) :
      t.lastHdr = .none → s.recvSz = 0#32 → s.needIwcc = true → Settled requested answered →
      Quiet requested answered (translatorConfigFetch t) [] (.ret (.initialising s)) []
  /-- Config and object wait to be fetched. -/
  | configSent (t : Translator) (s : IWConnection) (c : Call) (cfg : List Byte) (obj : Obj) :
      t.lastHdr = .none → Idle s → c = .init ∨ c = .threadInit → cfg.length = configSize →
      Settled requested answered →
      Quiet requested answered (.ret (.returned t c (.code 0)))
        (frame .sInit cfg ++ frame .sObject obj.val) (runLoop s) []
  | objectSent (t : Translator) (s : IWConnection) (cfg : List Byte) (obj : Obj) :
      t.lastHdr = .none → Idle s → Settled requested answered →
      Quiet requested answered (.ret (.returned t .configFetch (.config cfg)))
        (frame .sObject obj.val) (runLoop s) []
  /-- The header of an object has been read, the object has not. -/
  | allocating (t : Translator) (s : IWConnection) (c : Call) (obj : List Byte) :
      t.lastHdr = .none → Idle s → c = .getObject ∨ (∃ addr, c = .get addr) →
      Settled requested answered → IsAnswer answered c obj →
      Quiet requested answered (.ret (.allocating t c obj.length)) (payload obj) (runLoop s) []
  /-- There was no memory for an object, which is left on the socket. -/
  | outOfMemory (t : Translator) (s : IWConnection) (c : Call) (rest : List Item) :
      t.lastHdr = .none → Idle s → c = .getObject ∨ (∃ addr, c = .get addr) →
      Settled requested answered →
      Quiet requested answered (.ret (.returned t c (.code (-enomem)))) rest (runLoop s) []
  /-- Both are done with the last call. -/
  | ready (t : Translator) (s : IWConnection) (c : Call) (res : Result) :
      t.lastHdr = .none → Idle s → ready c res = true → res ≠ .code (-eproto) →
      Settled requested answered → (∀ obj, res = .object obj → IsAnswer answered c obj) →
      Quiet requested answered (.ret (.returned t c res)) [] (runLoop s) []
  | translating (t : Translator) (s : IWConnection) (addr : Word) :
      t.lastHdr = .none → Idle s → requested = answered.map Prod.fst ++ [addr] →
      Quiet requested answered (translatorGetLoop t addr) [] (.ret (.translating s addr)) []
  /-- The page is about to be written, and the server waits for it. -/
  | writing (t : Translator) (s : IWConnection) (addr page : Word) :
      t.lastHdr = .none → Idle s → requested = answered.map Prod.fst ++ [addr] →
      Quiet requested answered (.ret (.writing t addr page 0x1000)) [] (awaitPage s addr) []
  | forking (t : Translator) (s : IWConnection) :
      t.lastHdr = .none → Idle s → Settled requested answered →
      Quiet requested answered (recvFork t) [] (.ret (.forking s)) []

/-- The two programs of a connection come to rest in one of these states. -/
def Connection.Good (c : Connection) : Prop :=
  Meets ClientPoint.next ServerPoint.next (Quiet c.requested c.answered)
    c.client c.toClient c.server c.toServer

variable {requested : List Word} {answered : List (Word × List Byte)}
variable {l : Prog Item ClientPoint} {r : Prog Item ServerPoint} {il ir : List Item}

theorem runLoop_atRest {s : IWConnection} (hs : Idle s) :
    AtRest ServerPoint.next (runLoop s) [] :=
  ((recvMsg_waits hs.recvSz).bind _).atRest

theorem Quiet.client_atRest (h : Quiet requested answered l il r ir) :
    AtRest ClientPoint.next l il := by
  cases h with
  | awaitingConfig t _ ht => exact ((translatorHdrRecv_waits ht .sInit).bind _).atRest
  | translating t _ _ ht => exact ((translatorHdrRecv_waits ht .sMemreq).bind _).atRest
  | forking t _ ht => exact ((translatorHdrRecv_waits ht .sFd).bind _).atRest
  | _ => exact rfl

theorem Quiet.server_atRest (h : Quiet requested answered l il r ir) :
    AtRest ServerPoint.next r ir := by
  cases h with
  | unused s hs => exact ((recvMsg_waits hs).bind _).atRest
  | writing => exact (awaitPage_waits _ _).atRest
  | initialising | awaitingConfig | translating | forking => exact rfl
  | forked _ hs | configSent _ _ _ _ _ _ hs | objectSent _ _ _ _ _ hs | allocating _ _ _ _ _ hs
  | outOfMemory _ _ _ _ _ hs | ready _ _ _ _ _ hs => exact runLoop_atRest hs

theorem Quiet.meets {outL outR : List Item} {l' : Prog Item ClientPoint} {r' : Prog Item ServerPoint}
    {restL restR : List Item} (hq : Quiet requested answered l' restL r' restR)
    (hl : Reaches ClientPoint.next l (il ++ outR) outL l' restL)
    (hr : Reaches ServerPoint.next r (ir ++ outL) outR r' restR) :
    Meets ClientPoint.next ServerPoint.next (Quiet requested answered) l il r ir :=
  ⟨outL, outR, l', restL, r', restR, hl, hr, hq.client_atRest, hq.server_atRest, hq⟩

/-- The client only reads what is there. -/
theorem Quiet.meets_of_read {l' : Prog Item ClientPoint} {restL : List Item}
    (hq : Quiet requested answered l' restL r ir)
    (hl : Reaches ClientPoint.next l il [] l' restL) :
    Meets ClientPoint.next ServerPoint.next (Quiet requested answered) l il r ir := by
  rw [← List.append_nil il] at hl
  refine hq.meets hl ?_
  rw [List.append_nil]
  exact .refl _ _

/-! ## The client's decisions -/

section Client

variable {t : Translator} {s : IWConnection}

theorem meets_init (hs : s.recvSz = 0#32) (hset : Settled requested answered)
    {tsc : ServerConfig} (hmode : tsc.serverMode = 0#32) :
    Meets ClientPoint.next ServerPoint.next (Quiet requested answered)
      (translatorInit tsc) [] (Server.run s) [] := by
  obtain ⟨s', hsz, hneed, hrun⟩ := run_runs hs tsc
  rw [hmode, beq_self_eq_true] at hneed
  exact (Quiet.initialising _ s' rfl hsz hneed hset).meets
    (sendInit_runs .init tsc).reaches_ret hrun.reaches_ret

theorem meets_threadInit (hs : Idle s) (hset : Settled requested answered)
    {tsc : ServerConfig} (hmode : tsc.serverMode = 0#32) :
    Meets ClientPoint.next ServerPoint.next (Quiet requested answered)
      (translatorThreadInit tsc) [] (runLoop s) [] := by
  obtain ⟨s', iwcc, hidle, hrun⟩ := runLoop_init hs.recvSz hmode
  exact (Quiet.configSent _ s' .threadInit iwcc.bytes .empty rfl hidle (.inr rfl)
    iwcc.length_bytes hset).meets ((sendInit_runs .threadInit tsc).leaves _) (hrun.goes_on rfl)

theorem meets_configFetch (ht : t.lastHdr = .none) (hs : Idle s)
    (hset : Settled requested answered) {cfg : List Byte} (hcfg : cfg.length = configSize)
    (obj : Obj) :
    Meets ClientPoint.next ServerPoint.next (Quiet requested answered)
      (translatorConfigFetch t) (frame .sInit cfg ++ frame .sObject obj.val) (runLoop s) [] :=
  (Quiet.objectSent t s cfg obj ht hs hset).meets_of_read
    ((translatorConfigFetch_runs ht hcfg).leaves _)

/-- An object that has been found is handed over, or waits for its buffer. -/
theorem quiet_of_fetched {c : Call} {obj : List Byte} (hs : Idle s)
    (hc : c = .getObject ∨ ∃ addr, c = .get addr) (hset : Settled requested answered)
    (hans : IsAnswer answered c obj) (h : Fetched c obj l il) :
    Quiet requested answered l il (runLoop s) [] := by
  cases h with
  | unread t ht => exact .allocating t s c obj ht hs hc hset hans
  | read t ht =>
      refine .ready t s c (.object obj) ht hs ?_ (by simp) hset ?_
      · rcases hc with rfl | ⟨addr, rfl⟩ <;> rfl
      · rintro _ ⟨⟩
        exact hans

theorem meets_getObject (ht : t.lastHdr = .none) (hs : Idle s)
    (hset : Settled requested answered) (obj : Obj) :
    Meets ClientPoint.next ServerPoint.next (Quiet requested answered)
      (translatorGetObject t .getObject) (frame .sObject obj.val) (runLoop s) [] := by
  obtain ⟨p, rest, hfetched, hreaches⟩ := translatorGetObject_reaches ht .getObject obj.property
  refine (quiet_of_fetched hs (.inl rfl) hset ?_ hfetched).meets_of_read hreaches
  rintro addr ⟨⟩

theorem meets_allocated {c : Call} {obj : List Byte} (ht : t.lastHdr = .none) (hs : Idle s)
    (hc : c = .getObject ∨ ∃ addr, c = .get addr) (hset : Settled requested answered)
    (hans : IsAnswer answered c obj) (pagesz : Nat) (ok : Bool) :
    Meets ClientPoint.next ServerPoint.next (Quiet requested answered)
      (allocated pagesz t c obj.length ok) (payload obj) (runLoop s) [] := by
  cases ok with
  | false =>
      exact (Quiet.outOfMemory t s c (payload obj) ht hs hc hset).meets_of_read (.refl _ _)
  | true =>
      have hread : Fetched c obj _ [] :=
        .read { t with recvbufSz := recvbufSize pagesz obj.length } ht
      exact (quiet_of_fetched hs hc hset hans hread).meets_of_read
        ((recvPayload_runs obj).map _).reaches_ret

theorem meets_get (ht : t.lastHdr = .none) (hs : Idle s) (hset : Settled requested answered)
    (addr : Word) :
    Meets ClientPoint.next ServerPoint.next (Quiet (requested ++ [addr]) answered)
      (translatorGet t addr) [] (runLoop s) [] := by
  have hreq : requested ++ [addr] = answered.map Prod.fst ++ [addr] := by rw [hset]
  exact (Quiet.translating t s addr ht hs hreq).meets (translatorGet_reaches ht addr)
    (runLoop_translate hs.recvSz addr).reaches_ret

theorem meets_forkPrepare (ht : t.lastHdr = .none) (hs : Idle s)
    (hset : Settled requested answered) :
    Meets ClientPoint.next ServerPoint.next (Quiet requested answered)
      (translatorForkPrepare t) [] (runLoop s) [] :=
  (Quiet.forking t s ht hs hset).meets (translatorForkPrepare_reaches ht)
    (runLoop_fork hs.recvSz).reaches_ret

theorem meets_writePage (ht : t.lastHdr = .none) (hs : Idle s) {addr : Word}
    (hreq : requested = answered.map Prod.fst ++ [addr]) (mem : Option (Nat → Byte)) :
    Meets ClientPoint.next ServerPoint.next (Quiet requested answered)
      (writePage t addr 0x1000 mem) [] (awaitPage s addr) [] :=
  (Quiet.translating t s addr ht hs hreq).meets
    ((writePage_runs t addr 0x1000 mem).goes_on rfl)
    (awaitPage_runs hs.recvSz addr _ (length_membuf 0x1000 mem)).reaches_ret

end Client

/-! ## The server's decisions -/

section Server

variable {t : Translator} {s : IWConnection}

theorem meets_runInitialised (ht : t.lastHdr = .none) (hsz : s.recvSz = 0#32)
    (hneed : s.needIwcc = true) (hset : Settled requested answered) (iwcc : ClientConfig) (obj : Obj) :
    Meets ClientPoint.next ServerPoint.next (Quiet requested answered)
      (.ret (.returned t .init (.code 0))) [] (runInitialised s iwcc obj) [] :=
  (Quiet.configSent t { s with iwcc := iwcc, needIwcc := false } .init iwcc.bytes obj ht ⟨hsz, rfl⟩
    (.inl rfl) iwcc.length_bytes hset).meets (.refl _ _) ((runInitialised_runs hneed iwcc obj).goes_on rfl)

theorem meets_runInitialised_awaiting (ht : t.lastHdr = .none) (hsz : s.recvSz = 0#32)
    (hneed : s.needIwcc = true) (hset : Settled requested answered) (iwcc : ClientConfig) (obj : Obj) :
    Meets ClientPoint.next ServerPoint.next (Quiet requested answered)
      (translatorConfigFetch t) [] (runInitialised s iwcc obj) [] :=
  (Quiet.objectSent t { s with iwcc := iwcc, needIwcc := false } iwcc.bytes obj ht ⟨hsz, rfl⟩
    hset).meets
    ((translatorConfigFetch_runs ht iwcc.length_bytes).leaves _)
    ((runInitialised_runs hneed iwcc obj).goes_on rfl)

theorem meets_translateRead (ht : t.lastHdr = .none) (hs : Idle s) {addr : Word}
    (hreq : requested = answered.map Prod.fst ++ [addr]) (page : Word) :
    Meets ClientPoint.next ServerPoint.next (Quiet requested answered)
      (translatorGetLoop t addr) [] (translateRead s addr page) [] :=
  (Quiet.writing t s addr page ht hs hreq).meets
    (translatorGetLoop_memreq ht addr page).reaches_ret (translateRead_reaches hs.recvSz addr page)

theorem meets_translateEnd (ht : t.lastHdr = .none) (hs : Idle s) {addr : Word}
    (hreq : requested = answered.map Prod.fst ++ [addr]) (oc : Outcome) :
    Meets ClientPoint.next ServerPoint.next (Quiet requested (answered ++ [(addr, oc.object.val)]))
      (translatorGetLoop t addr) [] (translateEnd s oc) [] := by
  obtain ⟨p, rest, hfetched, hreaches⟩ := translatorGetLoop_object ht addr oc.object.property
  refine (quiet_of_fetched hs (.inr ⟨addr, rfl⟩) ?_ ?_ hfetched).meets hreaches
    ((translateEnd_runs hs.needIwcc oc).goes_on rfl)
  · rw [Settled, List.map_append, hreq]
    rfl
  · rintro _ ⟨⟩
    exact List.getLast?_concat

theorem meets_answerFork_error (ht : t.lastHdr = .none) (hs : Idle s)
    (hset : Settled requested answered) (err : ForkErrno) :
    Meets ClientPoint.next ServerPoint.next (Quiet requested answered)
      (recvFork t) [] (answerFork s (.error err)) [] := by
  have hne : Result.code (-err.num) ≠ .code (-eproto) := by cases err <;> decide
  refine (Quiet.ready t s .forkPrepare (.code (-err.num)) ht hs rfl hne hset (by simp)).meets
    (recvFork_error ht ?_ ?_ ?_).reaches_ret ((answerFork_error s err).goes_on rfl) <;>
    cases err <;> decide

theorem meets_answerFork_ok (ht : t.lastHdr = .none) (hs : Idle s)
    (hset : Settled requested answered) (conn : Nat) :
    Meets ClientPoint.next ServerPoint.next (Quiet requested answered)
      (recvFork t) [] (answerFork s (.ok conn)) [] :=
  (Quiet.ready t s .forkPrepare (.fd conn) ht hs rfl (by simp) hset (by simp)).meets
    (recvFork_fd ht conn).reaches_ret ((answerFork_ok s conn).goes_on rfl)

end Server

/-! ## Any step -/

variable {conns : List Connection} {d : ClientDecision} {e : ServerDecision}

theorem clientDecides_unused {q : Prog Item ClientPoint}
    (hd : clientDecides conns (.unused false) d = some q) :
    ∃ tsc, d.requests = [] ∧ tsc.serverMode = 0#32 ∧ q = translatorInit tsc := by
  cases d with
  | init tsc =>
      rw [clientDecides] at hd
      split_ifs at hd with hmode
      cases hd
      exact ⟨tsc, rfl, hmode, rfl⟩
  | _ => cases hd

theorem clientDecides_forked {q : Prog Item ClientPoint}
    (hd : clientDecides conns (.unused true) d = some q) :
    d.requests = [] ∧ ((∃ tsc, tsc.serverMode = 0#32 ∧ q = translatorThreadInit tsc) ∨
      ∃ t, (∃ c ∈ conns, c.translator = some t) ∧ q = .ret (.returned t .forkFinalize (.code 0))) := by
  cases d with
  | threadInit tsc =>
      rw [clientDecides] at hd
      split_ifs at hd with hmode
      cases hd
      exact ⟨rfl, .inl ⟨tsc, hmode, rfl⟩⟩
  | forkFinalize parent =>
      obtain ⟨t, hparent, rfl⟩ := Option.map_eq_some_iff.mp hd
      obtain ⟨c, hc, htr⟩ := Option.bind_eq_some_iff.mp hparent
      exact ⟨rfl, .inr ⟨t, ⟨c, List.mem_of_getElem? hc, htr⟩, rfl⟩⟩
  | _ => cases hd

/-- What the client does after `init`, until the answer is there. -/
theorem clientDecides_init {t : Translator} {c : Call} {q : Prog Item ClientPoint}
    (hc : c = .init ∨ c = .threadInit)
    (hd : clientDecides conns (.returned t c (.code 0)) d = some q) :
    d.requests = [] ∧ q = translatorConfigFetch t := by
  cases d with
  | call k => rcases hc with rfl | rfl <;> cases k <;> cases hd <;> exact ⟨rfl, rfl⟩
  | _ => cases hd

theorem clientDecides_configFetch {t : Translator} {cfg : List Byte} {q : Prog Item ClientPoint}
    (hd : clientDecides conns (.returned t .configFetch (.config cfg)) d = some q) :
    d.requests = [] ∧ q = translatorGetObject t .getObject := by
  cases d with
  | call k => cases k <;> cases hd; exact ⟨rfl, rfl⟩
  | _ => cases hd

theorem clientDecides_ready {t : Translator} {c : Call} {res : Result} {q : Prog Item ClientPoint}
    (hready : ready c res = true) (hd : clientDecides conns (.returned t c res) d = some q) :
    (∃ addr, d.requests = [addr] ∧ q = translatorGet t addr) ∨
      (d.requests = [] ∧ q = translatorForkPrepare t) := by
  cases d with
  | call k =>
      cases c <;> cases res <;> cases hready <;> cases k <;> cases hd <;>
        first | exact .inl ⟨_, rfl, rfl⟩ | exact .inr ⟨rfl, rfl⟩
  | _ => cases hd

/-- A translator that could not fetch an object is not used again. -/
theorem clientDecides_outOfMemory {t : Translator} {c : Call}
    (hc : c = .getObject ∨ ∃ addr, c = .get addr) :
    clientDecides conns (.returned t c (.code (-enomem))) d = none := by
  cases d with
  | call k => rcases hc with rfl | ⟨addr, rfl⟩ <;> cases k <;> rfl
  | _ => rfl

/-- From a state of rest, a decision of the client leads to one. -/
theorem Quiet.meets_clientDecides {p : ClientPoint} {q : Prog Item ClientPoint}
    (hconns : ∀ c ∈ conns, ∀ t, c.translator = some t → t.lastHdr = .none)
    (h : Quiet requested answered (.ret p) il r ir) (hd : clientDecides conns p d = some q) :
    Meets ClientPoint.next ServerPoint.next (Quiet (requested ++ d.requests) answered) q il r ir := by
  generalize hl : Prog.ret p = l at h
  cases h with
  | awaitingConfig t _ ht => exact absurd hl (((translatorHdrRecv_waits ht .sInit).bind _).ne_ret p)
  | translating t _ _ ht => exact absurd hl (((translatorHdrRecv_waits ht .sMemreq).bind _).ne_ret p)
  | forking t _ ht => exact absurd hl (((translatorHdrRecv_waits ht .sFd).bind _).ne_ret p)
  | unused s hs hset =>
      cases hl
      obtain ⟨tsc, hnil, hmode, rfl⟩ := clientDecides_unused hd
      rw [hnil, List.append_nil]
      exact meets_init hs hset hmode
  | forked s hs hset =>
      cases hl
      obtain ⟨hnil, ⟨tsc, hmode, rfl⟩ | ⟨t, ⟨c, hc, htr⟩, rfl⟩⟩ := clientDecides_forked hd
      · rw [hnil, List.append_nil]
        exact meets_threadInit hs hset hmode
      · rw [hnil, List.append_nil]
        exact (Quiet.ready t s .forkFinalize (.code 0) (hconns c hc t htr) hs rfl (by decide) hset
          (by simp)).meets_of_read (.refl _ _)
  | initialising t s ht hsz hneed hset =>
      cases hl
      obtain ⟨hnil, rfl⟩ := clientDecides_init (.inl rfl) hd
      rw [hnil, List.append_nil]
      exact (Quiet.awaitingConfig t s ht hsz hneed hset).meets_of_read (.refl _ _)
  | configSent t s c cfg obj ht hs hc hcfg hset =>
      cases hl
      obtain ⟨hnil, rfl⟩ := clientDecides_init hc hd
      rw [hnil, List.append_nil]
      exact meets_configFetch ht hs hset hcfg obj
  | objectSent t s cfg obj ht hs hset =>
      cases hl
      obtain ⟨hnil, rfl⟩ := clientDecides_configFetch hd
      rw [hnil, List.append_nil]
      exact meets_getObject ht hs hset obj
  | allocating t s c obj ht hs hc hset hans =>
      cases hl
      cases d with
      | alloc pagesz ok =>
          cases hd
          show Meets _ _ (Quiet (requested ++ []) answered) _ _ _ _
          rw [List.append_nil]
          exact meets_allocated ht hs hc hset hans pagesz ok
      | _ => cases hd
  | outOfMemory t s c rest ht hs hc hset =>
      cases hl
      rw [clientDecides_outOfMemory hc] at hd
      cases hd
  | ready t s c res ht hs hready hne hset hans =>
      cases hl
      obtain ⟨addr, hreq, rfl⟩ | ⟨hnil, rfl⟩ := clientDecides_ready hready hd
      · rw [hreq]
        exact meets_get ht hs hset addr
      · rw [hnil, List.append_nil]
        exact meets_forkPrepare ht hs hset
  | writing t s addr page ht hs hreq =>
      cases hl
      cases d with
      | page mem =>
          cases hd
          show Meets _ _ (Quiet (requested ++ []) answered) _ _ _ _
          rw [List.append_nil]
          exact meets_writePage ht hs hreq mem
      | _ => cases hd

/-- From a state of rest, a decision of the server leads to one. -/
theorem Quiet.meets_serverDecides {next : Nat} {p : ServerPoint} {q : Prog Item ServerPoint}
    (h : Quiet requested answered l il (.ret p) ir) (hd : serverDecides next p e = some q) :
    Meets ClientPoint.next ServerPoint.next (Quiet requested (answered ++ answers p e)) l il q ir := by
  generalize hr : Prog.ret p = r at h
  cases h with
  | unused s hs => exact absurd hr (((recvMsg_waits hs).bind _).ne_ret p)
  | writing => exact absurd hr ((awaitPage_waits _ _).ne_ret p)
  | forked _ hs | configSent _ _ _ _ _ _ hs | objectSent _ _ _ _ _ hs | allocating _ _ _ _ _ hs
  | outOfMemory _ _ _ _ _ hs | ready _ _ _ _ _ hs =>
      exact absurd hr (((recvMsg_waits hs.recvSz).bind _).ne_ret p)
  | initialising t s ht hsz hneed hset =>
      cases hr
      cases e with
      | initialise iwcc obj =>
          cases hd
          show Meets _ _ (Quiet requested (answered ++ [])) _ _ _ _
          rw [List.append_nil]
          exact meets_runInitialised ht hsz hneed hset iwcc obj
      | _ => cases hd
  | awaitingConfig t s ht hsz hneed hset =>
      cases hr
      cases e with
      | initialise iwcc obj =>
          cases hd
          show Meets _ _ (Quiet requested (answered ++ [])) _ _ _ _
          rw [List.append_nil]
          exact meets_runInitialised_awaiting ht hsz hneed hset iwcc obj
      | _ => cases hd
  | translating t s addr ht hs hreq =>
      cases hr
      cases e with
      | readPage page =>
          cases hd
          show Meets _ _ (Quiet requested (answered ++ [])) _ _ _ _
          rw [List.append_nil]
          exact meets_translateRead ht hs hreq page
      | translated oc =>
          cases hd
          exact meets_translateEnd ht hs hreq oc
      | _ => cases hd
  | forking t s ht hs hset =>
      cases hr
      cases e with
      | fork res =>
          show Meets _ _ (Quiet requested (answered ++ [])) _ _ _ _
          rw [List.append_nil]
          cases res with
          | some err =>
              cases hd
              exact meets_answerFork_error ht hs hset err
          | none =>
              cases hd
              exact meets_answerFork_ok ht hs hset next
      | _ => cases hd

/-- What a call that has returned leaves behind. -/
theorem Quiet.returned {t : Translator} {k : Call} {res : Result}
    (h : Quiet requested answered (.ret (.returned t k res)) il r ir) :
    t.lastHdr = .none ∧ res ≠ .code (-eproto) ∧
      ∀ addr obj, k = .get addr → res = .object obj →
        answered.map Prod.fst = requested ∧ answered.getLast? = some (addr, obj) := by
  generalize hl : Prog.ret (ClientPoint.returned t k res) = l at h
  cases h with
  | awaitingConfig t _ ht => exact absurd hl (((translatorHdrRecv_waits ht .sInit).bind _).ne_ret _)
  | translating t _ _ ht => exact absurd hl (((translatorHdrRecv_waits ht .sMemreq).bind _).ne_ret _)
  | forking t _ ht => exact absurd hl (((translatorHdrRecv_waits ht .sFd).bind _).ne_ret _)
  | unused | forked | allocating | writing => cases hl
  | initialising _ _ ht | configSent _ _ _ _ _ ht | outOfMemory _ _ _ _ ht =>
      cases hl
      exact ⟨ht, by decide, by simp⟩
  | objectSent _ _ _ _ ht =>
      cases hl
      exact ⟨ht, by simp, by simp⟩
  | ready _ _ _ _ ht _ _ hne hset hans =>
      cases hl
      refine ⟨ht, hne, ?_⟩
      rintro addr obj rfl rfl
      exact ⟨hset, hans obj rfl addr rfl⟩

/-- The points where a server is at rest. -/
def AtRestPoint : ServerPoint → Prop
  | .initialising _ | .translating _ _ => True
  | .forking s => Idle s
  | .looping _ | .exited _ => False

theorem Quiet.server_point {p : ServerPoint} (h : Quiet requested answered l il (.ret p) ir) :
    AtRestPoint p := by
  generalize hr : Prog.ret p = r at h
  cases h with
  | unused s hs => exact absurd hr (((recvMsg_waits hs).bind _).ne_ret _)
  | writing => exact absurd hr ((awaitPage_waits _ _).ne_ret _)
  | forked _ hs | configSent _ _ _ _ _ _ hs | objectSent _ _ _ _ _ hs | allocating _ _ _ _ _ hs
  | outOfMemory _ _ _ _ _ hs | ready _ _ _ _ _ hs =>
      exact absurd hr (((recvMsg_waits hs.recvSz).bind _).ne_ret _)
  | initialising | awaitingConfig | translating =>
      cases hr
      trivial
  | forking _ _ _ hs =>
      cases hr
      exact hs

theorem Connection.Good.inStep {c : Connection} (h : c.Good) : InStep c where
  client_ok := h.left_ne_fail
  server_ok := h.right_ne_fail
  server_runs := by
    intro code hserver
    rw [Good, hserver] at h
    obtain ⟨_, _, _, hq⟩ := h.right_ret rfl
    exact hq.server_point
  returned := by
    intro t k res hclient
    rw [Good, hclient] at h
    obtain ⟨_, _, _, hq⟩ := h.left_ret rfl
    exact ⟨hq.returned.1, hq.returned.2.1⟩
  object := by
    intro t addr obj hclient
    rw [Good, hclient] at h
    obtain ⟨_, _, _, hq⟩ := h.left_ret rfl
    exact hq.returned.2.2 addr obj rfl rfl

theorem Connection.Good.lastHdr {c : Connection} (h : c.Good) {t : Translator}
    (ht : c.translator = some t) : t.lastHdr = .none := by
  unfold Connection.translator at ht
  split at ht
  · next t' k res hclient =>
      cases ht
      exact (h.inStep.returned _ _ _ hclient).1
  · cases ht

theorem clientDecides_next {p : ClientPoint} {q : Prog Item ClientPoint}
    (hd : clientDecides conns p d = some q) : p.next = none := by
  cases p with
  | looping => cases hd
  | _ => rfl

theorem serverDecides_next {next : Nat} {p : ServerPoint} {q : Prog Item ServerPoint}
    (hd : serverDecides next p e = some q) : p.next = none := by
  cases p with
  | looping => cases hd
  | _ => rfl

theorem Connection.Good.clientDecides {c : Connection} (h : c.Good) {p : ClientPoint}
    {q : Prog Item ClientPoint} (hconns : ∀ c ∈ conns, c.Good) (hp : c.client = .ret p)
    (hd : System.clientDecides conns p d = some q) :
    Connection.Good { c with client := q, requested := c.requested ++ d.requests } := by
  rw [Good, hp] at h
  exact h.resume_left (clientDecides_next hd) (fun _ _ _ hq =>
    hq.meets_clientDecides (fun c hc t ht => (hconns c hc).lastHdr ht) hd)

theorem Connection.Good.serverDecides {c : Connection} (h : c.Good) {next : Nat} {p : ServerPoint}
    {q : Prog Item ServerPoint} (hp : c.server = .ret p)
    (hd : System.serverDecides next p e = some q) :
    Connection.Good { c with server := q, answered := c.answered ++ answers p e } := by
  rw [Good, hp] at h
  exact h.resume_right (serverDecides_next hd) (fun _ _ _ hq => hq.meets_serverDecides hd)

/-- One step, of one connection. -/
theorem Connection.Good.step {c c' : Connection} {a : Action} (h : c.Good)
    (hconns : ∀ c ∈ conns, c.Good) (hwhole : c.RecvmsgWhole a)
    (hs : c.step conns a = some c') : c'.Good := by
  cases a with
  | clientPiece n =>
      obtain ⟨⟨p, i, o⟩, hstep, rfl⟩ := Option.map_eq_some_iff.mp hs
      exact h.step_left hstep hwhole
  | serverPiece n =>
      obtain ⟨⟨p, i, o⟩, hstep, rfl⟩ := Option.map_eq_some_iff.mp hs
      exact h.step_right hstep hwhole
  | client d =>
      simp only [Connection.step] at hs
      split at hs
      · next p hp =>
          obtain ⟨q, hd, rfl⟩ := Option.map_eq_some_iff.mp hs
          exact h.clientDecides hconns hp hd
      · cases hs
  | server e =>
      simp only [Connection.step] at hs
      split at hs
      · next p hp =>
          obtain ⟨q, hd, rfl⟩ := Option.map_eq_some_iff.mp hs
          exact h.serverDecides hp hd
      · cases hs

/-- The connection of a fork is in a state of rest from the start. -/
theorem Connection.Good.forked {c : Connection} (h : c.Good) (a : Action) :
    ∀ c' ∈ System.forked c a, c'.Good := by
  intro c' hc'
  unfold System.forked at hc'
  split at hc'
  · next s hserver =>
      rw [List.mem_singleton] at hc'
      subst hc'
      rw [Good, hserver] at h
      obtain ⟨_, _, _, hq⟩ := h.right_ret rfl
      have hs : Idle s := hq.server_point
      have hset : Settled [] [] := rfl
      have hunused : Reaches ClientPoint.next (.ret (.unused true)) ([] ++ []) []
          (.ret (.unused true)) [] := .refl _ _
      exact (Quiet.forked s hs hset).meets hunused (.cont rfl (.refl _ _))
  · cases hc'

def AllGood (conns : List Connection) : Prop := ∀ c ∈ conns, c.Good

theorem allGood_started : AllGood started := by
  intro c hc
  obtain rfl := List.mem_singleton.mp hc
  have hset : Settled [] [] := rfl
  exact (Quiet.unused Server.start rfl hset).meets_of_read (.refl _ _)

theorem allGood_step (conns : List Connection) (a : Nat × Action) (conns' : List Connection)
    (h : AllGood conns) (hwhole : RecvmsgWhole conns a) (hs : step conns a = some conns') :
    AllGood conns' := by
  obtain ⟨c, hc, hs⟩ := Option.bind_eq_some_iff.mp hs
  obtain ⟨c', hc', hs⟩ := Option.bind_eq_some_iff.mp hs
  obtain rfl := Option.some.inj hs
  have hgood := h c (List.mem_of_getElem? hc)
  intro d hd
  rcases List.mem_append.mp hd with hset | hfork
  · rcases List.mem_or_eq_of_mem_set hset with hold | rfl
    · exact h d hold
    · exact hgood.step h (hwhole c hc) hc'
  · exact hgood.forked a.2 d hfork

/-- **Client and server stay in step.** In every state of every run in which each
`recvmsg` takes all that it asks for, no client call has failed with `-EPROTO` or left a
header put back, no assertion has failed and nothing was read as a header or as content
that was not written as such, every server is running, and a translation has returned
the object that was sent for it. -/
theorem connections_in_step (as : List (Nat × Action)) {conns : List Connection}
    (hwhole : AllSteps step RecvmsgWhole started as)
    (hrun : Lib.Run.run step started as = some conns) :
    ∀ c ∈ conns, InStep c := by
  have hgood : AllGood conns :=
    Lib.Run.run_invariant_of allGood_step as allGood_started hwhole hrun
  exact fun c hc => (hgood c hc).inStep

/-- A client that sets itself up, gets a translation and forks, with every message moved in
one piece but the content of `S_FD`, of which the client's `recvmsg` takes `n` bytes. -/
def forkRun (n : Nat) : List (Nat × Action) :=
  [.client (.init ⟨0#32, 0#32, 0#32, 0#32, 0#32⟩), .clientPiece 8, .clientPiece 20,
    .serverPiece 8, .serverPiece 20,
    .server (.initialise ⟨0#32, 0#32, 0#32, 0#32, 0#32⟩ .empty), .serverPiece 8, .serverPiece 20,
    .serverPiece 8, .serverPiece 0, .serverPiece 0,
    .client (.call .configFetch), .clientPiece 8, .clientPiece 20,
    .client (.call .getObject), .clientPiece 8, .client (.alloc 0x1000 true), .clientPiece 0,
    .client (.call (.get 0x401000#64)), .clientPiece 8, .clientPiece 8, .serverPiece 8, .serverPiece 8,
    .server (.translated (.decoded none (some ⟨[0xc3#8], by decide⟩))), .serverPiece 8, .serverPiece 1,
    .serverPiece 0, .clientPiece 8, .client (.alloc 0x1000 true), .clientPiece 1,
    .client (.call .forkPrepare), .clientPiece 8, .serverPiece 8,
    .server (.fork none), .serverPiece 8, .serverPiece 4,
    .clientPiece 8, .clientPiece n].map (fun a => (0, a))

/-- The result of the last call of the first connection's client. -/
def lastResult (conns : List Connection) : Option Result :=
  match conns with
  | ⟨.ret (.returned _ _ res), _, _, _, _, _⟩ :: _ => some res
  | _ => none

theorem mem_of_lastResult {conns : List Connection} {res : Result}
    (h : lastResult conns = some res) :
    ∃ c ∈ conns, ∃ t k, c.client = .ret (.returned t k res) := by
  unfold lastResult at h
  split at h
  · cases h
    exact ⟨_, List.mem_cons_self, _, _, rfl⟩
  · cases h

/-- Taken whole, the content of `S_FD` gives the new connection. -/
theorem connections_in_step_fork : ∃ conns, Lib.Run.run step started (forkRun 4) = some conns ∧
    lastResult conns = some (.fd 1) ∧
    conns.map Connection.answered = [[(0x401000#64, [0xc3#8])], []] ∧ ∀ c ∈ conns, InStep c := by
  have hrun : ((Lib.Run.run step started (forkRun 4)).map fun conns =>
      (lastResult conns, conns.map Connection.answered)) =
        some (some (.fd 1), [[(0x401000#64, [0xc3#8])], []]) := by
    decide
  obtain ⟨conns, hconns, hlast⟩ := Option.map_eq_some_iff.mp hrun
  obtain ⟨hlast, hanswered⟩ := Prod.mk.inj hlast
  exact ⟨conns, hconns, hlast, hanswered, connections_in_step (forkRun 4) (by decide) hconns⟩

/-- A `recvmsg` that yields two of the four bytes makes `translator_fork_prepare` fail. -/
theorem short_recvmsg_eproto : ∃ conns, Lib.Run.run step started (forkRun 2) = some conns ∧
    lastResult conns = some (.code (-eproto)) ∧ ¬ ∀ c ∈ conns, InStep c := by
  have hrun : (Lib.Run.run step started (forkRun 2)).bind lastResult = some (.code (-eproto)) := by
    decide
  obtain ⟨conns, hconns, hlast⟩ := Option.bind_eq_some_iff.mp hrun
  refine ⟨conns, hconns, hlast, fun hall => ?_⟩
  obtain ⟨c, hc, t, k, hclient⟩ := mem_of_lastResult hlast
  exact ((hall c hc).returned t k _ hclient).2 rfl

end Instrew.System
