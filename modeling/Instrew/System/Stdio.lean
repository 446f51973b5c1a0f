import Instrew.System.Protocol
import Instrew.Server.Stdio

/-!
# Client and server with the server's buffer

The connections of `Instrew.System.Protocol` with the server's messages going through the
buffer of a `FILE`. A fork copies the buffer; the child closes its copy of the `FILE`, which
writes what the copy holds to the parent's socket.

`buffer_unobservable` says that none of this can be seen: the connections are always those of
the protocol, with the buffer as what is last on its way to the client, and a server that
waits or forks has nothing in its buffer. What holds of the protocol in every reachable state
holds with the buffer.
-/

namespace Instrew.System.Stdio

open Instrew.Lib.Dialogue
open Instrew.Lib.Run (run)
open Instrew.Client
open Instrew.Server (IWConnection ServerPoint)
open Instrew.Server.Stdio (WrSz)

structure BConnection : Type where
  client : Prog Item ClientPoint
  server : BProg Item (ServerPoint × WrSz)
  buf : List Item
  toClient : List Item
  toServer : List Item
  requested : List Word
  answered : List (Word × List Byte)

/-- The connection without the buffer. -/
def BConnection.toConnection (c : BConnection) : Connection where
  client := c.client
  server := c.server.erase Prod.fst
  toClient := c.toClient ++ c.buf
  toServer := c.toServer
  requested := c.requested
  answered := c.answered

inductive BAction : Type where
  | clientPiece (n : Nat)
  | server (mv : BProg.Move)
  | clientDecides (d : ClientDecision)
  | serverDecides (d : ServerDecision)

def serverDecides (next : Nat) (p : ServerPoint × WrSz) (d : ServerDecision) :
    Option (BProg Item (ServerPoint × WrSz)) :=
  match p, d with
  | (.initialising s, wrSz), .initialise iwcc obj =>
      some (Server.Stdio.runInitialised s wrSz iwcc obj)
  | (.translating s addr, _), .readPage pageAddr =>
      some (Server.Stdio.translateRead s addr pageAddr)
  | (.translating s _, wrSz), .translated oc => some (Server.Stdio.translateEnd s wrSz oc)
  | (.forking s, _), .fork (some err) => some (Server.Stdio.answerFork s (.error err))
  | (.forking s, _), .fork none => some (Server.Stdio.answerFork s (.ok next))
  | _, _ => none

/-- What the child of a fork writes to the parent's socket when it closes its copy of the
`FILE`. -/
def childCloses (buf : List Item) : ServerDecision → List Item
  | .fork none => buf
  | .initialise .. | .readPage _ | .translated _ | .fork (some _) => []

def BConnection.step (conns : List BConnection) (c : BConnection) (a : BAction) :
    Option BConnection :=
  match a with
  | .clientPiece n =>
      (c.client.step ClientPoint.next n c.toClient).map (fun (p, i, o) =>
        { c with client := p, toClient := i, toServer := c.toServer ++ o })
  | .server mv =>
      (c.server.step Server.Stdio.next c.toServer c.buf mv).map (fun (p, buf, i, o) =>
        { c with server := p, buf := buf, toServer := i, toClient := c.toClient ++ o })
  | .clientDecides d =>
      match c.client with
      | .ret p => (clientDecides (conns.map BConnection.toConnection) p d).map (fun q =>
          { c with client := q, requested := c.requested ++ d.requests })
      | _ => none
  | .serverDecides d =>
      match c.server with
      | .ret p => (serverDecides conns.length p d).map (fun q =>
          { c with
            server := q
            toClient := c.toClient ++ childCloses c.buf d
            answered := c.answered ++ answers p.1 d })
      | _ => none

/-- The connection that a fork makes. The child has a new `FILE` and goes on with the loop. -/
def forked (c : BConnection) (a : BAction) : List BConnection :=
  match c.server, a with
  | .ret (.forking s, wrSz), .serverDecides (.fork none) =>
      [⟨.ret (.unused true), .ret (.looping s, wrSz), [], [], [], [], []⟩]
  | _, _ => []

def step (conns : List BConnection) (a : Nat × BAction) : Option (List BConnection) := do
  let c ← conns[a.1]?
  let c' ← c.step conns a.2
  some (conns.set a.1 c' ++ forked c a.2)

/-- The server has started the client; `wr_hdr` is not initialised. -/
def started (wrSz : WrSz) : List BConnection :=
  [⟨.ret (.unused false), Server.Stdio.run Server.start wrSz, [], [], [], [], []⟩]

/-! ## The buffer is empty where it must be -/

/-- The server's program and its buffer agree. -/
def BConnection.Ok (c : BConnection) : Prop := c.server.Ok c.buf

theorem serverDecides_drains {next : Nat} {p : ServerPoint × WrSz} {d : ServerDecision}
    {q : BProg Item (ServerPoint × WrSz)} (h : serverDecides next p d = some q) :
    BProg.Drains BProg.Clean false q := by
  unfold serverDecides at h
  split at h
  · cases h
    exact Server.Stdio.runInitialised_drains _ _ _ _
  · cases h
    exact Server.Stdio.translateRead_drains _ _ _
  · cases h
    exact Server.Stdio.translateEnd_drains _ _ _
  · cases h
    exact Server.Stdio.answerFork_drains _ _
  · cases h
    exact Server.Stdio.answerFork_drains _ _
  · cases h

theorem serverDecides_erase {next : Nat} {p : ServerPoint × WrSz} {d : ServerDecision}
    {q : BProg Item (ServerPoint × WrSz)} (h : serverDecides next p d = some q) :
    System.serverDecides next p.1 d = some (q.erase Prod.fst) := by
  unfold serverDecides at h
  split at h
  · cases h
    exact congrArg some (Server.Stdio.runInitialised_erase _ _ _ _).symm
  · cases h
    exact congrArg some (Server.Stdio.translateRead_erase _ _ _).symm
  · cases h
    exact congrArg some (Server.Stdio.translateEnd_erase _ _ _).symm
  · cases h
    exact congrArg some (Server.Stdio.answerFork_erase _ _).symm
  · cases h
    exact congrArg some (Server.Stdio.answerFork_erase _ _).symm
  · cases h

theorem BConnection.Ok.forked {c : BConnection} {a : BAction} :
    ∀ child ∈ Stdio.forked c a, child.Ok := by
  intro child hchild
  unfold Stdio.forked at hchild
  split at hchild
  · cases List.mem_singleton.mp hchild
    exact ⟨false, rfl, fun _ => rfl⟩
  · cases hchild

/-- Only a server's decision forks. -/
theorem forked_eq_nil {c : BConnection} {a : BAction} (h : ∀ d, a ≠ .serverDecides d) :
    forked c a = [] := by
  unfold forked
  split
  · exact absurd rfl (h _)
  · rfl

theorem forked_eq_map_nil {c : BConnection} {a : BAction} {a' : Action}
    (h : ∀ d, a ≠ .serverDecides d) (h' : ∀ d, a' ≠ .server d) :
    System.forked c.toConnection a' = (forked c a).map BConnection.toConnection := by
  rw [forked_eq_nil h, List.map_nil]
  unfold System.forked
  split
  · exact absurd rfl (h' _)
  · rfl

theorem forked_toConnection {c : BConnection} {p : ServerPoint × WrSz} (hserver : c.server = .ret p)
    (d : ServerDecision) :
    System.forked c.toConnection (.server d) =
      (forked c (.serverDecides d)).map BConnection.toConnection := by
  obtain ⟨point, wrSz⟩ := p
  have herase : c.toConnection.server = .ret point := by
    rw [BConnection.toConnection, hserver, BProg.erase]
  unfold System.forked forked
  rw [hserver, herase]
  cases point with
  | forking s =>
      cases d with
      | fork err => cases err <;> rfl
      | initialise | readPage | translated => rfl
  | looping | initialising | translating | exited => rfl

theorem childCloses_nil (d : ServerDecision) : childCloses [] d = [] := by
  unfold childCloses
  split <;> rfl

/-! ## Steps and runs -/

/-- A step of a connection is a step of the protocol, or moves items out of the buffer. -/
theorem BConnection.step_simulates {conns : List BConnection} {c c' : BConnection} {a : BAction}
    (hok : c.Ok) (h : c.step conns a = some c') :
    c'.Ok ∧ ((c'.toConnection = c.toConnection ∧ forked c a = []) ∨
      ∃ a', c.toConnection.step (conns.map BConnection.toConnection) a' = some c'.toConnection ∧
        System.forked c.toConnection a' = (forked c a).map BConnection.toConnection) := by
  cases a with
  | clientPiece n =>
      obtain ⟨⟨p, i, o⟩, hp, rfl⟩ := Option.map_eq_some_iff.mp h
      refine ⟨hok, .inr ⟨.clientPiece n, ?_, ?_⟩⟩
      · have hlong := Prog.step_append hp c.buf
        simp only [Connection.step, toConnection, hlong, Option.map_some]
      · exact forked_eq_map_nil (by simp) (by simp)
  | server mv =>
      obtain ⟨⟨p, buf, i, o⟩, hp, rfl⟩ := Option.map_eq_some_iff.mp h
      refine ⟨BProg.Ok.step Server.Stdio.next_drains hok hp, ?_⟩
      rcases BProg.Ok.erase_step Server.Stdio.next_erase hok hp with
        ⟨hp', rfl, hbuf⟩ | ⟨n, o', hstep, hbuf⟩
      · refine .inl ⟨?_, forked_eq_nil (by simp)⟩
        simp only [toConnection, hp', List.append_assoc, hbuf]
      · refine .inr ⟨.serverPiece n, ?_, ?_⟩
        · simp only [Connection.step, toConnection, hstep, Option.map_some, List.append_assoc, hbuf]
        · exact forked_eq_map_nil (by simp) (by simp)
  | clientDecides d =>
      unfold BConnection.step at h
      dsimp only at h
      split at h
      next p hclient =>
        obtain ⟨q, hq, rfl⟩ := Option.map_eq_some_iff.mp h
        refine ⟨hok, .inr ⟨.client d, ?_, ?_⟩⟩
        · simp only [Connection.step, toConnection, hclient, hq, Option.map_some]
        · exact forked_eq_map_nil (by simp) (by simp)
      next => cases h
  | serverDecides d =>
      unfold BConnection.step at h
      dsimp only at h
      split at h
      next p hserver =>
        -- a server that decides has an empty buffer, so a child has nothing to write
        have hnil : c.buf = [] := hok.buf_eq_nil (by rw [hserver]; trivial)
        obtain ⟨q, hq, rfl⟩ := Option.map_eq_some_iff.mp h
        refine ⟨⟨false, serverDecides_drains hq, fun _ => hnil⟩,
          .inr ⟨.server d, ?_, forked_toConnection hserver d⟩⟩
        simp only [Connection.step, toConnection, hserver, BProg.erase, List.length_map,
          serverDecides_erase hq, Option.map_some, hnil, childCloses_nil, List.append_nil]
      next => cases h

/-- A step keeps the buffers in order and is a step of the protocol or none. -/
theorem step_simulates {conns conns' : List BConnection} {a : Nat × BAction}
    (hok : ∀ c ∈ conns, c.Ok) (h : step conns a = some conns') :
    (∀ c ∈ conns', c.Ok) ∧
      (conns'.map BConnection.toConnection = conns.map BConnection.toConnection ∨
        ∃ a', System.step (conns.map BConnection.toConnection) a' =
          some (conns'.map BConnection.toConnection)) := by
  obtain ⟨c, hc, h⟩ := Option.bind_eq_some_iff.mp h
  obtain ⟨c', hc', h⟩ := Option.bind_eq_some_iff.mp h
  cases h
  obtain ⟨hok', hsim⟩ := BConnection.step_simulates (hok c (List.mem_of_getElem? hc)) hc'
  constructor
  · intro child hchild
    rcases List.mem_append.mp hchild with hold | hnew
    · rcases List.mem_or_eq_of_mem_set hold with hold | rfl
      · exact hok child hold
      · exact hok'
    · exact BConnection.Ok.forked child hnew
  · rw [List.map_append, List.map_set]
    rcases hsim with ⟨hsame, hfork⟩ | ⟨a', hstep, hfork⟩
    · refine .inl ?_
      obtain ⟨hlt, rfl⟩ := List.getElem?_eq_some_iff.mp hc
      rw [hfork, hsame, ← List.map_set, List.set_getElem_self, List.map_nil, List.append_nil]
    · refine .inr ⟨(a.1, a'), ?_⟩
      simp only [System.step, List.getElem?_map, hc, Option.map_some, Option.bind_eq_bind,
        Option.bind_some, hstep, hfork]

/-- **The server's buffer cannot be seen.** Whatever the server has in its buffer, whenever
stdio writes a part of it, and whatever the fields of its header hold at the start, a run is a
run of the protocol without a buffer. A server that waits for its client or for a decision has
written all of its buffer, so that neither side waits for an answer the other one withholds,
and a fork has nothing to write twice. -/
theorem buffer_unobservable {wrSz : WrSz} {actions : List (Nat × BAction)}
    {conns : List BConnection} (hrun : run step (started wrSz) actions = some conns) :
    (∃ actions', run System.step System.started actions' =
        some (conns.map BConnection.toConnection)) ∧
      ∀ c ∈ conns, c.server.AtPoint → c.buf = [] := by
  have hstarted : (started wrSz).map BConnection.toConnection = System.started := by
    simp only [started, List.map_cons, List.map_nil, BConnection.toConnection,
      Server.Stdio.run_erase, System.started, List.append_nil]
  have hok : ∀ c ∈ started wrSz, c.Ok := by
    intro c hc
    cases List.mem_singleton.mp hc
    exact ⟨false, Server.Stdio.run_drains _ _, fun _ => rfl⟩
  obtain ⟨hok', actions', hrun'⟩ := Instrew.Lib.Run.run_simulates
    (fun _ _ _ => step_simulates) actions hok hrun
  rw [hstarted] at hrun'
  exact ⟨⟨actions', hrun'⟩, fun c hc => (hok' c hc).buf_eq_nil⟩

/-- A server that has answered `C_INIT` and has forked: it has put the header of its next
answer into the buffer, of which stdio has written three bytes. -/
def forkRun : List (Nat × BAction) :=
  [.clientDecides (.init ⟨0#32, 0#32, 0#32, 0#32, 0#32⟩), .clientPiece 8, .clientPiece 20,
    .server (.next 8), .server (.next 20),
    .serverDecides (.initialise ⟨0#32, 0#32, 0#32, 0#32, 0#32⟩ .empty), .server (.next 0),
    .server (.spill 3), .clientDecides (.call .configFetch), .clientPiece 2, .server (.next 0),
    .server (.spill 25), .server (.next 0), .server (.next 0), .server (.next 0), .server (.spill 8),
    .server (.next 0), .server (.next 0), .clientPiece 6, .clientPiece 20, .clientDecides (.call .getObject), .clientPiece 8,
    .clientDecides (.alloc 0x1000 true), .clientPiece 0,
    .clientDecides (.call .forkPrepare), .clientPiece 8, .server (.next 8),
    .serverDecides (.fork none), .server (.next 0), .server (.spill 3)].map (fun a => (0, a))

theorem buffer_unobservable_forkRun :
    ∃ conns, run step (started 7#32) forkRun = some conns ∧ conns.map (·.buf.length) = [5, 0] ∧
      (∃ actions', run System.step System.started actions' =
        some (conns.map BConnection.toConnection)) ∧
      ∀ c ∈ conns, c.server.AtPoint → c.buf = [] := by
  have hrun : (run step (started 7#32) forkRun).map (·.map (·.buf.length)) = some [5, 0] := by
    decide
  obtain ⟨conns, hconns, hlength⟩ := Option.map_eq_some_iff.mp hrun
  exact ⟨conns, hconns, hlength, buffer_unobservable hconns⟩

end Instrew.System.Stdio
