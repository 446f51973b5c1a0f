import Instrew.Lib.Bytes
import Instrew.Lib.Dialogue

/-!
# Messages between client and server

The frames of `instrew-protocol.inc`: a header of a message id and a size, and that many
bytes. What is on a socket is a list of bytes, each with a mark of what it was written
as (`Item`). The programs do not see the mark: it is there for two assertions, that
what is read as a header was written as one (`recvHdr`) and what is read as content was
written as content (`recvPayload`).
-/

namespace Instrew

open Instrew.Lib.Bytes
open Instrew.Lib.Dialogue

inductive MsgId : Type where
  | unknown
  | cExit
  | cTranslate
  | sMemreq
  | cMembuf
  | sObject
  | cInit
  | sInit
  | cFork
  | sFd
  deriving DecidableEq

def MsgId.num : MsgId → BitVec 32
  | .unknown => 0#32
  | .cExit => 1#32
  | .cTranslate => 2#32
  | .sMemreq => 3#32
  | .cMembuf => 4#32
  | .sObject => 5#32
  | .cInit => 9#32
  | .sInit => 10#32
  | .cFork => 11#32
  | .sFd => 12#32

/-- `TranslatorMsgHdr` of the client and `Msg::Hdr` of the server; the size is an
`int32_t`. -/
structure MsgHdr : Type where
  id : BitVec 32
  sz : BitVec 32
  deriving DecidableEq

def MsgHdr.mk' (id : MsgId) (sz : Nat) : MsgHdr := ⟨id.num, BitVec.ofNat 32 sz⟩

@[simp] theorem MsgHdr.id_mk' (id : MsgId) (sz : Nat) : (MsgHdr.mk' id sz).id = id.num := rfl

theorem MsgHdr.toInt_sz (id : MsgId) {sz : Nat} (hsz : sz ≤ 0x7fffffff) :
    (MsgHdr.mk' id sz).sz.toInt = sz := by
  rw [MsgHdr.mk', BitVec.toInt_ofNat', Int.bmod_eq_of_le] <;> omega

/-- The value of `last_hdr` when no header has been put back. -/
def MsgHdr.none : MsgHdr := .mk' .unknown 0

def MsgHdr.bytes (h : MsgHdr) : List Byte := le 4 h.id.toNat ++ le 4 h.sz.toNat

def MsgHdr.ofBytes (l : List Byte) : MsgHdr :=
  ⟨BitVec.ofNat 32 (unle (l.take 4)), BitVec.ofNat 32 (unle (l.drop 4))⟩

theorem MsgHdr.ofBytes_bytes (h : MsgHdr) : MsgHdr.ofBytes h.bytes = h := by
  rw [MsgHdr.ofBytes, MsgHdr.bytes, List.take_left' (length_le 4 _), List.drop_left' (length_le 4 _),
    ofNat_unle_le (by norm_num), ofNat_unle_le (by norm_num)]

/-! ## Configurations -/

/-- `TranslatorServerConfig` and `IWServerConfig`: what a client sends with `C_INIT`. -/
structure ServerConfig : Type where
  guestArch : BitVec 32
  hostArch : BitVec 32
  hostCpuFeatures : BitVec 32
  serverMode : BitVec 32
  stackAlignment : BitVec 32

/-- `TranslatorConfig` and `IWClientConfig`: what the server answers with `S_INIT`. -/
structure ClientConfig : Type where
  callconv : BitVec 32
  profile : BitVec 32
  perf : BitVec 32
  printTrace : BitVec 32
  printRegs : BitVec 32

/-- The size of either of them. -/
def configSize : Nat := 20

def int32s (l : List (BitVec 32)) : List Byte := l.flatMap (fun x => le 4 x.toNat)

def ServerConfig.bytes (c : ServerConfig) : List Byte :=
  int32s [c.guestArch, c.hostArch, c.hostCpuFeatures, c.serverMode, c.stackAlignment]

def ClientConfig.bytes (c : ClientConfig) : List Byte :=
  int32s [c.callconv, c.profile, c.perf, c.printTrace, c.printRegs]

def int32At (l : List Byte) (off : Nat) : BitVec 32 := BitVec.ofNat 32 (unle ((l.drop off).take 4))

def ServerConfig.ofBytes (l : List Byte) : ServerConfig :=
  ⟨int32At l 0, int32At l 4, int32At l 8, int32At l 12, int32At l 16⟩

theorem ServerConfig.length_bytes (c : ServerConfig) : c.bytes.length = configSize := by
  simp [bytes, int32s, configSize]

theorem ClientConfig.length_bytes (c : ClientConfig) : c.bytes.length = configSize := by
  simp [bytes, int32s, configSize]

theorem ServerConfig.serverMode_ofBytes (c : ServerConfig) :
    (ofBytes c.bytes).serverMode = c.serverMode := by
  have hdrop : c.bytes.drop 12 = le 4 c.serverMode.toNat ++ le 4 c.stackAlignment.toNat := rfl
  show int32At c.bytes 12 = c.serverMode
  rw [int32At, hdrop, List.take_left' (length_le 4 _), ofNat_unle_le (by norm_num)]

/-! ## What is on a socket -/

inductive Mark : Type where
  /-- A byte of a header, by its place in it. -/
  | header (pos : Nat)
  | payload
  /-- A byte of content that a file descriptor was sent with: the socket of the
  connection with this number. -/
  | rights (conn : Nat)
  deriving DecidableEq

def Mark.isHeader : Mark → Bool
  | .header _ => true
  | .payload | .rights _ => false

structure Item : Type where
  byte : Byte
  mark : Mark
  deriving DecidableEq

def Item.fd? (x : Item) : Option Nat :=
  match x.mark with
  | .rights c => some c
  | .header _ | .payload => none

def headerMarks : List Mark := (List.range 8).map .header

def MsgHdr.items (h : MsgHdr) : List Item :=
  (h.bytes.zip headerMarks).map (fun x => ⟨x.1, x.2⟩)

def payload (l : List Byte) : List Item := l.map (fun b => ⟨b, .payload⟩)

/-- Content that a file descriptor is sent with. -/
def payloadWithFd (conn : Nat) : List Byte → List Item
  | [] => []
  | b :: l => ⟨b, .rights conn⟩ :: payload l

/-- A message as it is on the socket. -/
def frame (id : MsgId) (l : List Byte) : List Item := (MsgHdr.mk' id l.length).items ++ payload l

/-- Read a header: what is read must have been written as one. -/
def recvHdr : Prog Item MsgHdr :=
  .recv 8 (fun l =>
    if l.map Item.mark = headerMarks then .ret (MsgHdr.ofBytes (l.map Item.byte)) else .fail)

/-- Read content: what is read must have been written as content. -/
def recvPayload (n : Nat) : Prog Item (List Byte) :=
  .recv n (fun l => if ∀ x ∈ l, x.mark = .payload then .ret (l.map Item.byte) else .fail)

/-- Read content by a single `recvmsg`, with the file descriptor it may come with. -/
def recvMsgContent (n : Nat) : Prog Item (List Item) :=
  .recvOnce n (fun l => if ∀ x ∈ l, x.mark.isHeader = false then .ret l else .fail)

theorem recvHdr_waits : recvHdr.Waits := by
  show 0 < 8
  decide

theorem MsgHdr.length_bytes (h : MsgHdr) : h.bytes.length = headerMarks.length := by
  rw [MsgHdr.bytes, List.length_append, length_le, length_le]
  rfl

theorem recvHdr_runs (h : MsgHdr) : Runs recvHdr h.items [] h := by
  have hmark : h.items.map Item.mark = headerMarks := by
    rw [MsgHdr.items, List.map_map]
    exact List.map_snd_zip h.length_bytes.ge
  have hbyte : h.items.map Item.byte = h.bytes := by
    rw [MsgHdr.items, List.map_map]
    exact List.map_fst_zip h.length_bytes.le
  have hlen : h.items.length = 8 := by
    have hmarks := congrArg List.length hmark
    rwa [List.length_map] at hmarks
  rw [← List.append_nil h.items]
  refine .recv hlen ?_
  rw [if_pos hmark, hbyte, MsgHdr.ofBytes_bytes]
  exact .refl _ _

theorem byte_payload (l : List Byte) : (payload l).map Item.byte = l := by
  rw [payload, List.map_map]
  exact List.map_id l

theorem recvPayload_runs (l : List Byte) : Runs (recvPayload l.length) (payload l) [] l := by
  rw [← List.append_nil (payload l)]
  refine .recv (List.length_map _) ?_
  rw [if_pos (by simp [payload]), byte_payload]
  exact .refl _ _

theorem isHeader_payload (l : List Byte) : ∀ x ∈ payload l, x.mark.isHeader = false := by
  intro x hx
  obtain ⟨b, -, rfl⟩ := List.mem_map.mp hx
  rfl

theorem isHeader_payloadWithFd (conn : Nat) (l : List Byte) :
    ∀ x ∈ payloadWithFd conn l, x.mark.isHeader = false := by
  cases l with
  | nil => exact fun x hx => absurd hx List.not_mem_nil
  | cons b l => exact List.forall_mem_cons.mpr ⟨rfl, isHeader_payload l⟩

theorem recvMsgContent_runs {l : List Item} (h : ∀ x ∈ l, x.mark.isHeader = false) :
    Runs (recvMsgContent l.length) l [] l := by
  have hrun : Runs (recvMsgContent l.length) (l ++ []) [] l := by
    refine Reaches.recvOnce rfl ?_
    rw [if_pos h]
    exact .refl _ _
  rwa [List.append_nil] at hrun

end Instrew
