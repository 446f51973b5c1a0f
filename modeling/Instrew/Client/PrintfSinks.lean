import Instrew.Client.Printf
import Instrew.Lib.CodeMem

/-!
# Where formatted output goes

`vsnprintf` and `vdprintf` of `client/minilibc.c`: the helpers that `printf_driver` hands its chunks
to. The first stores as much of the text as there is room for, with a NUL behind it; the second
collects chunks in a buffer of 1024 bytes and writes it when the next one does not fit. Both keep
the text, whatever the chunks (`sinks_keep_text`); the length that `vsnprintf` returns is an `int`.
-/

namespace Instrew.Client.Printf

open Lib.ByteMem (Mem)
open Lib.CodeMem (writeBytes writeBytes_append map_range_writeBytes)

/-! ## A string -/

/-- `struct SPrintfHelperData`, with the memory it points to. Addresses count from `str`. -/
structure SPrintfHelperData : Type where
  mem : Mem
  buf : Nat
  len : Nat

/-- `sprintf_helper`. A length of 0 is no limit. -/
def sprintfHelper (data : SPrintfHelperData) (chunk : List Byte) : SPrintfHelperData :=
  if data.len = 0 then
    { data with mem := writeBytes data.mem data.buf chunk, buf := data.buf + chunk.length }
  else if chunk.length < data.len then
    ⟨writeBytes data.mem data.buf chunk, data.buf + chunk.length, data.len - chunk.length⟩
  else
    ⟨writeBytes data.mem data.buf (chunk.take (data.len - 1)), data.buf + (data.len - 1), 1⟩

/-- `bytes_written`. -/
def bytesWritten (chunks : List (List Byte)) : Nat := (chunks.map List.length).sum

/-- What `vsnprintf` does with the chunks: the memory afterwards, and the result, which is
converted to an `int`. -/
def vsnprintfChunks (mem : Mem) (size : Nat) (chunks : List (List Byte)) : Mem × Int :=
  let data := chunks.foldl sprintfHelper ⟨mem, 0, size⟩
  (writeBytes data.mem data.buf [0#8], (BitVec.ofNat 32 (bytesWritten chunks)).toInt)

def vsnprintf (strings : Word → Option (List Byte)) (mem : Mem) (size : Nat) (format : List Byte)
    (args : List Word) : Option (Mem × Int) :=
  (printfDriver strings format args).map fun r => vsnprintfChunks mem size r.1

/-- With a limit, the helper copies what leaves room for one byte. A limit of 1 is a full buffer. -/
theorem sprintfHelper_limited {data : SPrintfHelperData} (hlen : 1 ≤ data.len) (chunk : List Byte) :
    sprintfHelper data chunk =
      ⟨writeBytes data.mem data.buf (chunk.take (data.len - 1)),
        data.buf + (chunk.take (data.len - 1)).length,
        data.len - (chunk.take (data.len - 1)).length⟩ := by
  rw [sprintfHelper, if_neg (by omega)]
  by_cases hfits : chunk.length < data.len
  · rw [if_pos hfits, List.take_of_length_le (by omega)]
  · have hpart : (chunk.take (data.len - 1)).length = data.len - 1 := by
      rw [List.length_take]
      omega
    rw [if_neg hfits, hpart, Nat.sub_sub_self hlen]

/-- The data when `text` has come, with a limit of `size`. -/
def stored (mem : Mem) (size : Nat) (text : List Byte) : SPrintfHelperData :=
  let kept := text.take (size - 1)
  ⟨writeBytes mem 0 kept, kept.length, size - kept.length⟩

theorem sprintfHelper_stored (mem : Mem) {size : Nat} (hsize : 1 ≤ size) (text chunk : List Byte) :
    sprintfHelper (stored mem size text) chunk = stored mem size (text ++ chunk) := by
  have hkept : (text.take (size - 1)).length = min (size - 1) text.length := List.length_take
  have hlen : (stored mem size text).len = size - min (size - 1) text.length := by
    rw [stored, hkept]
  have hroom : (stored mem size text).len - 1 = size - 1 - text.length := by omega
  have happend := writeBytes_append mem 0 (text.take (size - 1))
    (chunk.take (size - 1 - text.length))
  rw [Nat.zero_add] at happend
  rw [sprintfHelper_limited (by omega), hroom]
  simp only [stored, List.take_append, List.length_append, happend, Nat.sub_add_eq]

theorem foldl_sprintfHelper (mem : Mem) {size : Nat} (hsize : 1 ≤ size)
    (chunks : List (List Byte)) :
    chunks.foldl sprintfHelper ⟨mem, 0, size⟩ = stored mem size chunks.flatten := by
  induction chunks using List.reverseRecOn with
  | nil =>
      have hnone : writeBytes mem 0 [] = mem := by
        funext o
        exact if_neg (by simp)
      simp [stored, hnone]
  | append_singleton chunks chunk ih =>
      rw [List.foldl_append, ih, List.foldl_cons, List.foldl_nil, sprintfHelper_stored mem hsize,
        List.flatten_append]
      simp

theorem bytesWritten_eq (chunks : List (List Byte)) :
    bytesWritten chunks = chunks.flatten.length := List.length_flatten.symm

/-- The memory after `vsnprintf`: the text as far as there is room, and a NUL. -/
theorem vsnprintfChunks_mem (mem : Mem) {size : Nat} (hsize : 1 ≤ size)
    (chunks : List (List Byte)) :
    (vsnprintfChunks mem size chunks).1 =
      writeBytes mem 0 (chunks.flatten.take (size - 1) ++ [0#8]) := by
  have happend := writeBytes_append mem 0 (chunks.flatten.take (size - 1)) [0#8]
  rw [Nat.zero_add] at happend
  rw [vsnprintfChunks, foldl_sprintfHelper mem hsize, ← happend]
  rfl

/-! ## A file -/

/-- `sizeof(data->buf)`. -/
def dprintfBufSize : Nat := 1024

/-- `struct DPrintfHelperData`, and what has been passed to `write`. -/
structure DPrintfHelperData : Type where
  off : Nat
  buf : Mem
  writes : List (List Byte)

namespace DPrintfHelperData

/-- The bytes in use of the buffer. -/
def held (data : DPrintfHelperData) : List Byte := (List.range data.off).map data.buf

def write (data : DPrintfHelperData) (bytes : List Byte) : DPrintfHelperData :=
  { data with writes := data.writes ++ [bytes] }

/-- The last call of `vdprintf`. -/
def finish (data : DPrintfHelperData) : DPrintfHelperData :=
  if data.off ≠ 0 then data.write data.held else data

end DPrintfHelperData

/-- `dprintf_helper`. -/
def dprintfHelper (data : DPrintfHelperData) (chunk : List Byte) : DPrintfHelperData :=
  if chunk.length ≤ dprintfBufSize - data.off then
    { data with buf := writeBytes data.buf data.off chunk, off := data.off + chunk.length }
  else
    let data := data.write data.held
    if chunk.length ≤ dprintfBufSize then
      { data with buf := writeBytes data.buf 0 chunk, off := chunk.length }
    else { data.write chunk with off := 0 }

/-- What `vdprintf` does with the chunks, in a buffer that holds anything: the calls of `write`. -/
def vdprintfChunks (buf : Mem) (chunks : List (List Byte)) : List (List Byte) :=
  (chunks.foldl dprintfHelper ⟨0, buf, []⟩).finish.writes

def vdprintf (strings : Word → Option (List Byte)) (buf : Mem) (format : List Byte)
    (args : List Word) : Option (List (List Byte)) :=
  (printfDriver strings format args).map fun r => vdprintfChunks buf r.1

/-- The text is what has been written and what the buffer holds. -/
structure Holds (text : List Byte) (data : DPrintfHelperData) : Prop where
  off_le : data.off ≤ dprintfBufSize
  text_eq : data.writes.flatten ++ data.held = text

theorem dprintfHelper_holds {text : List Byte} {data : DPrintfHelperData} (h : Holds text data)
    (chunk : List Byte) : Holds (text ++ chunk) (dprintfHelper data chunk) := by
  have hoff := h.off_le
  unfold dprintfHelper
  split_ifs with hfits hsmall
  · refine ⟨by simp only; omega, ?_⟩
    rw [← h.text_eq, List.append_assoc]
    congr 1
    exact map_range_writeBytes data.buf data.off chunk
  · refine ⟨hsmall, ?_⟩
    have hheld := map_range_writeBytes data.buf 0 chunk
    rw [Nat.zero_add] at hheld
    rw [← h.text_eq]
    simp [DPrintfHelperData.write, DPrintfHelperData.held, hheld]
  · refine ⟨Nat.zero_le _, ?_⟩
    rw [← h.text_eq]
    simp [DPrintfHelperData.write, DPrintfHelperData.held]

theorem foldl_dprintfHelper_holds (buf : Mem) (chunks : List (List Byte)) :
    Holds chunks.flatten (chunks.foldl dprintfHelper ⟨0, buf, []⟩) := by
  induction chunks using List.reverseRecOn with
  | nil => exact ⟨Nat.zero_le _, rfl⟩
  | append_singleton chunks chunk ih =>
      rw [List.foldl_append, List.flatten_append, List.flatten_singleton]
      exact dprintfHelper_holds ih chunk

theorem Holds.finish {text : List Byte} {data : DPrintfHelperData} (h : Holds text data) :
    data.finish.writes.flatten = text := by
  rw [← h.text_eq, DPrintfHelperData.finish]
  split_ifs with hoff
  · simp [DPrintfHelperData.write]
  · -- an empty buffer is not written
    rw [DPrintfHelperData.held, not_not.mp hoff]
    exact (List.append_nil _).symm

/-! ## Both -/

/-- For all chunks, `vsnprintf` stores the text as far as there is room and a NUL, `size` bytes at
most; it returns the total length as an `int`. What `vdprintf` writes is the text, and its index is
always in the buffer. -/
theorem sinks_keep_text (chunks : List (List Byte)) :
    (∀ (mem : Mem) (size : Nat), 1 ≤ size →
      let kept := chunks.flatten.take (min (size - 1) chunks.flatten.length) ++ [0#8]
      (vsnprintfChunks mem size chunks).1 = writeBytes mem 0 kept ∧ kept.length ≤ size ∧
        (vsnprintfChunks mem size chunks).2 =
          (BitVec.ofNat 32 chunks.flatten.length).toInt ∧
        ((vsnprintfChunks mem size chunks).2 = chunks.flatten.length ↔
          chunks.flatten.length < 2 ^ 31)) ∧
    ∀ buf : Mem, (vdprintfChunks buf chunks).flatten = chunks.flatten ∧
      ∀ pre, pre <+: chunks → (pre.foldl dprintfHelper ⟨0, buf, []⟩).off ≤ dprintfBufSize := by
  constructor
  · intro mem size hsize kept
    have hkept : kept = chunks.flatten.take (size - 1) ++ [0#8] := by
      rw [List.take_eq_take_min]
    have hresult : (vsnprintfChunks mem size chunks).2 =
        (BitVec.ofNat 32 chunks.flatten.length).toInt := by
      rw [vsnprintfChunks, bytesWritten_eq]
    refine ⟨?_, ?_, hresult, ?_⟩
    · rw [hkept, vsnprintfChunks_mem mem hsize]
    · rw [hkept, List.length_append, List.length_take, List.length_singleton]
      omega
    · rw [hresult]
      exact toInt_ofNat_eq_iff _
  · intro buf
    refine ⟨(foldl_dprintfHelper_holds buf chunks).finish, ?_⟩
    intro pre _
    exact (foldl_dprintfHelper_holds buf pre).off_le

/-- `%s` of a string of 2^31 bytes: the driver passes it on, and the result is negative. -/
theorem long_string_result_negative :
    let long := List.replicate (2 ^ 31) (ch 'a')
    printfDriver (fun _ => some long) (chars "%s") [0x1000#64] = some ([long], []) ∧
      ∀ mem : Mem, (vsnprintfChunks mem 16 [long]).2 = -2 ^ 31 := by
  intro long
  have hlong : long.length = 2 ^ 31 := List.length_replicate
  generalize long = text at hlong
  refine ⟨rfl, ?_⟩
  intro mem
  rw [vsnprintfChunks, bytesWritten_eq, List.flatten_singleton, hlong]
  exact (by decide : (BitVec.ofNat 32 (2 ^ 31)).toInt = -2 ^ 31)

section Text

variable {strings : Word → Option (List Byte)} {format : List Byte} {args : List Word}
  {text : List Byte}

/-- A text that the driver emits is what `vsnprintf` stores. -/
theorem vsnprintf_of_emits (h : Emits strings format args text) (mem : Mem) {size : Nat}
    (hsize : 1 ≤ size) :
    vsnprintf strings mem size format args =
      some (writeBytes mem 0 (text.take (size - 1) ++ [0#8]),
        (BitVec.ofNat 32 text.length).toInt) := by
  obtain ⟨chunks, hrun, rfl⟩ := h
  rw [vsnprintf, hrun, Option.map_some, ← vsnprintfChunks_mem mem hsize, ← bytesWritten_eq]
  rfl

/-- And it is what `vdprintf` writes. -/
theorem vdprintf_of_emits (h : Emits strings format args text) (buf : Mem) :
    ∃ writes, vdprintf strings buf format args = some writes ∧ writes.flatten = text := by
  obtain ⟨chunks, hrun, rfl⟩ := h
  refine ⟨vdprintfChunks buf chunks, ?_, (foldl_dprintfHelper_holds buf chunks).finish⟩
  rw [vdprintf, hrun]
  rfl

end Text

end Instrew.Client.Printf
