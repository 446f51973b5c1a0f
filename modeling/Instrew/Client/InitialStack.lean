import Instrew.Basic

/-!
# The initial stack of the guest

`main` of `client/main.c` from the stack block to the value it stores as the initial stack
pointer: the search for an `LD_LIBRARY_PATH` to replace, the slot count behind the padding
word, and the words that are pushed and filled in. Addresses are indices of words from the
start of the block. The texts of the variables are read only for their prefix.

There are two headlines. `initial_stack_decodes` reads the words back by the process-entry
layout and finds the program's arguments and environment, whatever the environment and the
sysroot are. `stack_aligned_iff` is about the pointer itself: the slot count and the number
of words pushed differ when an `LD_LIBRARY_PATH` is replaced, and then the guest starts
with a misaligned stack.
-/

namespace Instrew.Client.InitialStack

/-! ## What `main` starts from -/

/-- A pointer out of a list that ends with NULL. -/
abbrev Ptr : Type := { p : Word // p ≠ 0#64 }

/-- A string of `environ`: where it is, and its characters. -/
structure EnvString : Type where
  ptr : Ptr
  text : List Byte

/-- What the auxiliary vector is made of. -/
structure AuxInfo : Type where
  elfEntry : Word
  phdr : Word
  phent : Word
  phnum : Word
  platformString : Word
  getauxval : Word → Word

/-- The guest's `argv`, `environ`, the sysroot and the address of `sysroot_ldpath`. -/
structure Inputs : Type where
  argv : List Ptr
  environ : List EnvString
  sysroot : List Byte
  sysrootLdpath : Ptr
  aux : AuxInfo

/-! ## The replaced variable -/

/-- The characters of `LD_LIBRARY_PATH=`. -/
def ldLibraryPath : List Byte :=
  [0x4c#8, 0x44#8, 0x5f#8, 0x4c#8, 0x49#8, 0x42#8, 0x52#8, 0x41#8, 0x52#8, 0x59#8, 0x5f#8,
    0x50#8, 0x41#8, 0x54#8, 0x48#8, 0x3d#8]

def EnvString.IsLdpath (e : EnvString) : Prop := ldLibraryPath <+: e.text

instance (e : EnvString) : Decidable e.IsLdpath := inferInstanceAs (Decidable (_ <+: _))

/-- The loop over `environ`: every match replaces the one before. -/
def findLdpath : List EnvString → Nat → Option Nat → Option Nat
  | [], _, found => found
  | e :: es, ei, found => findLdpath es (ei + 1) (if e.IsLdpath then some ei else found)

namespace Inputs

variable (p : Inputs)

/-- `ldpath_env_index`; `none` is -1. -/
def ldpathEnvIndex : Option Nat :=
  if p.sysroot = [] then none else findLdpath p.environ 0 none

/-- `sysroot_ldpath_ptr`. -/
def sysrootLdpathPtr : Option Ptr := if p.sysroot = [] then none else some p.sysrootLdpath

def argc : Nat := p.argv.length

def envc : Nat := p.environ.length

/-! ## Slots -/

def extraEnv : Int :=
  if p.sysrootLdpathPtr.isSome ∧ p.ldpathEnvIndex = none then 1 else 0

def envSlots : Int := p.envc + p.extraEnv - if p.ldpathEnvIndex.isSome then 1 else 0

/-- The words left out for alignment, `(argc + env_slots) & 1`. -/
def padding : Int := (p.argc + p.envSlots) % 2

def actualEnvc : Int :=
  p.envc - if p.ldpathEnvIndex.isSome ∧ p.sysrootLdpathPtr.isSome then 1 else 0

/-- The auxiliary vector, in the order it is pushed: a type and its value. -/
def auxPairs : List (Word × Word) :=
  [(9#64, p.aux.elfEntry), (3#64, p.aux.phdr), (4#64, p.aux.phent), (5#64, p.aux.phnum),
    (15#64, p.aux.platformString), (25#64, p.aux.getauxval 25#64),
    (11#64, p.aux.getauxval 11#64), (12#64, p.aux.getauxval 12#64),
    (13#64, p.aux.getauxval 13#64), (14#64, p.aux.getauxval 14#64),
    (17#64, p.aux.getauxval 17#64), (6#64, p.aux.getauxval 6#64), (16#64, 0x8001#64),
    (26#64, 0#64), (23#64, 0#64)]

end Inputs

/-! ## Writing the frame -/

/-- `stack_top` and the words written so far, the latest first. -/
structure Frame : Type where
  top : Int
  writes : List (Int × Word)

namespace Frame

/-- What a word holds; `none` if it was never written. -/
def read (f : Frame) (a : Int) : Option Word := f.writes.lookup a

def write (f : Frame) (a : Int) (v : Word) : Frame := ⟨f.top, (a, v) :: f.writes⟩

/-- `stack_top -= n`. -/
def reserve (f : Frame) (n : Int) : Frame := ⟨f.top - n, f.writes⟩

/-- `*(--stack_top) = v`. -/
def push (f : Frame) (v : Word) : Frame := (f.reserve 1).write (f.top - 1) v

/-- `*(--stack_top) = value; *(--stack_top) = type`. -/
def pushAux (f : Frame) (pair : Word × Word) : Frame := (f.push pair.2).push pair.1

/-- The loop over `argv`, from index `i` on. -/
def fillArgv (f : Frame) : Nat → List Ptr → Frame
  | _, [] => f
  | i, a :: as => fillArgv (f.write (f.top + i) a.1) (i + 1) as

/-- The loop over `environ`, from index `i` and slot `dst` on. -/
def fillEnv (f : Frame) (ldpathEnvIndex : Option Nat) : Nat → Nat → List EnvString → Frame
  | _, _, [] => f
  | i, dst, e :: es =>
      if ldpathEnvIndex = some i then fillEnv f ldpathEnvIndex (i + 1) dst es
      else fillEnv (f.write (f.top + dst) e.ptr.1) ldpathEnvIndex (i + 1) (dst + 1) es

end Frame

/-- The words of a block of `STACK_SIZE` bytes. -/
def stackWords : Int := 0x1000000 / 8

/-- The injected variable, if there is one. -/
def pushLdpath (f : Frame) : Option Ptr → Frame
  | none => f
  | some ptr => f.push ptr.1

namespace Inputs

variable (p : Inputs)

/-- The padding and the auxiliary vector, with the end of the environment below it. -/
def auxFrame : Frame :=
  let f := (Frame.mk stackWords []).reserve p.padding
  let f := f.push 0#64
  (p.auxPairs.foldl Frame.pushAux f).push 0#64

/-- `main`, as far as it writes to the stack. -/
def stackFrame : Frame :=
  let f := pushLdpath p.auxFrame p.sysrootLdpathPtr
  let f := (f.reserve p.actualEnvc).fillEnv p.ldpathEnvIndex 0 0 p.environ
  let f := f.push 0#64
  let f := (f.reserve p.argc).fillArgv 0 p.argv
  f.push (BitVec.ofNat 64 p.argc)

/-- The `stack_top` that becomes the guest's stack pointer, for a block at `stack`. -/
def stackTop (stack : Word) : Word := stack + BitVec.ofInt 64 (8 * p.stackFrame.top)

end Inputs

/-! ## Reading a frame back -/

/-- What a guest finds on its stack. `atNull` is where the auxiliary vector ends. -/
structure ProcessEntry : Type where
  argc : Word
  argv : List Word
  envp : List Word
  auxv : List (Word × Word)
  atNull : Int
deriving DecidableEq

/-- Pointers up to NULL, and the address behind it, with at most `n` words read. -/
def readPtrs (mem : Int → Option Word) : Nat → Int → Option (List Word × Int)
  | 0, _ => none
  | n + 1, a => do
      let v ← mem a
      if v = 0#64 then return ([], a + 1)
      else
        let (vs, e) ← readPtrs mem n (a + 1)
        return (v :: vs, e)

/-- Pairs up to `AT_NULL`, and where that is. -/
def readAuxv (mem : Int → Option Word) : Nat → Int → Option (List (Word × Word) × Int)
  | 0, _ => none
  | n + 1, a => do
      let type ← mem a
      if type = 0#64 then return ([], a)
      else
        let value ← mem (a + 1)
        let (pairs, e) ← readAuxv mem n (a + 2)
        return ((type, value) :: pairs, e)

/-- The process-entry layout of the System V ABI, read upwards from the stack pointer. -/
def readEntry (mem : Int → Option Word) (n : Nat) (sp : Int) : Option ProcessEntry := do
  let argc ← mem sp
  let (argv, a) ← readPtrs mem n (sp + 1)
  let (envp, a) ← readPtrs mem n a
  let (auxv, atNull) ← readAuxv mem n a
  return ⟨argc, argv, envp, auxv, atNull⟩

/-- From `a` on the memory holds the words of the list. -/
def Reads (mem : Int → Option Word) : Int → List Word → Prop
  | _, [] => True
  | a, w :: ws => mem a = some w ∧ Reads mem (a + 1) ws

section Reads

variable {mem : Int → Option Word}

theorem reads_append : ∀ (xs ys : List Word) (a : Int),
    Reads mem a (xs ++ ys) ↔ Reads mem a xs ∧ Reads mem (a + xs.length) ys
  | [], ys, a => by simp [Reads]
  | x :: xs, ys, a => by
      have haddr : a + 1 + (xs.length : Int) = a + ((x :: xs).length : Int) := by
        rw [List.length_cons]
        push_cast
        ring
      rw [List.cons_append, Reads, Reads, reads_append xs ys, haddr, and_assoc]

theorem readPtrs_of_reads : ∀ (ptrs : List Word) (n : Nat) (a : Int), ptrs.length < n →
    (∀ v ∈ ptrs, v ≠ 0#64) → Reads mem a (ptrs ++ [0#64]) →
    readPtrs mem n a = some (ptrs, a + ptrs.length + 1)
  | [], n + 1, a, _, _, h => by
      rw [readPtrs, h.1]
      simp
  | v :: vs, n + 1, a, hn, hv, h => by
      have hrest := readPtrs_of_reads vs n (a + 1) (by simpa using hn)
        (fun w hw => hv w (List.mem_cons_of_mem _ hw)) h.2
      have hne : v ≠ 0#64 := hv v List.mem_cons_self
      rw [readPtrs, h.1]
      simp only [Option.bind_eq_bind, Option.bind_some, if_neg hne, hrest]
      rw [List.length_cons]
      push_cast
      congr 2
      ring

/-- The words of some pairs. -/
def pairWords (pairs : List (Word × Word)) : List Word := pairs.flatMap fun q => [q.1, q.2]

theorem readAuxv_of_reads : ∀ (pairs : List (Word × Word)) (n : Nat) (a : Int), pairs.length < n →
    (∀ q ∈ pairs, q.1 ≠ 0#64) → Reads mem a (pairWords pairs ++ [0#64]) →
    readAuxv mem n a = some (pairs, a + (pairWords pairs).length)
  | [], n + 1, a, _, _, h => by
      rw [readAuxv, h.1]
      simp [pairWords]
  | q :: qs, n + 1, a, hn, hq, h => by
      obtain ⟨htype, hvalue, hqs⟩ := h
      have htwo : a + 1 + 1 = a + 2 := by ring
      rw [htwo] at hqs
      have hrest := readAuxv_of_reads qs n (a + 2) (by simpa using hn)
        (fun r hr => hq r (List.mem_cons_of_mem _ hr)) hqs
      have hne : q.1 ≠ 0#64 := hq q List.mem_cons_self
      have hlen : ((pairWords (q :: qs)).length : Int) = 2 + (pairWords qs).length := by
        rw [pairWords, List.flatMap_cons, List.length_append, ← pairWords]
        push_cast
        rfl
      rw [readAuxv, htype]
      simp only [Option.bind_eq_bind, Option.bind_some, if_neg hne, hvalue, hrest, hlen]
      congr 2
      ring

/-- The words of a process entry, from the stack pointer on. -/
def entryWords (argc : Word) (argv envp : List Word) (auxv : List (Word × Word)) : List Word :=
  argc :: ((argv ++ [0#64]) ++ ((envp ++ [0#64]) ++ (pairWords auxv ++ [0#64])))

theorem readEntry_of_reads {argc : Word} {argv envp : List Word} {auxv : List (Word × Word)}
    {sp e : Int} {n : Nat} (hargv : ∀ v ∈ argv, v ≠ 0#64) (henvp : ∀ v ∈ envp, v ≠ 0#64)
    (hauxv : ∀ q ∈ auxv, q.1 ≠ 0#64) (hn : (entryWords argc argv envp auxv).length ≤ n)
    (he : sp + (entryWords argc argv envp auxv).length = e)
    (h : Reads mem sp (entryWords argc argv envp auxv)) :
    readEntry mem n sp = some ⟨argc, argv, envp, auxv, e - 1⟩ := by
  have hpairs : (pairWords auxv).length = 2 * auxv.length := by
    simp [pairWords, mul_comm]
  simp only [entryWords, List.length_cons, List.length_append, List.length_nil, hpairs] at hn he
  obtain ⟨hargc, hrest⟩ := h
  obtain ⟨hvs, hrest⟩ := (reads_append _ _ _).mp hrest
  obtain ⟨hes, hqs⟩ := (reads_append _ _ _).mp hrest
  rw [List.length_append, List.length_singleton] at hes hqs
  rw [List.length_append, List.length_singleton] at hqs
  push_cast at hes hqs
  rw [← add_assoc] at hes hqs
  rw [← add_assoc] at hqs
  have hnull : sp + 1 + argv.length + 1 + envp.length + 1 + (pairWords auxv).length = e - 1 := by
    rw [hpairs]
    omega
  rw [readEntry, hargc]
  simp only [Option.bind_eq_bind, Option.bind_some]
  rw [readPtrs_of_reads argv n _ (by omega) hargv hvs]
  simp only [Option.bind_some]
  rw [readPtrs_of_reads envp n _ (by omega) henvp hes]
  simp only [Option.bind_some]
  rw [readAuxv_of_reads auxv n _ (by omega) hauxv hqs, hnull]
  rfl

end Reads

/-! ## What the frame holds -/

/-- The frame is the words of the list and nothing else, written once each; the last word
is the one below `e`. -/
structure Holds (f : Frame) (e : Int) (ws : List Word) : Prop where
  top : f.top + ws.length = e
  reads : ∀ a, f.read a = if f.top ≤ a then ws[(a - f.top).toNat]? else none
  once : (f.writes.map Prod.fst).Nodup

namespace Frame

@[simp] theorem reserve_top (f : Frame) (n : Int) : (f.reserve n).top = f.top - n := rfl

@[simp] theorem reserve_read (f : Frame) (n a : Int) : (f.reserve n).read a = f.read a := rfl

@[simp] theorem write_top (f : Frame) (a : Int) (v : Word) : (f.write a v).top = f.top := rfl

theorem read_write (f : Frame) (a : Int) (v : Word) (b : Int) :
    (f.write a v).read b = if b = a then some v else f.read b := by
  rw [read, write, List.lookup_cons]
  by_cases h : b = a
  · rw [if_pos h, h, beq_self_eq_true]
  · rw [if_neg h, beq_eq_false_iff_ne.mpr h, read]

theorem read_eq_none_iff (f : Frame) (a : Int) :
    f.read a = none ↔ a ∉ f.writes.map Prod.fst := by
  rw [read, List.lookup_eq_none_iff]
  constructor
  · rintro h hmem
    obtain ⟨q, hq, rfl⟩ := List.mem_map.mp hmem
    simpa using h q hq
  · intro h q hq
    have hne : a ≠ q.1 := by
      rintro rfl
      exact h (List.mem_map_of_mem hq)
    simpa using hne

theorem once_write {f : Frame} (h : (f.writes.map Prod.fst).Nodup) {a : Int}
    (hfresh : f.read a = none) (v : Word) : ((f.write a v).writes.map Prod.fst).Nodup := by
  rw [write, List.map_cons, List.nodup_cons]
  exact ⟨(f.read_eq_none_iff a).mp hfresh, h⟩

/-- Words stored upwards from slot `i`, as both loops do it. -/
def fill (f : Frame) : Nat → List Word → Frame
  | _, [] => f
  | i, v :: vs => fill (f.write (f.top + i) v) (i + 1) vs

theorem fillArgv_eq_fill : ∀ (as : List Ptr) (f : Frame) (i : Nat),
    f.fillArgv i as = f.fill i (as.map Subtype.val)
  | [], _, _ => rfl
  | _ :: as, _, i => fillArgv_eq_fill as _ (i + 1)

theorem fill_top : ∀ (vs : List Word) (f : Frame) (i : Nat), (f.fill i vs).top = f.top
  | [], _, _ => rfl
  | _ :: vs, _, i => fill_top vs _ (i + 1)

theorem fill_read : ∀ (vs : List Word) (f : Frame) (i : Nat) (a : Int),
    (f.fill i vs).read a =
      if f.top + i ≤ a ∧ a < f.top + i + vs.length then vs[(a - (f.top + i)).toNat]?
      else f.read a
  | [], f, i, a => by
      rw [fill, if_neg (by simp)]
  | v :: vs, f, i, a => by
      rw [fill, fill_read vs, read_write, List.length_cons, write_top]
      push_cast
      by_cases hv : a = f.top + i
      · rw [if_neg (by omega), if_pos hv, if_pos (by omega), hv, sub_self]
        rfl
      · rw [if_neg hv]
        by_cases hvs : f.top + i ≤ a ∧ a < f.top + i + (vs.length + 1)
        · have hslot : (a - (f.top + i)).toNat = (a - (f.top + (i + 1))).toNat + 1 := by omega
          rw [if_pos hvs, if_pos (by omega), hslot, List.getElem?_cons_succ]
        · rw [if_neg hvs, if_neg (by omega)]

theorem once_fill : ∀ (vs : List Word) (f : Frame) (i : Nat), (f.writes.map Prod.fst).Nodup →
    (∀ a, f.top + i ≤ a → a < f.top + i + vs.length → f.read a = none) →
    ((f.fill i vs).writes.map Prod.fst).Nodup
  | [], _, _, h, _ => h
  | v :: vs, f, i, h, hfresh => by
      rw [List.length_cons] at hfresh
      push_cast at hfresh
      apply once_fill vs
      · exact once_write h (hfresh _ le_rfl (by omega)) v
      · intro a hle hlt
        rw [write_top] at hle hlt
        push_cast at hle hlt
        rw [read_write, if_neg (by omega)]
        exact hfresh a (by omega) (by omega)

end Frame

namespace Holds

variable {f : Frame} {e : Int} {ws : List Word}

theorem empty (e : Int) : Holds ⟨e, []⟩ e [] where
  top := by simp
  reads := by
    intro a
    simp [Frame.read]
  once := List.nodup_nil

/-- Room made below the frame and filled upwards. -/
theorem fill (h : Holds f e ws) (vs : List Word) {n : Int} (hn : n = vs.length) :
    Holds ((f.reserve n).fill 0 vs) e (vs ++ ws) where
  top := by
    have htop := h.top
    rw [Frame.fill_top, Frame.reserve_top, List.length_append]
    push_cast
    omega
  reads := by
    intro a
    rw [Frame.fill_read, Frame.fill_top, Frame.reserve_top, Frame.reserve_read, h.reads,
      Nat.cast_zero, add_zero]
    by_cases hlow : f.top - n ≤ a
    · rw [if_pos hlow]
      by_cases hvs : a < f.top
      · rw [if_pos (by omega), List.getElem?_append_left (by omega)]
      · have hslot : (a - (f.top - n)).toNat - vs.length = (a - f.top).toNat := by omega
        rw [if_neg (by omega), if_pos (by omega), List.getElem?_append_right (by omega), hslot]
    · rw [if_neg (by omega), if_neg (by omega), if_neg hlow]
  once := by
    apply Frame.once_fill
    · exact h.once
    · intro a _ hlt
      rw [Frame.reserve_top, Nat.cast_zero, add_zero] at hlt
      rw [Frame.reserve_read, h.reads, if_neg (by omega)]

theorem push (h : Holds f e ws) (v : Word) : Holds (f.push v) e (v :: ws) := by
  have hfill := h.fill [v] (n := 1) rfl
  simpa [Frame.fill, Frame.push, Frame.reserve] using hfill

theorem pushAux (pairs : List (Word × Word)) : ∀ {f : Frame} {ws : List Word}, Holds f e ws →
    Holds (pairs.foldl Frame.pushAux f) e (pairWords pairs.reverse ++ ws) := by
  induction pairs with
  | nil =>
      intro f ws h
      exact h
  | cons q qs ih =>
      intro f ws h
      have hq := ih ((h.push q.2).push q.1)
      rw [List.reverse_cons, pairWords, List.flatMap_append, List.append_assoc]
      exact hq

/-- The words from the top on, as a reader sees them. -/
theorem reads_top (h : Holds f e ws) : Reads f.read f.top ws := by
  have hgen : ∀ (vs us : List Word), ws = us ++ vs → Reads f.read (f.top + us.length) vs := by
    intro vs
    induction vs with
    | nil =>
        intro us _
        exact trivial
    | cons v vs ih =>
        intro us hus
        constructor
        · have hslot : (f.top + (us.length : Int) - f.top).toNat = us.length := by omega
          rw [h.reads, if_pos (by omega), hslot, hus, List.getElem?_append_right le_rfl]
          simp
        · have hnext := ih (us ++ [v]) (by rw [hus]; simp)
          rw [List.length_append, List.length_singleton] at hnext
          push_cast at hnext
          rw [add_assoc]
          exact hnext
  simpa using hgen ws [] rfl

end Holds

/-! ## The environment -/

/-- The last `LD_LIBRARY_PATH` of the list, if there is one. -/
def LastLdpath (es : List EnvString) : Option Nat → Prop
  | none => ∀ e ∈ es, ¬ e.IsLdpath
  | some j => (∃ e ∈ es[j]?, e.IsLdpath) ∧ ∀ k, j < k → ∀ e ∈ es[k]?, ¬ e.IsLdpath

/-- The list without the entry at an index. -/
def dropChosen (es : List EnvString) : Option Nat → List EnvString
  | none => es
  | some j => es.eraseIdx j

theorem findLdpath_spec : ∀ (es : List EnvString) (i : Nat) (found : Option Nat),
    (findLdpath es i found = found ∧ LastLdpath es none) ∨
      ∃ j, findLdpath es i found = some (i + j) ∧ LastLdpath es (some j)
  | [], _, found => .inl ⟨rfl, by simp [LastLdpath]⟩
  | e :: es, i, found => by
      rw [findLdpath]
      rcases findLdpath_spec es (i + 1) (if e.IsLdpath then some i else found) with
        ⟨heq, hno⟩ | ⟨j, heq, ⟨hj, hlast⟩⟩
      · by_cases he : e.IsLdpath
        · right
          refine ⟨0, by rw [heq, if_pos he]; rfl, ⟨e, rfl, he⟩, ?_⟩
          intro k hk e' he'
          obtain ⟨k, rfl⟩ := Nat.exists_eq_succ_of_ne_zero (Nat.pos_iff_ne_zero.mp hk)
          exact hno e' (List.mem_of_getElem? he')
        · left
          refine ⟨by rw [heq, if_neg he], ?_⟩
          intro e' he'
          rcases List.mem_cons.mp he' with rfl | he'
          · exact he
          · exact hno e' he'
      · right
        refine ⟨j + 1, by rw [heq]; congr 1; omega, hj, ?_⟩
        intro k hk e' he'
        obtain ⟨k, rfl⟩ := Nat.exists_eq_succ_of_ne_zero (show k ≠ 0 by omega)
        exact hlast k (by omega) e' he'

namespace Inputs

variable (p : Inputs)

theorem ldpathEnvIndex_of_sysroot (h : p.sysroot ≠ []) :
    LastLdpath p.environ p.ldpathEnvIndex := by
  rw [ldpathEnvIndex, if_neg h]
  rcases findLdpath_spec p.environ 0 none with ⟨heq, hno⟩ | ⟨j, heq, hlast⟩
  · rwa [heq]
  · rwa [heq, zero_add]

/-- Something is replaced only for a sysroot, and then it is an entry of `environ`. -/
theorem ldpathEnvIndex_some {j : Nat} (h : p.ldpathEnvIndex = some j) :
    p.sysroot ≠ [] ∧ j < p.environ.length := by
  have hroot : p.sysroot ≠ [] := by
    intro hnil
    rw [ldpathEnvIndex, if_pos hnil] at h
    cases h
  have hlast := p.ldpathEnvIndex_of_sysroot hroot
  rw [h] at hlast
  obtain ⟨⟨e, he, -⟩, -⟩ := hlast
  exact ⟨hroot, (List.getElem?_eq_some_iff.mp he).1⟩

theorem isSome_ldpathEnvIndex_iff :
    p.ldpathEnvIndex.isSome ↔ p.sysroot ≠ [] ∧ ∃ e ∈ p.environ, e.IsLdpath := by
  constructor
  · intro h
    obtain ⟨j, hj⟩ := Option.isSome_iff_exists.mp h
    have hroot := (p.ldpathEnvIndex_some hj).1
    have hlast := p.ldpathEnvIndex_of_sysroot hroot
    rw [hj] at hlast
    obtain ⟨⟨e, he, hld⟩, -⟩ := hlast
    exact ⟨hroot, e, List.mem_of_getElem? he, hld⟩
  · rintro ⟨hroot, e, he, hld⟩
    have hlast := p.ldpathEnvIndex_of_sysroot hroot
    cases hidx : p.ldpathEnvIndex with
    | none =>
        rw [hidx] at hlast
        exact absurd hld (hlast e he)
    | some j => rfl

theorem isSome_sysrootLdpathPtr_iff : p.sysrootLdpathPtr.isSome ↔ p.sysroot ≠ [] := by
  rw [sysrootLdpathPtr]
  by_cases h : p.sysroot = []
  · simp [h]
  · simp [h]

/-- The number of pointers the environment loop stores. -/
theorem actualEnvc_eq : p.actualEnvc = (dropChosen p.environ p.ldpathEnvIndex).length := by
  rw [actualEnvc, envc]
  cases hidx : p.ldpathEnvIndex with
  | none => simp [dropChosen]
  | some j =>
      obtain ⟨hroot, hj⟩ := p.ldpathEnvIndex_some hidx
      rw [if_pos ⟨rfl, p.isSome_sysrootLdpathPtr_iff.mpr hroot⟩, dropChosen,
        List.length_eraseIdx_of_lt hj]
      omega

/-- The environment a guest is meant to get, when `chosen` is replaced. -/
def guestEnviron (chosen : Option Nat) : List Word :=
  if p.sysroot = [] then p.environ.map (·.ptr.1)
  else (dropChosen p.environ chosen).map (·.ptr.1) ++ [p.sysrootLdpath.1]

end Inputs

/-- Past the chosen entry the environment loop stores everything. -/
theorem fillEnv_past (idx : Option Nat) : ∀ (es : List EnvString) (f : Frame) (i dst : Nat),
    (∀ j ∈ idx, j < i) → f.fillEnv idx i dst es = f.fill dst (es.map (·.ptr.1))
  | [], _, _, _, _ => rfl
  | e :: es, f, i, dst, h => by
      have hne : idx ≠ some i := fun heq => Nat.lt_irrefl i (h i heq)
      rw [Frame.fillEnv, if_neg hne,
        fillEnv_past idx es _ (i + 1) (dst + 1) (fun j hj => Nat.lt_succ_of_lt (h j hj))]
      rfl

theorem fillEnv_erase : ∀ (es : List EnvString) (f : Frame) (i j dst : Nat),
    f.fillEnv (some (i + j)) i dst es = f.fill dst ((es.eraseIdx j).map (·.ptr.1))
  | [], _, _, _, _ => rfl
  | e :: es, f, i, 0, dst => by
      rw [Nat.add_zero, Frame.fillEnv, if_pos rfl, List.eraseIdx_cons_zero, fillEnv_past]
      rintro j hj
      cases hj
      omega
  | e :: es, f, i, j + 1, dst => by
      have hnext : i + (j + 1) = i + 1 + j := by omega
      rw [Frame.fillEnv, if_neg (by simp), hnext, fillEnv_erase es, List.eraseIdx_cons_succ]
      rfl

/-- The environment loop stores the entries other than the chosen one. -/
theorem fillEnv_zero (idx : Option Nat) (es : List EnvString) (f : Frame) :
    f.fillEnv idx 0 0 es = f.fill 0 ((dropChosen es idx).map (·.ptr.1)) := by
  cases idx with
  | none => exact fillEnv_past none es f 0 0 (by simp)
  | some j =>
      have herase := fillEnv_erase es f 0 j 0
      rwa [zero_add] at herase

/-! ## The whole frame -/

namespace Inputs

variable (p : Inputs)

/-- Where the frame ends: at the padding word, if there is one. -/
def frameEnd : Int := stackWords - p.padding

/-- The words of the frame, from the stack pointer on. -/
def frameWords : List Word :=
  entryWords (BitVec.ofNat 64 p.argc) (p.argv.map Subtype.val) (p.guestEnviron p.ldpathEnvIndex)
    p.auxPairs.reverse

theorem auxFrame_holds :
    Holds p.auxFrame p.frameEnd (0#64 :: (pairWords p.auxPairs.reverse ++ [0#64])) :=
  (Holds.pushAux p.auxPairs ((Holds.empty p.frameEnd).push 0#64)).push 0#64

/-- The injected variable and the kept entries are the guest's environment. -/
theorem envFrame_holds :
    Holds (((pushLdpath p.auxFrame p.sysrootLdpathPtr).reserve p.actualEnvc).fillEnv
        p.ldpathEnvIndex 0 0 p.environ) p.frameEnd
      (p.guestEnviron p.ldpathEnvIndex ++ 0#64 :: (pairWords p.auxPairs.reverse ++ [0#64])) := by
  have hlen : p.actualEnvc =
      (((dropChosen p.environ p.ldpathEnvIndex).map (·.ptr.1)).length : Int) := by
    rw [List.length_map, p.actualEnvc_eq]
  rw [fillEnv_zero, guestEnviron]
  by_cases hroot : p.sysroot = []
  · have hnone : p.ldpathEnvIndex = none := by rw [ldpathEnvIndex, if_pos hroot]
    have hfill := p.auxFrame_holds.fill _ hlen
    rw [if_pos hroot, sysrootLdpathPtr, if_pos hroot]
    rw [hnone] at hfill ⊢
    exact hfill
  · have hfill := (p.auxFrame_holds.push p.sysrootLdpath.1).fill _ hlen
    rw [if_neg hroot, sysrootLdpathPtr, if_neg hroot, List.append_assoc]
    exact hfill

theorem stackFrame_holds : Holds p.stackFrame p.frameEnd p.frameWords := by
  have hargc : (p.argc : Int) = ((p.argv.map Subtype.val).length : Int) := by
    rw [List.length_map, argc]
  have h := ((p.envFrame_holds.push 0#64).fill _ hargc).push (BitVec.ofNat 64 p.argc)
  rw [← Frame.fillArgv_eq_fill] at h
  simp only [frameWords, entryWords, List.append_assoc]
  exact h

theorem guestEnviron_ne_null (chosen : Option Nat) : ∀ v ∈ p.guestEnviron chosen, v ≠ 0#64 := by
  have hptr : ∀ es : List EnvString, ∀ v ∈ es.map (·.ptr.1), v ≠ 0#64 := by
    intro es v hv
    obtain ⟨e, -, rfl⟩ := List.mem_map.mp hv
    exact e.ptr.2
  intro v hv
  rw [guestEnviron] at hv
  split at hv
  · exact hptr _ v hv
  · rcases List.mem_append.mp hv with hv | hv
    · exact hptr _ v hv
    · rw [List.mem_singleton.mp hv]
      exact p.sysrootLdpath.2

/-- **The initial stack is what the ABI says.** Read upwards from the stack pointer, it is
the guest's arguments, the environment with the last `LD_LIBRARY_PATH` replaced by the
injected one if there is a sysroot, and the auxiliary vector. No word of it is written
twice or left out. -/
theorem initial_stack_decodes :
    (∀ n, p.frameWords.length ≤ n →
      readEntry p.stackFrame.read n p.stackFrame.top =
        some ⟨BitVec.ofNat 64 p.argc, p.argv.map Subtype.val, p.guestEnviron p.ldpathEnvIndex,
          p.auxPairs.reverse, p.frameEnd - 1⟩) ∧
    (p.sysroot ≠ [] → LastLdpath p.environ p.ldpathEnvIndex) ∧
    p.auxPairs.length = 15 ∧
    (p.stackFrame.writes.map Prod.fst).Nodup ∧
    (∀ a, p.stackFrame.top ≤ a → a ≤ p.frameEnd - 1 → (p.stackFrame.read a).isSome) := by
  have hholds := p.stackFrame_holds
  refine ⟨?_, p.ldpathEnvIndex_of_sysroot, rfl, hholds.once, ?_⟩
  · intro n hn
    have hargv : ∀ v ∈ p.argv.map Subtype.val, v ≠ 0#64 := by
      intro v hv
      obtain ⟨a, -, rfl⟩ := List.mem_map.mp hv
      exact a.2
    have hauxv : ∀ q ∈ p.auxPairs.reverse, q.1 ≠ 0#64 := by
      intro q hq
      rw [List.mem_reverse] at hq
      revert q
      simp [auxPairs]
    exact readEntry_of_reads hargv (p.guestEnviron_ne_null _) hauxv hn hholds.top
      hholds.reads_top
  · intro a hlow hhigh
    have htop := hholds.top
    rw [hholds.reads, if_pos hlow, List.getElem?_eq_getElem (by omega)]
    rfl

/-- The number of words in the frame, of which 34 are there in any case. -/
theorem length_frameWords :
    p.frameWords.length = 34 + p.argc + (p.guestEnviron p.ldpathEnvIndex).length := by
  have hpairs : (pairWords p.auxPairs.reverse).length = 30 := rfl
  simp only [frameWords, entryWords, List.length_cons, List.length_append, List.length_nil,
    hpairs, List.length_map, argc]
  omega

/-- The slots counted for the padding are those of the environment, unless a variable is
replaced: then the injected one is not counted. -/
theorem length_guestEnviron : ((p.guestEnviron p.ldpathEnvIndex).length : Int) =
    p.envSlots + if p.ldpathEnvIndex.isSome then 1 else 0 := by
  have hkept := p.actualEnvc_eq
  rw [actualEnvc] at hkept
  rw [guestEnviron, envSlots, extraEnv]
  by_cases hroot : p.sysroot = []
  · have hnone : p.ldpathEnvIndex = none := by rw [ldpathEnvIndex, if_pos hroot]
    have hptr : p.sysrootLdpathPtr = none := by rw [sysrootLdpathPtr, if_pos hroot]
    simp [hroot, hnone, hptr, envc]
  · have hptr : p.sysrootLdpathPtr.isSome := p.isSome_sysrootLdpathPtr_iff.mpr hroot
    rw [if_neg hroot, List.length_append, List.length_map]
    push_cast
    rw [← hkept]
    cases hidx : p.ldpathEnvIndex with
    | none => simp [hptr]
    | some j => simp [hptr]

theorem toNat_stackTop_mod (stack : Word) (hpage : stack.toNat % 4096 = 0) :
    (p.stackTop stack).toNat % 16 = 0 ↔ p.stackFrame.top % 2 = 0 := by
  rw [stackTop, BitVec.toNat_add, BitVec.toNat_ofInt]
  omega

/-- **The stack is aligned exactly when no variable is replaced.** The word for the
injected variable is left out of the slot count when it takes the place of another. -/
theorem stack_aligned_iff (stack : Word) (hpage : stack.toNat % 4096 = 0) :
    (p.stackTop stack).toNat % 16 = 0 ↔
      p.sysroot = [] ∨ ∀ e ∈ p.environ, ¬ e.IsLdpath := by
  have hreplaced : ¬ p.ldpathEnvIndex.isSome ↔
      p.sysroot = [] ∨ ∀ e ∈ p.environ, ¬ e.IsLdpath := by
    rw [p.isSome_ldpathEnvIndex_iff, not_and_or, not_not]
    push Not
    rfl
  have htop := p.stackFrame_holds.top
  have hlen := p.length_frameWords
  have henv := p.length_guestEnviron
  rw [p.toNat_stackTop_mod stack hpage, ← hreplaced]
  rw [frameEnd, padding, stackWords, hlen] at htop
  push_cast at htop
  rw [henv] at htop
  by_cases hidx : p.ldpathEnvIndex.isSome
  · rw [if_pos hidx] at htop
    exact iff_of_false (by omega) (not_not_intro hidx)
  · rw [if_neg hidx] at htop
    exact iff_of_true (by omega) hidx

end Inputs

/-- A sysroot and an environment that has an `LD_LIBRARY_PATH`. -/
def replacedLdpath : Inputs where
  argv := [⟨0x1000#64, by decide⟩]
  environ := [⟨⟨0x2000#64, by decide⟩, ldLibraryPath ++ [0x2f#8]⟩]
  sysroot := [0x2f#8]
  sysrootLdpath := ⟨0x3000#64, by decide⟩
  aux := ⟨0#64, 0#64, 0#64, 0#64, 0#64, fun _ => 0#64⟩

theorem no_sysroot_aligned :
    ((Inputs.stackTop { replacedLdpath with sysroot := [] } 0x7f0000000000#64).toNat % 16 = 0) :=
  (Inputs.stack_aligned_iff { replacedLdpath with sysroot := [] } 0x7f0000000000#64 rfl).mpr
    (.inl rfl)

/-- With the sysroot, the guest starts 8 bytes off. -/
theorem replacedLdpath_misaligned : (replacedLdpath.stackTop 0x7f0000000000#64).toNat % 16 = 8 := by
  decide

end Instrew.Client.InitialStack
