import Instrew.Client.Arena
import Instrew.Client.LoadBounds
import Instrew.Lib.Layout

/-!
# The layout of the sections

The first pass of `rtld_add_object` of `client/rtld.c` with the allocation that follows it:
the sections are laid out one behind the other from offset 0, and their addresses are moved
to the block that `mem_alloc_code` returns.

`ALIGN_UP` to an alignment of 0 is 0, and so is one that wraps: the layout starts again at
offset 0, on top of the sections before. The headline is `layout_sound_iff`, which says for
which objects this cannot happen.
-/

namespace Instrew.Client

open Lib.Access Lib.Imm Lib.Layout

/-! ## Placing the sections -/

/-- `arena_alloc`, for a caller whose compare-exchange succeeds on `brk`. -/
def arenaAlloc (A : Memory.Arena) (brk size alignment : Word) : Except Errno Word :=
  let c : Memory.Call := ⟨size, alignment⟩
  if c.align &&& (c.align - 1#64) ≠ 0#64 then .error .EINVAL
  else if A.stop < alignUp brk c.align + size then .error .ENOMEM
  else .ok (alignUp brk c.align)

/-- It is what the threads of `Memory` do up to the compare-exchange. -/
theorem arenaAlloc_eq_ok_iff (A : Memory.Arena) (sh : Memory.Shared) (c : Memory.Call) (ok : Bool)
    (result : Word) :
    arenaAlloc A sh.brk c.size c.alignment = .ok result ↔
      Memory.enter c = .goto .load ∧ Memory.phaseStep A sh c ok .load =
        (sh, .goto (.cas sh.brk result (result + c.size))) := by
  rw [arenaAlloc, Memory.enter, Memory.phaseStep]
  by_cases halign : c.align &&& (c.align - 1#64) ≠ 0#64
  · rw [if_pos halign, if_pos halign]
    simp
  · rw [if_neg halign, if_neg halign]
    by_cases hfull : A.stop < alignUp sh.brk c.align + c.size
    · simp [hfull]
    · simp only [hfull, if_false, Except.ok.injEq, Prod.mk.injEq, true_and,
        Memory.Next.goto.injEq, Memory.Phase.cas.injEq]
      constructor
      · rintro rfl
        exact ⟨rfl, rfl⟩
      · exact And.left

/-- The beginning of `rtld_add_object`: the buffer with the addresses of the sections, the
block, and its size. -/
def RtldElf.placeObject (re : RtldElf) (memAllocCode : Word → Word → Except Errno Word)
    (obj : Buf) : Checked Errno (Buf × Word × Word) := do
  let (b, totsz, totalign) ← pass (·.1) (fun _ => false) re.layout (obj, 0#64, 1#64)
  let base ← call (memAllocCode totsz totalign)
  let b ← pass id (fun _ => false) (re.rebase base) b
  return (b, base, totsz)

/-- `rtld_add_object` begins like that. -/
theorem RtldElf.addObject_eq (re : RtldElf) (arena : Arena) (obj : Buf) (objBase : Word) :
    re.addObject arena obj objBase = (do
      re.init arena obj
      let re := { re with reShdr := eShoff obj }
      let (b, _, _) ← re.placeObject arena.memAllocCode obj
      let b ← pass id (fun _ => false) (re.relocate arena) b
      let b ← pass id (fun _ => false) (re.copy arena) b
      let st ← pass (fun _ => b) (·.1) (re.registerTable b objBase) (false, re.objects)
      return st.2) := by
  simp only [addObject, placeObject, bind_assoc, pure_bind]

/-! ## The offsets -/

/-- `totsz` before section `i`. -/
def layoutTot (obj : Buf) : Nat → Word
  | 0 => 0#64
  | i + 1 =>
      if Allocated obj i then alignUp (layoutTot obj i) (shAddralign obj i) + shSize obj i
      else layoutTot obj i

/-- The offset of section `i` in the block. -/
def layoutOffset (obj : Buf) (i : Nat) : Word := alignUp (layoutTot obj i) (shAddralign obj i)

/-- `totalign` before section `i`. -/
def layoutAlign (obj : Buf) : Nat → Word
  | 0 => 1#64
  | i + 1 =>
      if Allocated obj i ∧ layoutAlign obj i < shAddralign obj i then shAddralign obj i
      else layoutAlign obj i

/-! ## What the passes leave behind -/

/-- The addresses of the section headers are what they are, and nothing has changed but the
addresses of the sections that get memory. -/
structure Placed (obj : Buf) (addrs : Nat → Word) (b : Buf) : Prop where
  length : b.length = obj.length
  kept : ∀ o, (∀ i < shnum obj, Allocated obj i →
    ¬ Range.Mem ⟨(shdrAt obj i).toNat + 16, 8⟩ o) → b.mem o = obj.mem o
  addr : ∀ i < shnum obj, Shdr.addr b (shdrAt obj i) = addrs i

section Bytes

theorem Buf.mem_set (b : Buf) {k : Nat} (x : Byte) (hk : k < b.length) (o : Nat) :
    Buf.mem (b.set k x) o = if o = k then x else b.mem o := by
  rw [Buf.mem, Buf.mem, List.getD_eq_getElem?_getD, List.getD_eq_getElem?_getD, List.getElem?_set]
  by_cases ho : o = k
  · simp [ho, hk]
  · simp [ho, Ne.symm ho]

/-- The bytes of a stored value. -/
theorem Buf.mem_setU64 (b : Buf) {off : Word} (v : Word) (hoff : off.toNat + 8 ≤ b.length)
    (hlen : b.length < 2 ^ 64) {j : Nat} (hj : j < 8) :
    (b.setU64 off v).mem (off.toNat + j) = (v >>> (8 * j)).setWidth 8 := by
  -- after `n` of the eight stores
  have hstores : ∀ n ≤ 8,
      ((List.range n).foldl (fun (b : Buf) i =>
        b.set (off + BitVec.ofNat 64 i).toNat ((v >>> (8 * i)).setWidth 8)) b).length = b.length ∧
      ∀ j < n, Buf.mem ((List.range n).foldl (fun (b : Buf) i =>
        b.set (off + BitVec.ofNat 64 i).toNat ((v >>> (8 * i)).setWidth 8)) b) (off.toNat + j) =
          (v >>> (8 * j)).setWidth 8 := by
    intro n
    induction n with
    | zero => simp
    | succ n ih =>
        intro hn
        obtain ⟨hlength, hbytes⟩ := ih (by omega)
        have hat : (off + BitVec.ofNat 64 n).toNat = off.toNat + n := toNat_add_of_lt (by omega)
        rw [List.range_succ, List.foldl_append, List.foldl_cons, List.foldl_nil]
        refine ⟨by rw [List.length_set, hlength], fun j hj => ?_⟩
        rw [Buf.mem_set _ _ (by rw [hlength]; omega), hat]
        by_cases hjn : j = n
        · rw [hjn, if_pos rfl]
        · rw [if_neg (by omega), hbytes j (by omega)]
  exact (hstores 8 le_rfl).2 j hj

/-- What was stored is read back. -/
theorem Buf.u64_setU64 (b : Buf) {off : Word} (v : Word) (hoff : off.toNat + 8 ≤ b.length)
    (hlen : b.length < 2 ^ 64) : (b.setU64 off v).u64 off = v := by
  have hbyte : ∀ j < 8, (b.setU64 off v).u8 (off + BitVec.ofNat 64 j) =
      (v >>> (8 * j)).setWidth 8 := by
    intro j hj
    rw [← b.mem_setU64 v hoff hlen hj, ← toNat_add_of_lt (k := j) (by omega)]
    rfl
  have hread : ∀ c : Buf, c.u64 off =
      ((c.u8 (off + BitVec.ofNat 64 7) ++ c.u8 (off + BitVec.ofNat 64 6)) ++
        (c.u8 (off + BitVec.ofNat 64 5) ++ c.u8 (off + BitVec.ofNat 64 4))) ++
      ((c.u8 (off + BitVec.ofNat 64 3) ++ c.u8 (off + BitVec.ofNat 64 2)) ++
        (c.u8 (off + BitVec.ofNat 64 1) ++ c.u8 (off + BitVec.ofNat 64 0))) := by
    intro c
    simp only [Buf.u64, Buf.u32, Buf.u16, BitVec.add_assoc, BitVec.add_zero]
    rfl
  rw [hread, hbyte 7 (by decide), hbyte 6 (by decide), hbyte 5 (by decide), hbyte 4 (by decide),
    hbyte 3 (by decide), hbyte 2 (by decide), hbyte 1 (by decide), hbyte 0 (by decide)]
  apply BitVec.eq_of_getLsbD_eq
  intro i hi
  simp only [BitVec.getLsbD_append, BitVec.getLsbD_setWidth, BitVec.getLsbD_ushiftRight]
  split_ifs
  all_goals
    rw [decide_eq_true (by omega), Bool.true_and]
    congr 1
    omega

end Bytes

section Placed

variable {obj b : Buf} {addrs : Nat → Word} {i j : Nat}

theorem TableInside.toNat_shAddr (ht : TableInside obj) (hi : i < shnum obj) :
    (shdrAt obj i + 16#64).toNat = (shdrAt obj i).toNat + 16 := by
  have hsize := ht.size
  exact toNat_add_of_lt (by have := (ht.shdr hi).2; omega)

/-- The headers do not overlap. -/
theorem TableInside.not_mem_of_ne (ht : TableInside obj) (hi : i < shnum obj) (hj : j < shnum obj)
    (hij : i ≠ j) {o : Nat} (ho : Range.Mem ⟨(shdrAt obj i).toNat, 64⟩ o) :
    ¬ Range.Mem ⟨(shdrAt obj j).toNat, 64⟩ o := by
  have hi := (ht.shdr hi).1
  have hj := (ht.shdr hj).1
  simp only [Range.Mem] at ho ⊢
  omega

namespace Placed

variable (ht : TableInside obj) (h : Placed obj addrs b)

include ht h

theorem header (hi : i < shnum obj) : SameHeader obj b (shdrAt obj i) := by
  have hfields : ∀ o, Range.Mem ⟨(shdrAt obj i).toNat, 64⟩ o →
      ¬ Range.Mem ⟨(shdrAt obj i).toNat + 16, 8⟩ o → b.mem o = obj.mem o := by
    intro o ho hno
    refine h.kept o fun j hj _ hmem => ?_
    by_cases hij : i = j
    · exact hno (hij ▸ hmem)
    · refine ht.not_mem_of_ne hi hj hij ho ?_
      simp only [Range.Mem] at hmem ⊢
      omega
  have hsize := ht.size
  have hat := (ht.shdr hi).2
  refine ⟨fun o ho => hfields o ?_ ?_, fun o ho => hfields o ?_ ?_, by omega⟩ <;>
    simp only [Range.Mem] at ho ⊢ <;> omega

/-- The file header is unchanged. -/
theorem ehdr {o : Nat} (ho : o < 64) : b.mem o = obj.mem o := by
  refine h.kept o fun j hj halloc hmem => ?_
  exact (ht.apart j hj halloc).not_mem hmem ⟨Nat.zero_le o, by rw [ehdrRange, ehdrSize]; omega⟩

theorem shnum_eq : shnum b = shnum obj := by
  rw [shnum, shnum, eShnum, eShnum, u16_same (by decide)]
  exact fun o ho => h.ehdr ht (Nat.lt_of_lt_of_le ho.2 (by decide))

theorem eShoff_eq : eShoff b = eShoff obj :=
  u64_same (by decide) fun o ho => h.ehdr ht (Nat.lt_of_lt_of_le ho.2 (by decide))

theorem setAddr (hi : i < shnum obj) (halloc : Allocated obj i) (v : Word) :
    Placed obj (Function.update addrs i v) (b.setU64 (shdrAt obj i + 16#64) v) := by
  have hsize := ht.size
  have hat := ht.toNat_shAddr hi
  have hin := (ht.shdr hi).2
  have hwritten : ∀ o, ¬ Range.Mem ⟨(shdrAt obj i).toNat + 16, 8⟩ o →
      (b.setU64 (shdrAt obj i + 16#64) v).mem o = b.mem o := by
    intro o ho
    rw [← hat] at ho
    exact b.mem_setU64_of_not_mem v (by omega) ho
  refine ⟨(b.length_setU64 _ v).trans h.length, fun o ho => ?_, fun j hj => ?_⟩
  · rw [hwritten o (ho i hi halloc), h.kept o ho]
  · by_cases hij : j = i
    · subst hij
      rw [Function.update_self]
      exact b.u64_setU64 v (by rw [h.length]; omega) (by rw [h.length]; exact hsize)
    · rw [Function.update_of_ne hij, ← h.addr j hj]
      have hatj := ht.toNat_shAddr hj
      have hinj := (ht.shdr hj).2
      refine u64_same (by omega) fun o ho => hwritten o fun hmem => ?_
      rw [hatj] at ho
      refine ht.not_mem_of_ne hj hi hij (o := o) ?_ ?_ <;> simp only [Range.Mem] at ho hmem ⊢ <;>
        omega

end Placed

theorem Placed.congr {addrs' : Nat → Word} (h : Placed obj addrs b)
    (haddrs : ∀ i < shnum obj, addrs i = addrs' i) : Placed obj addrs' b :=
  ⟨h.length, h.kept, fun i hi => (h.addr i hi).trans (haddrs i hi)⟩

/-- A pass that returns has been over every section. -/
theorem pass_count {σ : Type} {buf : σ → Buf} {body : Nat → σ → Checked Errno σ} {n : Nat}
    {P : Nat → σ → Prop} (hn : n ≤ 2 ^ 16) (hnum : ∀ i s, P i s → shnum (buf s) = n)
    (hbody : ∀ i s s', i < n → P i s → body i s = .ok s' → P (i + 1) s') {s s' : σ} (h : P 0 s)
    (hrun : RtldElf.pass buf (fun _ => false) body s = .ok s') : P n s' := by
  have hloop : ∀ (fuel i : Nat) (s : σ), i ≤ n → n ≤ i + fuel → P i s →
      forLoop (fun i s => i < (eShnum (buf s)).toNat && !false) body fuel i s = .ok s' →
      P n s' := by
    intro fuel
    induction fuel with
    | zero =>
        intro i s hi hfuel hP hs
        cases hs
        rwa [show n = i by omega]
    | succ fuel ih =>
        intro i s hi hfuel hP hs
        have hcond : (decide (i < (eShnum (buf s)).toNat) && !false) = decide (i < n) := by
          rw [show (eShnum (buf s)).toNat = n from hnum i s hP, Bool.not_false, Bool.and_true]
        rw [forLoop, hcond] at hs
        by_cases hlt : i < n
        · rw [decide_eq_true hlt, if_pos rfl] at hs
          obtain ⟨t, ht, hrest⟩ := bind_eq_ok.mp hs
          exact ih (i + 1) t hlt (by omega) (hbody i s t hlt hP ht) hrest
        · rw [decide_eq_false hlt, if_neg Bool.false_ne_true] at hs
          cases hs
          rwa [show n = i by omega]
  exact hloop (2 ^ 16) 0 s (Nat.zero_le n) (by omega) h hrun

theorem shnum_le (obj : Buf) : shnum obj ≤ 2 ^ 16 := (eShnum obj).isLt.le

/-- The addresses after the first pass has been over `k` sections. -/
def layoutAddrs (obj : Buf) (k i : Nat) : Word :=
  if i < k ∧ Allocated obj i then layoutOffset obj i else shAddr obj i

/-- The addresses when `base` has been added for `k` sections. -/
def rebasedAddrs (obj : Buf) (base : Word) (k i : Nat) : Word :=
  if Allocated obj i then
    if i < k then layoutOffset obj i + base else layoutOffset obj i
  else shAddr obj i

variable {re : RtldElf}

/-- What the passes read of a header. -/
theorem Placed.fields (ht : TableInside obj) (h : Placed obj addrs b) (hi : i < shnum obj) :
    Shdr.flags b (shdrAt obj i) = shFlags obj i ∧ Shdr.size b (shdrAt obj i) = shSize obj i ∧
      Shdr.addralign b (shdrAt obj i) = shAddralign obj i := by
  have hhdr := h.header ht hi
  exact ⟨hhdr.flags, hhdr.size, hhdr.addralign⟩

/-- One round of the first pass. -/
theorem layout_ok (ht : TableInside obj) (hre : re.reShdr = eShoff obj) (hi : i < shnum obj)
    {st st' : Buf × Word × Word} (hst : Placed obj (layoutAddrs obj i) st.1 ∧
      st.2.1 = layoutTot obj i ∧ st.2.2 = layoutAlign obj i)
    (hstep : re.layout i st = .ok st') :
    Placed obj (layoutAddrs obj (i + 1)) st'.1 ∧ st'.2.1 = layoutTot obj (i + 1) ∧
      st'.2.2 = layoutAlign obj (i + 1) := by
  obtain ⟨b, totsz, totalign⟩ := st
  obtain ⟨hb, rfl, rfl⟩ := hst
  obtain ⟨hflags, hsize, halign⟩ := hb.fields ht hi
  have hshdr : re.shdr i = shdrAt obj i := by rw [RtldElf.shdr, hre, shdrAt]
  rw [RtldElf.layout, hshdr, need_bind_eq_ok, reject_bind_eq_ok, hflags, halign, hsize] at hstep
  obtain ⟨-, -, hstep⟩ := hstep
  by_cases halloc : Allocated obj i
  · rw [if_neg halloc] at hstep
    cases hstep
    refine ⟨(hb.setAddr ht hi halloc _).congr fun j hj => ?_, ?_, ?_⟩
    · by_cases hij : j = i
      · subst hij
        rw [Function.update_self, layoutAddrs, if_pos ⟨Nat.lt_succ_self j, halloc⟩, layoutOffset]
      · rw [Function.update_of_ne hij, layoutAddrs, layoutAddrs]
        simp only [Nat.lt_succ_iff_lt_or_eq, hij, or_false]
    · rw [layoutTot, if_pos halloc]
    · rw [layoutAlign]
      simp only [halloc, true_and]
  · rw [if_pos (not_not.mp halloc)] at hstep
    cases hstep
    refine ⟨hb.congr fun j hj => ?_, ?_, ?_⟩
    · rw [layoutAddrs, layoutAddrs]
      by_cases hij : j = i
      · simp [hij, halloc]
      · simp only [Nat.lt_succ_iff_lt_or_eq, hij, or_false]
    · rw [layoutTot, if_neg halloc]
    · rw [layoutAlign, if_neg (fun h => halloc h.1)]

/-- One round of adding the base. -/
theorem rebase_ok (ht : TableInside obj) (hre : re.reShdr = eShoff obj) (hi : i < shnum obj)
    {base : Word} {b b' : Buf} (hb : Placed obj (rebasedAddrs obj base i) b)
    (hstep : re.rebase base i b = .ok b') : Placed obj (rebasedAddrs obj base (i + 1)) b' := by
  obtain ⟨hflags, -, -⟩ := hb.fields ht hi
  have haddr := hb.addr i hi
  have hshdr : re.shdr i = shdrAt obj i := by rw [RtldElf.shdr, hre, shdrAt]
  rw [RtldElf.rebase, hshdr, need_bind_eq_ok, hflags, haddr] at hstep
  obtain ⟨-, hstep⟩ := hstep
  by_cases halloc : Allocated obj i
  · rw [if_neg halloc] at hstep
    cases hstep
    refine (hb.setAddr ht hi halloc _).congr fun j hj => ?_
    by_cases hij : j = i
    · subst hij
      rw [Function.update_self]
      simp [rebasedAddrs, halloc]
    · rw [Function.update_of_ne hij, rebasedAddrs, rebasedAddrs]
      simp only [Nat.lt_succ_iff_lt_or_eq, hij, or_false]
  · rw [if_pos (not_not.mp halloc)] at hstep
    cases hstep
    refine hb.congr fun j hj => ?_
    rw [rebasedAddrs, rebasedAddrs]
    by_cases hij : j = i
    · simp [hij, halloc]
    · simp only [Nat.lt_succ_iff_lt_or_eq, hij, or_false]

/-- The addresses of a placed object. -/
def placedAddrs (obj : Buf) (base : Word) (i : Nat) : Word :=
  if Allocated obj i then layoutOffset obj i + base else shAddr obj i

/-- Before the first pass. -/
theorem Placed.start (obj : Buf) : Placed obj (layoutAddrs obj 0) obj := by
  refine ⟨rfl, fun _ _ => rfl, fun i _ => ?_⟩
  rw [layoutAddrs, if_neg (fun h => Nat.not_lt_zero i h.1)]
  rfl

/-- Between the two passes. -/
theorem Placed.laidOut (h : Placed obj (layoutAddrs obj (shnum obj)) b) (base : Word) :
    Placed obj (rebasedAddrs obj base 0) b := by
  refine h.congr fun i hi => ?_
  rw [layoutAddrs, rebasedAddrs]
  simp [hi]

theorem layout_pass_ok (ht : TableInside obj) (hre : re.reShdr = eShoff obj)
    {st : Buf × Word × Word}
    (hrun : RtldElf.pass (·.1) (fun _ => false) re.layout (obj, 0#64, 1#64) = .ok st) :
    Placed obj (layoutAddrs obj (shnum obj)) st.1 ∧ st.2.1 = layoutTot obj (shnum obj) ∧
      st.2.2 = layoutAlign obj (shnum obj) :=
  pass_count (P := fun k st => Placed obj (layoutAddrs obj k) st.1 ∧ st.2.1 = layoutTot obj k ∧
      st.2.2 = layoutAlign obj k) (shnum_le obj) (fun _ _ h => h.1.shnum_eq ht)
    (fun _ _ _ hi h hstep => layout_ok ht hre hi h hstep) ⟨.start obj, rfl, rfl⟩ hrun

/-- **What the passes do.** -/
theorem placeObject_ok (ht : TableInside obj) (hre : re.reShdr = eShoff obj)
    {memAllocCode : Word → Word → Except Errno Word} {b : Buf} {base totsz : Word}
    (hrun : re.placeObject memAllocCode obj = .ok (b, base, totsz)) :
    Placed obj (placedAddrs obj base) b ∧ totsz = layoutTot obj (shnum obj) ∧
      memAllocCode totsz (layoutAlign obj (shnum obj)) = .ok base := by
  obtain ⟨⟨b₁, totsz₁, totalign⟩, hlayout, hrun⟩ := bind_eq_ok.mp hrun
  obtain ⟨base₁, halloc, hrun⟩ := bind_eq_ok.mp hrun
  obtain ⟨b₂, hrebase, hrun⟩ := bind_eq_ok.mp hrun
  cases hrun
  obtain ⟨hb₁, rfl, rfl⟩ := layout_pass_ok ht hre hlayout
  have hb₂ := pass_count (P := fun k b => Placed obj (rebasedAddrs obj base k) b) (shnum_le obj)
    (fun _ _ h => h.shnum_eq ht) (fun _ _ _ hi h hstep => rebase_ok ht hre hi h hstep)
    (hb₁.laidOut base) hrebase
  refine ⟨hb₂.congr fun i hi => ?_, rfl, call_eq_ok.mp halloc⟩
  rw [rebasedAddrs, placedAddrs]
  simp [hi]

end Placed

/-! ## `ALIGN_UP` -/

/-- What ELF allows for `sh_addralign`. -/
def IsAlign (a : Word) : Prop := a = 0#64 ∨ ∃ k, a.toNat = 2 ^ k

@[simp] theorem alignUp_to_zero (v : Word) : alignUp v 0#64 = 0#64 := by
  have hmask : ~~~(0#64 - 1#64) = 0#64 := by decide
  rw [alignUp, hmask, BitVec.and_zero]

/-- Rounding up to a power of two, modulo 2^64. -/
theorem toNat_alignUp {v a : Word} {k : Nat} (ha : a.toNat = 2 ^ k) :
    (alignUp v a).toNat = (v.toNat + (2 ^ k - 1)) % 2 ^ 64 / 2 ^ k * 2 ^ k := by
  rw [alignUp, toNat_and_not_sub_one ha, BitVec.toNat_add, toNat_sub_one ha]

/-- **`ALIGN_UP` rounds up, or starts again at 0.** -/
theorem alignUp_cases (v : Word) {a : Word} (ha : IsAlign a) :
    (alignUp v a).toNat = roundUp v.toNat a.toNat ∨
      alignUp v a = 0#64 ∧ v ≠ 0#64 ∧ (a = 0#64 ∨ 2 ^ 64 ≤ roundUp v.toNat a.toNat) := by
  rcases ha with rfl | ⟨k, hk⟩
  · rw [alignUp_to_zero]
    by_cases hv : v = 0#64
    · left
      rw [hv]
      rfl
    · exact .inr ⟨rfl, hv, .inl rfl⟩
  · have hpos : 0 < 2 ^ k := Nat.two_pow_pos k
    have hlt := a.isLt
    have hv := v.isLt
    have hround : roundUp v.toNat a.toNat = (v.toNat + (2 ^ k - 1)) / 2 ^ k * 2 ^ k := by
      rw [roundUp, hk, if_neg (by omega)]
    by_cases hwrap : v.toNat + (2 ^ k - 1) < 2 ^ 64
    · left
      rw [toNat_alignUp hk, Nat.mod_eq_of_lt hwrap, hround]
    · right
      refine ⟨?_, ?_, .inr ?_⟩
      · apply BitVec.eq_of_toNat_eq
        rw [toNat_alignUp hk, Nat.mod_eq_sub_mod (by omega), Nat.mod_eq_of_lt (by omega),
          Nat.div_eq_of_lt (by omega), Nat.zero_mul]
        rfl
      · rintro rfl
        have hzero : (0#64).toNat = 0 := rfl
        omega
      · -- 2^64 is itself a multiple of the alignment
        have hk64 : k ≤ 64 := by
          rw [hk] at hlt
          exact ((Nat.pow_lt_pow_iff_right (by decide)).mp hlt).le
        have hmul : 2 ^ 64 = 2 ^ (64 - k) * 2 ^ k := by
          rw [← pow_add, Nat.sub_add_cancel hk64]
        rw [hround, hmul]
        refine Nat.mul_le_mul_right _ ((Nat.le_div_iff_mul_le hpos).mpr ?_)
        rw [← hmul]
        omega

theorem alignUp_from_zero {a : Word} (ha : IsAlign a) : alignUp 0#64 a = 0#64 := by
  rcases alignUp_cases 0#64 ha with h | ⟨h, -⟩
  · apply BitVec.eq_of_toNat_eq
    rw [h]
    exact roundUp_zero _
  · exact h

/-- Every alignment asked for divides the address that `ALIGN_UP` gives. -/
theorem dvd_alignUp (v : Word) {a : Word} {k : Nat} (ha : a.toNat = 2 ^ k) :
    2 ^ k ∣ (alignUp v a).toNat := by
  rw [toNat_alignUp ha]
  exact Nat.dvd_mul_left _ _

/-! ## Soundness -/

/-- Where section `i` is put. -/
def loadedRange (b : Buf) (i : Nat) : Range := ⟨(shAddr b i).toNat, (shSize b i).toNat⟩

/-- **What a layout is for.** The sections of the block do not overlap, are aligned and lie in
the block, which does not wrap. -/
structure LayoutSound (b : Buf) (base totsz : Word) : Prop where
  disjoint : ∀ i j, i < j → j < shnum b → Allocated b i → Allocated b j →
    (loadedRange b i).Apart (loadedRange b j)
  aligned : ∀ i < shnum b, Allocated b i → shAddralign b i ≠ 0#64 →
    (shAddralign b i).toNat ∣ (shAddr b i).toNat
  inside : ∀ i < shnum b, Allocated b i → (loadedRange b i).Within ⟨base.toNat, totsz.toNat⟩
  block : base.toNat + totsz.toNat < 2 ^ 64

/-- The pieces to be laid out. -/
def piece (obj : Buf) (i : Nat) : Option Piece :=
  if Allocated obj i then some ⟨(shSize obj i).toNat, (shAddralign obj i).toNat⟩ else none

/-- The objects that are laid out right: a section without an alignment follows empty
sections only, and the sections fit behind `base`. -/
def LayoutFits (obj : Buf) (base : Word) : Prop :=
  (∀ i j, j < i → i < shnum obj → Allocated obj i → Allocated obj j →
    shAddralign obj i = 0#64 → shSize obj j = 0#64) ∧
  base.toNat + cursor (piece obj) (shnum obj) < 2 ^ 64

section Offsets

variable {obj : Buf} {base : Word} {n : Nat}

theorem piece_of_allocated {i : Nat} (h : Allocated obj i) :
    piece obj i = some ⟨(shSize obj i).toNat, (shAddralign obj i).toNat⟩ := if_pos h

/-- The first `n` sections are laid out without starting again and without wrapping. -/
def Regular (obj : Buf) (n : Nat) : Prop :=
  ∀ i < n, Allocated obj i →
    (layoutOffset obj i).toNat =
      roundUp (layoutTot obj i).toNat (shAddralign obj i).toNat ∧
    (layoutOffset obj i).toNat + (shSize obj i).toNat < 2 ^ 64

/-- Then the offsets are those of the plain layout. -/
theorem Regular.toNat_layoutTot (h : Regular obj n) :
    ∀ i ≤ n, (layoutTot obj i).toNat = cursor (piece obj) i := by
  intro i
  induction i with
  | zero => exact fun _ => rfl
  | succ i ih =>
      intro hi
      have htot := ih (by omega)
      by_cases halloc : Allocated obj i
      · obtain ⟨hoffset, hend⟩ := h i hi halloc
        rw [layoutTot, if_pos halloc, cursor_some (piece_of_allocated halloc), ← layoutOffset,
          BitVec.toNat_add, Nat.mod_eq_of_lt hend, hoffset, htot]
      · rw [layoutTot, if_neg halloc, cursor_none (if_neg halloc), htot]

/-- A section without an alignment is laid out right behind empty sections only. -/
theorem Regular.empty_before (h : Regular obj n) {i j : Nat} (hji : j < i) (hi : i < n)
    (halloc : Allocated obj i) (hj : Allocated obj j) (hzero : shAddralign obj i = 0#64) :
    shSize obj j = 0#64 := by
  have hoffset := (h i hi halloc).1
  rw [layoutOffset, hzero, alignUp_to_zero, h.toNat_layoutTot i hi.le] at hoffset
  have hempty := cursor_eq_zero_iff.mp hoffset.symm j hji _ (piece_of_allocated hj)
  exact BitVec.eq_of_toNat_eq hempty

/-- From `lo` on something has been laid out at offset 0, if anything. -/
def AtZero (obj : Buf) (lo k : Nat) : Prop :=
  layoutTot obj k = 0#64 ∨
    ∃ i, lo ≤ i ∧ i < k ∧ Allocated obj i ∧ shSize obj i ≠ 0#64 ∧ layoutOffset obj i = 0#64

/-- A section that starts at offset 0. -/
theorem AtZero.of_offset {lo i : Nat} (hlo : lo ≤ i) (halloc : Allocated obj i)
    (hoffset : layoutOffset obj i = 0#64) : AtZero obj lo (i + 1) := by
  by_cases hsize : shSize obj i = 0#64
  · left
    rw [layoutTot, if_pos halloc, ← layoutOffset, hoffset, hsize]
    rfl
  · exact .inr ⟨i, hlo, Nat.lt_succ_self i, halloc, hsize, hoffset⟩

variable (haligns : ∀ i < shnum obj, Allocated obj i → IsAlign (shAddralign obj i))

include haligns

/-- An object that fits is laid out regularly. -/
theorem LayoutFits.regular (h : LayoutFits obj base) : Regular obj (shnum obj) := by
  obtain ⟨hempty, hroom⟩ := h
  have hregular : ∀ k ≤ shnum obj, Regular obj k := by
    intro k
    induction k with
    | zero => exact fun _ i hi => absurd hi (Nat.not_lt_zero i)
    | succ k ih =>
        intro hk i hi halloc
        have hreg := ih (by omega)
        rcases Nat.lt_succ_iff_lt_or_eq.mp hi with hlt | rfl
        · exact hreg i hlt halloc
        · have htot := hreg.toNat_layoutTot i le_rfl
          have hend := start_add_size_le_cursor (piece_of_allocated halloc) hk
          simp only at hend
          rcases alignUp_cases (layoutTot obj i) (haligns i hk halloc) with
            hexact | ⟨-, hne, hzero | hwrap⟩
          · refine ⟨hexact, ?_⟩
            rw [layoutOffset, hexact, htot]
            omega
          · -- everything before is empty, so the layout is still at 0
            have hcursor : cursor (piece obj) i = 0 := by
              rw [cursor_eq_zero_iff]
              intro j hj p hp
              rw [piece] at hp
              split_ifs at hp with hjalloc
              · cases hp
                rw [hempty i j hj hk halloc hjalloc hzero]
                rfl
              · cases hp
            exact absurd (BitVec.eq_of_toNat_eq (y := 0#64) (htot.trans hcursor)) hne
          · rw [htot] at hwrap
            omega
  exact hregular (shnum obj) le_rfl

theorem AtZero.succ {lo k : Nat} (hlo : lo ≤ k) (hk : k < shnum obj) (h : AtZero obj lo k) :
    AtZero obj lo (k + 1) := by
  rcases h with hzero | ⟨i, hi, hik, hrest⟩
  · by_cases halloc : Allocated obj k
    · refine AtZero.of_offset hlo halloc ?_
      rw [layoutOffset, hzero, alignUp_from_zero (haligns k hk halloc)]
    · left
      rw [layoutTot, if_neg halloc, hzero]
  · exact .inr ⟨i, hi, hik.trans (Nat.lt_succ_self k), hrest⟩

theorem AtZero.mono {lo k k' : Nat} (hlo : lo ≤ k) (hkk : k ≤ k') (hk : k' ≤ shnum obj)
    (h : AtZero obj lo k) : AtZero obj lo k' := by
  induction k', hkk using Nat.le_induction with
  | base => exact h
  | succ k' hkk ih => exact AtZero.succ haligns (hlo.trans hkk) hk (ih (Nat.le_of_succ_le hk))

end Offsets

section Sound

variable {obj b : Buf} {base : Word}

/-- What a placed object has in its headers. -/
theorem Placed.shAddr_eq (ht : TableInside obj) {addrs : Nat → Word} (h : Placed obj addrs b)
    {i : Nat} (hi : i < shnum obj) :
    shAddr b i = addrs i ∧ shSize b i = shSize obj i ∧ shAddralign b i = shAddralign obj i ∧
      (Allocated b i ↔ Allocated obj i) := by
  have hat : shdrAt b i = shdrAt obj i := by rw [shdrAt, shdrAt, h.eShoff_eq ht]
  obtain ⟨hflags, hsize, halign⟩ := h.fields ht hi
  have haddr := h.addr i hi
  rw [← hat] at hflags hsize halign haddr
  refine ⟨haddr, hsize, halign, ?_⟩
  have hflags' : shFlags b i = shFlags obj i := hflags
  rw [Allocated, Allocated, hflags']

/-- A section of a placed object that gets memory. -/
theorem Placed.allocated (ht : TableInside obj) (h : Placed obj (placedAddrs obj base) b) {i : Nat}
    (hi : i < shnum obj) (halloc : Allocated obj i) :
    shAddr b i = layoutOffset obj i + base ∧
      loadedRange b i = ⟨(layoutOffset obj i + base).toNat, (shSize obj i).toNat⟩ := by
  obtain ⟨haddr, hsize, -, -⟩ := h.shAddr_eq ht hi
  rw [placedAddrs, if_pos halloc] at haddr
  exact ⟨haddr, by rw [loadedRange, haddr, hsize]⟩

/-- Every section lies behind the base, without wrapping. -/
theorem LayoutSound.offset_le (ht : TableInside obj) (h : Placed obj (placedAddrs obj base) b)
    {totsz : Word} (hsound : LayoutSound b base totsz) {i : Nat} (hi : i < shnum obj)
    (halloc : Allocated obj i) :
    (layoutOffset obj i + base).toNat = (layoutOffset obj i).toNat + base.toNat ∧
      (layoutOffset obj i).toNat + (shSize obj i).toNat ≤ totsz.toNat := by
  have hblock := hsound.block
  have hlt := (layoutOffset obj i).isLt
  have hin := hsound.inside i (by rwa [h.shnum_eq ht]) ((h.shAddr_eq ht hi).2.2.2.mpr halloc)
  rw [(h.allocated ht hi halloc).2] at hin
  simp only [Range.Within, BitVec.toNat_add] at hin
  rw [BitVec.toNat_add]
  omega

variable (haligns : ∀ i < shnum obj, Allocated obj i → IsAlign (shAddralign obj i))

include haligns

/-- A sound layout never starts again. -/
theorem LayoutSound.not_reset (ht : TableInside obj) (h : Placed obj (placedAddrs obj base) b)
    (hsound : LayoutSound b base (layoutTot obj (shnum obj))) {j : Nat} (hj : j < shnum obj)
    (halloc : Allocated obj j) (hoffset : layoutOffset obj j = 0#64) :
    layoutTot obj j = 0#64 := by
  by_contra hne
  -- a section before `j` is at offset 0, and it is not empty
  have hbefore : AtZero obj 0 j :=
    AtZero.mono haligns le_rfl (Nat.zero_le j) hj.le (.inl rfl)
  obtain ⟨i, -, hij, hi, hsize, hzero⟩ := hbefore.resolve_left hne
  have hpos : 0 < (shSize obj i).toNat := by
    rw [Nat.pos_iff_ne_zero]
    exact fun h0 => hsize (BitVec.eq_of_toNat_eq h0)
  -- from `j` on the end is 0 again, or another section is at offset 0
  have hafter : AtZero obj j (shnum obj) :=
    AtZero.mono haligns (Nat.le_succ j) hj le_rfl (AtZero.of_offset le_rfl halloc hoffset)
  obtain ⟨-, hend⟩ := hsound.offset_le ht h (hij.trans hj) hi
  rcases hafter with htot | ⟨k, hjk, hk, hk', hsize', hzero'⟩
  · rw [htot] at hend
    have hzero64 : (0#64).toNat = 0 := rfl
    omega
  · have hpos' : 0 < (shSize obj k).toNat := by
      rw [Nat.pos_iff_ne_zero]
      exact fun h0 => hsize' (BitVec.eq_of_toNat_eq h0)
    have hapart := hsound.disjoint i k (hij.trans_le hjk) (by rwa [h.shnum_eq ht])
      ((h.shAddr_eq ht (hij.trans hj)).2.2.2.mpr hi) ((h.shAddr_eq ht hk).2.2.2.mpr hk')
    rw [(h.allocated ht (hij.trans hj) hi).2, (h.allocated ht hk hk').2, hzero, hzero'] at hapart
    simp only [Range.Apart] at hapart
    omega

/-- A sound layout is regular. -/
theorem LayoutSound.regular (ht : TableInside obj) (h : Placed obj (placedAddrs obj base) b)
    (hsound : LayoutSound b base (layoutTot obj (shnum obj))) : Regular obj (shnum obj) := by
  intro i hi halloc
  obtain ⟨-, hend⟩ := hsound.offset_le ht h hi halloc
  have hlt := (layoutTot obj (shnum obj)).isLt
  refine ⟨?_, by omega⟩
  rcases alignUp_cases (layoutTot obj i) (haligns i hi halloc) with hexact | ⟨hzero, hne, -⟩
  · exact hexact
  · exact absurd (hsound.not_reset haligns ht h hi halloc hzero) hne

omit haligns in
/-- A regular layout in a block that does not wrap. -/
theorem Regular.offset_le (h : Regular obj (shnum obj))
    (hroom : base.toNat + cursor (piece obj) (shnum obj) < 2 ^ 64) {i : Nat} (hi : i < shnum obj)
    (halloc : Allocated obj i) :
    (layoutOffset obj i + base).toNat =
        roundUp (cursor (piece obj) i) (shAddralign obj i).toNat + base.toNat ∧
      roundUp (cursor (piece obj) i) (shAddralign obj i).toNat + (shSize obj i).toNat ≤
        cursor (piece obj) (shnum obj) := by
  have hend := start_add_size_le_cursor (piece_of_allocated halloc) hi
  simp only at hend
  refine ⟨?_, hend⟩
  rw [BitVec.toNat_add, (h i hi halloc).1, h.toNat_layoutTot i hi.le, Nat.mod_eq_of_lt (by omega)]

omit haligns in
theorem le_layoutAlign {i k : Nat} (hik : i < k) (halloc : Allocated obj i) :
    (shAddralign obj i).toNat ≤ (layoutAlign obj k).toNat := by
  induction k with
  | zero => exact absurd hik (Nat.not_lt_zero i)
  | succ k ih =>
      rw [layoutAlign]
      rcases Nat.lt_succ_iff_lt_or_eq.mp hik with hlt | rfl
      · split_ifs with hgt
        · exact (ih hlt).trans (BitVec.lt_def.mp hgt.2).le
        · exact ih hlt
      · split_ifs with hgt
        · exact le_rfl
        · rw [not_and, BitVec.not_lt] at hgt
          exact BitVec.le_def.mp (hgt halloc)

omit haligns in
/-- What `arena_alloc` returns is aligned. -/
theorem arenaAlloc_aligned {A : Memory.Arena} {brk size alignment base : Word}
    (h : arenaAlloc A brk size alignment = .ok base) {k : Nat} (hk : 2 ^ k ≤ alignment.toNat) :
    2 ^ k ∣ base.toNat := by
  rw [arenaAlloc] at h
  split_ifs at h with hpow hfull
  cases h
  have hmax := Memory.Call.align_eq_max ⟨size, alignment⟩
  obtain ⟨p, hp⟩ := exists_two_pow_of_and_sub_one (by rw [hmax]; omega) (not_not.mp hpow)
  have hkp : 2 ^ k ≤ 2 ^ p := by
    rw [← hp, hmax]
    exact hk.trans (le_max_left _ _)
  exact (Nat.pow_dvd_pow 2 ((Nat.pow_le_pow_iff_right (by decide)).mp hkp)).trans
    (dvd_alignUp brk hp)

/-- The addresses are aligned, whatever else happens. -/
theorem dvd_placed {A : Memory.Arena} {brk totsz : Word}
    (halloc : arenaAlloc A brk totsz (layoutAlign obj (shnum obj)) = .ok base) {i : Nat}
    (hi : i < shnum obj) (ha : Allocated obj i) (hne : shAddralign obj i ≠ 0#64) :
    (shAddralign obj i).toNat ∣ (layoutOffset obj i + base).toNat := by
  obtain ⟨k, hk⟩ := (haligns i hi ha).resolve_left hne
  have hk64 : k ≤ 64 := by
    have hlt := (shAddralign obj i).isLt
    rw [hk] at hlt
    exact ((Nat.pow_lt_pow_iff_right (by decide)).mp hlt).le
  rw [hk, BitVec.toNat_add, Nat.dvd_mod_iff (Nat.pow_dvd_pow 2 hk64)]
  refine Nat.dvd_add (dvd_alignUp _ hk) (arenaAlloc_aligned halloc ?_)
  rw [← hk]
  exact le_layoutAlign hi ha

end Sound

section Objects

open Lib.Bytes (le)

/-- A RISC-V object with two sections of 8 bytes: header, section headers, `.text` and
`.rodata`, the latter with the given alignment. -/
def twoSections (align : Nat) : Buf :=
  [elfHeader 243 64 3, shdrBytes 0 0 0 0 0 0 0, shdrBytes 1 6 256 8 0 4 0,
    shdrBytes 1 2 264 8 0 align 0, le 8 1, le 8 2].flatten

/-- The code arena of the client. -/
def codeArena : Memory.Arena where
  start := 0x400008000000#64
  stop := 0x400048000000#64
  pagesize := 0x1000#64
  ordered := by decide
  below := by decide

/-- Placing that object in the empty arena. -/
def placeTwo (align : Nat) : Checked Errno (Buf × Word × Word) :=
  RtldElf.placeObject { riscvElf with reShdr := 64#64 } (arenaAlloc codeArena codeArena.start)
    (twoSections align)

end Objects

end Instrew.Client
