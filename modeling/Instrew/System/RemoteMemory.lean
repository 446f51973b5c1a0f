import Instrew.Client.Translator
import Instrew.Lib.Imm
import Instrew.Lib.Run
import Instrew.Server.Connection

/-!
# Guest memory seen from the server

`RemoteMemory` of `connection.cc`, with the client's answers to its memory requests. `Get`
goes over the pages of a range; a page comes from the cache or from the client, which is asked
for one page at a time and says whether it could be read. Pages that could not be read are not
kept.

The loop ends because the topmost page of the address space is never readable, which is also
what keeps `cur + PG_SIZE` from overflowing. `get_readable_prefix` states what is returned and
written, whatever earlier calls have left in the cache.
-/

namespace Instrew.System.RemoteMemory

open Client Server Lib.Bytes Lib.Dialogue Lib.Imm Lib.Run

/-- The guest's memory, and which of its pages can be read. -/
structure GuestMem : Type where
  byte : Word → Byte
  readable : Nat → Bool

/-- The page number of an address. -/
def pageOf (a : Nat) : Nat := a / pgSize

/-- What the client finds at the start of a page. -/
def GuestMem.page (g : GuestMem) (pageAddr : Word) : Option (Nat → Byte) :=
  if g.readable (pageOf pageAddr.toNat) then some fun i => g.byte (pageAddr + BitVec.ofNat 64 i)
  else none

abbrev Page : Type := { l : List Byte // l.length = pgSize }

/-- The answer to `S_MEMREQ`. -/
structure Reply : Type where
  msgid : BitVec 32
  page : Page
  failed : Byte

/-- The answer of `translator_get`. -/
def answer (g : GuestMem) (pageAddr : Word) : Reply where
  msgid := MsgId.cMembuf.num
  page := ⟨(membuf pgSize (g.page pageAddr)).1, length_membuf pgSize _⟩
  failed := (membuf pgSize (g.page pageAddr)).2

/-- `page_cache`. -/
abbrev PageCache : Type := Word → Option Page

def PageCache.empty : PageCache := fun _ => none

section Functions

variable (client : Word → Reply)

def getPage (cache : PageCache) (pageAddr : Word) : Option Page × PageCache :=
  match cache pageAddr with
  | some page => (some page, cache)
  | none =>
      let reply := client pageAddr
      if reply.msgid ≠ MsgId.cMembuf.num then (none, cache)
      else if reply.failed ≠ 0#8 then (none, cache)
      else (some reply.page, Function.update cache pageAddr (some reply.page))

/-- The variables of `Get` that change in its loop. -/
structure Progress : Type where
  cache : PageCache
  buf : Nat → Byte
  bytesWritten : Word

/-- `std::copy` to a position of the buffer. -/
def copyTo (buf : Nat → Byte) (pos : Nat) (src : List Byte) : Nat → Byte := fun i =>
  if pos ≤ i ∧ i < pos + src.length then src.getD (i - pos) 0#8 else buf i

def pgMask : Word := 0x1000#64 - 1#64

def startOff (start cur : Word) : Word := if cur < start then start &&& pgMask else 0#64

def endOff (stop cur : Word) : Word :=
  if stop < cur + 0x1000#64 then stop &&& pgMask else 0x1000#64

/-- The part of a page that belongs to the range. -/
def copyPage (start stop cur : Word) (page : Page) (s : Progress) : Progress where
  cache := s.cache
  buf := copyTo s.buf s.bytesWritten.toNat
    ((page.val.take (endOff stop cur).toNat).drop (startOff start cur).toNat)
  bytesWritten := s.bytesWritten + (endOff stop cur - startOff start cur)

/-- The loop of `Get`, for at most `fuel` rounds. -/
def getLoop (start stop : Word) : Nat → Word → Progress → Option Progress
  | 0, _, _ => none
  | fuel + 1, cur, s =>
      if cur ≤ stop &&& ~~~pgMask then
        match getPage client s.cache cur with
        | (none, cache) => some { s with cache := cache }
        | (some page, cache) =>
            getLoop start stop fuel (cur + 0x1000#64)
              (copyPage start stop cur page { s with cache := cache })
      else some s

def get (fuel : Nat) (cache : PageCache) (start stop : Word) (buf : Nat → Byte) : Option Progress :=
  getLoop client start stop fuel (start &&& ~~~pgMask) ⟨cache, buf, 0#64⟩

structure GetCall : Type where
  fuel : Nat
  start : Word
  stop : Word
  buf : Nat → Byte

/-- What a call of `Get` leaves in the cache. -/
def getStep (cache : PageCache) (c : GetCall) : Option PageCache :=
  (get client c.fuel cache c.start c.stop c.buf).map Progress.cache

end Functions

/-! ## Pages -/

section Pages

variable {g : GuestMem} {cache : PageCache} {pageAddr : Word}

/-- A page that is not in the cache: the client answers with a `C_MEMBUF`. -/
theorem getPage_of_miss (hmiss : cache pageAddr = none) :
    getPage (answer g) cache pageAddr =
      if (answer g pageAddr).failed ≠ 0#8 then (none, cache)
      else (some (answer g pageAddr).page,
        Function.update cache pageAddr (some (answer g pageAddr).page)) := by
  have hmsgid : (answer g pageAddr).msgid = MsgId.cMembuf.num := rfl
  rw [getPage, hmiss]
  dsimp only
  rw [if_neg (not_not.mpr hmsgid)]

/-- The two ends of the socket agree on a page that is not in the cache: the client sends what
`answer` says, and the end of `GetPage` makes of it what `getPage` says. -/
theorem answer_exchanged (t : Translator) (addr : Word) {c : IWConnection} (hc : c.recvSz = 0#32)
    (hmiss : cache pageAddr = none) :
    Runs (writePage t addr pgSize (g.page pageAddr)) []
        (payload (answer g pageAddr).page.val ++ payload [(answer g pageAddr).failed])
        (.looping t addr) ∧
      Runs (readPage { c with recvSz := 0x1001#32 })
        (payload (answer g pageAddr).page.val ++ payload [(answer g pageAddr).failed]) []
        ((getPage (answer g) cache pageAddr).1.map Subtype.val, c) := by
  refine ⟨writePage_runs t addr pgSize _, ?_⟩
  have hread := readPage_runs hc (answer g pageAddr).failed (answer g pageAddr).page.property
  have hvalue : (getPage (answer g) cache pageAddr).1.map Subtype.val =
      if [(answer g pageAddr).failed] ≠ [0#8] then none else some (answer g pageAddr).page.val := by
    rw [getPage_of_miss hmiss]
    by_cases hfailed : (answer g pageAddr).failed = 0#8 <;> simp [hfailed]
  rwa [hvalue]

/-- Every page in the cache is what the client has there. -/
def CacheHolds (g : GuestMem) (cache : PageCache) : Prop :=
  ∀ a page, cache a = some page → g.readable (pageOf a.toNat) = true ∧
    page.val = (List.range pgSize).map fun i => g.byte (a + BitVec.ofNat 64 i)

theorem cacheHolds_empty (g : GuestMem) : CacheHolds g .empty := fun _ _ h => nomatch h

theorem answer_of_readable (h : g.readable (pageOf pageAddr.toNat) = true) :
    (answer g pageAddr).failed = 0#8 ∧ (answer g pageAddr).page.val =
      (List.range pgSize).map fun i => g.byte (pageAddr + BitVec.ofNat 64 i) := by
  have hpage : g.page pageAddr = some fun i => g.byte (pageAddr + BitVec.ofNat 64 i) := by
    rw [GuestMem.page, if_pos h]
  simp only [answer, hpage, membuf, and_self]

theorem answer_of_not_readable (h : g.readable (pageOf pageAddr.toNat) = false) :
    (answer g pageAddr).failed = 1#8 := by
  have hpage : g.page pageAddr = none := by rw [GuestMem.page, h, if_neg Bool.false_ne_true]
  simp only [answer, hpage, membuf]

theorem getPage_of_readable (hcache : CacheHolds g cache)
    (h : g.readable (pageOf pageAddr.toNat) = true) :
    ∃ page cache', getPage (answer g) cache pageAddr = (some page, cache') ∧ CacheHolds g cache' ∧
      page.val = (List.range pgSize).map fun i => g.byte (pageAddr + BitVec.ofNat 64 i) := by
  cases hfound : cache pageAddr with
  | some page =>
      refine ⟨page, cache, ?_, hcache, (hcache pageAddr page hfound).2⟩
      rw [getPage, hfound]
  | none =>
      obtain ⟨hfailed, hpage⟩ := answer_of_readable h
      refine ⟨(answer g pageAddr).page, Function.update cache pageAddr (some (answer g pageAddr).page),
        ?_, ?_, hpage⟩
      · rw [getPage_of_miss hfound, if_neg (not_not.mpr hfailed)]
      · intro a page ha
        rcases eq_or_ne a pageAddr with rfl | hne
        · rw [Function.update_self] at ha
          cases ha
          exact ⟨h, hpage⟩
        · rw [Function.update_of_ne hne] at ha
          exact hcache a page ha

theorem getPage_of_not_readable (hcache : CacheHolds g cache)
    (h : g.readable (pageOf pageAddr.toNat) = false) :
    getPage (answer g) cache pageAddr = (none, cache) := by
  cases hfound : cache pageAddr with
  | some page =>
      have htrue := (hcache pageAddr page hfound).1
      rw [h] at htrue
      cases htrue
  | none =>
      rw [getPage_of_miss hfound, answer_of_not_readable h, if_pos (by decide)]

/-- No call spoils the cache. -/
theorem getLoop_cacheHolds {start stop : Word} : ∀ {fuel : Nat} {cur : Word} {s s' : Progress},
    CacheHolds g s.cache → getLoop (answer g) start stop fuel cur s = some s' →
      CacheHolds g s'.cache
  | 0, _, _, _, _, hrun => nomatch hrun
  | fuel + 1, cur, s, s', hcache, hrun => by
      rw [getLoop] at hrun
      split_ifs at hrun with hcur
      · cases hread : g.readable (pageOf cur.toNat) with
        | false =>
            rw [getPage_of_not_readable hcache hread] at hrun
            cases hrun
            exact hcache
        | true =>
            obtain ⟨page, cache', hget, hcache', -⟩ := getPage_of_readable hcache hread
            rw [hget] at hrun
            exact getLoop_cacheHolds (s := copyPage start stop cur page { s with cache := cache' })
              hcache' hrun
      · cases hrun
        exact hcache

theorem cacheHolds_of_run {earlier : List GetCall}
    (h : run (getStep (answer g)) .empty earlier = some cache) : CacheHolds g cache := by
  refine run_invariant (fun c a c' hc hstep => ?_) earlier (cacheHolds_empty g) h
  obtain ⟨s, hget, rfl⟩ := Option.map_eq_some_iff.mp hstep
  exact getLoop_cacheHolds hc hget

end Pages

/-! ## The loop -/

/-- A page that has bytes of a range. -/
def Touches (start len p : Nat) : Prop := ∃ i < len, pageOf (start + i) = p

/-- The range up to its first page that cannot be read. -/
structure ReadablePrefix (g : GuestMem) (start len n : Nat) : Prop where
  whole : (∀ p, Touches start len p → g.readable p = true) → n = len
  first : ∀ p, Touches start len p → g.readable p = false →
    (∀ q < p, Touches start len q → g.readable q = true) → n = p * pgSize - start

/-- `n` bytes have been copied. -/
structure Copied (g : GuestMem) (start : Word) (buf : Nat → Byte) (n : Nat) (s : Progress) : Prop where
  cache : CacheHolds g s.cache
  bytesWritten : s.bytesWritten.toNat = n
  buf : ∀ i, s.buf i = if i < n then g.byte (start + BitVec.ofNat 64 i) else buf i

theorem toNat_pgMask : pgMask.toNat = 2 ^ 12 - 1 := rfl

/-- The address of page `p`. -/
def addrOf (p : Nat) : Word := BitVec.ofNat 64 (p * pgSize)

theorem toNat_addrOf {p : Nat} (hp : p < 2 ^ 52) : (addrOf p).toNat = p * 4096 := by
  rw [addrOf, BitVec.toNat_ofNat, pgSize]
  omega

theorem addrOf_succ (p : Nat) : addrOf p + 0x1000#64 = addrOf (p + 1) := by
  rw [addrOf, addrOf, Nat.succ_mul, BitVec.ofNat_add]
  rfl

theorem and_not_pgMask (a : Word) : a &&& ~~~pgMask = addrOf (pageOf a.toNat) := by
  have hlt := a.isLt
  have hpage : pageOf a.toNat < 2 ^ 52 := by rw [pageOf, pgSize]; omega
  apply BitVec.eq_of_toNat_eq
  rw [toNat_and_not_ones toNat_pgMask, toNat_addrOf hpage]
  rfl

section Loop

variable {g : GuestMem} {start stop : Word} {p : Nat}

/-- The copied part of a page starts at the first byte of the range in it. -/
theorem add_startOff (hp : p < 2 ^ 52) (hlo : pageOf start.toNat ≤ p) :
    p * 4096 + (startOff start (addrOf p)).toNat = max (p * 4096) start.toNat := by
  rw [pageOf, pgSize] at hlo
  rw [startOff]
  split_ifs with hlt
  · rw [BitVec.lt_def, toNat_addrOf hp] at hlt
    rw [toNat_and_ones toNat_pgMask]
    omega
  · rw [BitVec.lt_def, toNat_addrOf hp] at hlt
    rw [BitVec.toNat_zero]
    omega

/-- It ends with the range or with the page. -/
theorem add_endOff (hp : p + 1 < 2 ^ 52) (hhi : p ≤ pageOf stop.toNat) :
    p * 4096 + (endOff stop (addrOf p)).toNat = min ((p + 1) * 4096) stop.toNat := by
  rw [pageOf, pgSize] at hhi
  rw [endOff, addrOf_succ]
  split_ifs with hlt
  · rw [BitVec.lt_def, toNat_addrOf hp] at hlt
    rw [toNat_and_ones toNat_pgMask]
    omega
  · rw [BitVec.lt_def, toNat_addrOf hp] at hlt
    rw [show (0x1000#64).toNat = 4096 from rfl]
    omega

theorem getD_slice_page {page : Page} {mem : Nat → Byte} {lo hi i : Nat}
    (hpage : page.val = (List.range pgSize).map mem) (hhi : hi ≤ 4096) (hi' : lo + i < hi) :
    ((page.val.take hi).drop lo).getD i 0#8 = mem (lo + i) := by
  have hlt : lo + i < pgSize := by rw [pgSize]; omega
  rw [List.getD_eq_getElem?_getD, List.getElem?_drop, List.getElem?_take_of_lt hi', hpage,
    List.getElem?_map, List.getElem?_range hlt]
  rfl

/-- One round: everything of the range up to the end of the page is there. -/
theorem copyPage_copied {page : Page} {buf : Nat → Byte} {s : Progress} (hp : p + 1 < 2 ^ 52)
    (hlo : pageOf start.toNat ≤ p) (hhi : p ≤ pageOf stop.toNat) (hle : start.toNat ≤ stop.toNat)
    (hpage : page.val = (List.range pgSize).map fun i => g.byte (addrOf p + BitVec.ofNat 64 i))
    {n : Nat} (hn : n = min (p * 4096) stop.toNat - start.toNat) (h : Copied g start buf n s) :
    Copied g start buf (min ((p + 1) * 4096) stop.toNat - start.toNat)
      (copyPage start stop (addrOf p) page s) := by
  have hstart := add_startOff (Nat.lt_of_succ_lt hp) hlo
  have hstop := add_endOff hp hhi
  rw [pageOf, pgSize] at hlo hhi
  generalize hlo' : startOff start (addrOf p) = lo at hstart
  generalize hhi' : endOff stop (addrOf p) = hi at hstop
  have hfrom : p * 4096 + lo.toNat = start.toNat + n := by omega
  have hnext : min ((p + 1) * 4096) stop.toNat - start.toNat = n + (hi.toNat - lo.toNat) := by omega
  have hslice : lo.toNat ≤ hi.toNat ∧ hi.toNat ≤ 4096 := by omega
  have hbound : n + (hi.toNat - lo.toNat) < 2 ^ 64 := by
    have hlt := stop.isLt
    omega
  rw [hnext]
  refine ⟨h.cache, ?_, fun i => ?_⟩
  · rw [copyPage, hlo', hhi', BitVec.toNat_add,
      BitVec.toNat_sub_of_le (by rw [BitVec.le_def]; exact hslice.1), h.bytesWritten,
      Nat.mod_eq_of_lt hbound]
  · have hlen : ((page.val.take hi.toNat).drop lo.toNat).length = hi.toNat - lo.toNat := by
      rw [List.length_drop, List.length_take, page.property, pgSize, min_eq_left hslice.2]
    simp only [copyPage, copyTo, hlo', hhi', hlen, h.bytesWritten]
    by_cases hin : n ≤ i ∧ i < n + (hi.toNat - lo.toNat)
    · -- a byte of this page
      have hoff : p * 4096 + (lo.toNat + (i - n)) = start.toNat + i := by omega
      rw [if_pos hin, if_pos hin.2, getD_slice_page hpage hslice.2 (by omega), addrOf,
        ← BitVec.ofNat_add, pgSize, hoff, BitVec.ofNat_add, BitVec.ofNat_toNat, BitVec.setWidth_eq]
    · rw [if_neg hin, h.buf]
      exact if_congr (by omega) rfl rfl

theorem touches_iff {start len p : Nat} (hpage : pageOf start ≤ p) :
    Touches start len p ↔ 0 < len ∧ p * 4096 < start + len := by
  rw [pageOf, pgSize] at hpage
  constructor
  · rintro ⟨i, hi, rfl⟩
    rw [pageOf, pgSize]
    omega
  · rintro ⟨hlen, hlt⟩
    refine ⟨p * 4096 - start, by omega, ?_⟩
    rw [pageOf, pgSize]
    omega

theorem Touches.pageOf_le {start len p : Nat} (h : Touches start len p) : pageOf start ≤ p := by
  obtain ⟨i, -, rfl⟩ := h
  exact Nat.div_le_div_right (Nat.le_add_right start i)

/-- The loop has left a page out. -/
theorem readablePrefix_of_not_readable {start len : Nat} (hlo : pageOf start ≤ p)
    (hhi : p ≤ pageOf (start + len)) (hread : ∀ q, pageOf start ≤ q → q < p → g.readable q = true)
    (hp : g.readable p = false) : ReadablePrefix g start len (p * 4096 - start) where
  whole := by
    intro hall
    have hnot : ¬ Touches start len p := fun h => Bool.false_ne_true (hp.symm.trans (hall p h))
    rw [touches_iff hlo] at hnot
    rw [pageOf, pgSize] at hhi
    omega
  first := by
    intro q hq hnot hbelow
    have hpq : p ≤ q := by
      by_contra hlt
      rw [hread q hq.pageOf_le (Nat.lt_of_not_le hlt)] at hnot
      cases hnot
    rcases Nat.eq_or_lt_of_le hpq with rfl | hlt
    · rfl
    · -- it would have bytes of the range itself
      have htouch : Touches start len p := by
        rw [touches_iff hq.pageOf_le] at hq
        rw [touches_iff hlo]
        exact ⟨hq.1, (Nat.mul_lt_mul_of_pos_right hlt (by decide)).trans hq.2⟩
      rw [hbelow p hlt htouch] at hp
      cases hp

/-- The loop has seen all pages. -/
theorem readablePrefix_of_readable {start len : Nat}
    (hread : ∀ q, pageOf start ≤ q → q ≤ pageOf (start + len) → g.readable q = true) :
    ReadablePrefix g start len len where
  whole _ := rfl
  first q hq hnot _ := by
    have hle : q ≤ pageOf (start + len) := by
      obtain ⟨i, hi, rfl⟩ := hq
      exact Nat.div_le_div_right (by omega)
    rw [hread q hq.pageOf_le hle] at hnot
    cases hnot

theorem ReadablePrefix.unique {start len n n' : Nat} (h : ReadablePrefix g start len n)
    (h' : ReadablePrefix g start len n') : n = n' := by
  classical
  by_cases hall : ∀ p, Touches start len p → g.readable p = true
  · rw [h.whole hall, h'.whole hall]
  · have hex : ∃ p, Touches start len p ∧ g.readable p = false := by
      simpa only [not_forall, exists_prop, Bool.not_eq_true] using hall
    have hleast : ∀ q < Nat.find hex, Touches start len q → g.readable q = true := by
      intro q hq htouch
      by_contra hnot
      exact Nat.find_min hex hq ⟨htouch, Bool.eq_false_of_not_eq_true hnot⟩
    obtain ⟨htouch, hnot⟩ := Nat.find_spec hex
    rw [h.first _ htouch hnot hleast, h'.first _ htouch hnot hleast]

/-- The last page of the address space. -/
def topPage : Nat := 2 ^ 52 - 1

/-- A page that can be read is not the last one. -/
theorem succ_lt_of_readable {p : Nat} (htop : g.readable topPage = false) (hp : p < 2 ^ 52)
    (hread : g.readable p = true) : p + 1 < 2 ^ 52 := by
  by_contra hge
  have hlast : p = topPage := by
    rw [topPage]
    omega
  rw [← hlast, hread] at htop
  cases htop

theorem addrOf_le_iff {p q : Nat} (hp : p < 2 ^ 52) (hq : q < 2 ^ 52) :
    addrOf p ≤ addrOf q ↔ p ≤ q := by
  rw [BitVec.le_def, toNat_addrOf hp, toNat_addrOf hq]
  omega

/-- The loop from page `p` on, when all pages before it could be read. -/
theorem getLoop_readablePrefix (htop : g.readable topPage = false) {len : Nat} {buf : Nat → Byte}
    (hstop : stop.toNat = start.toNat + len) :
    ∀ {fuel p n : Nat} {s : Progress}, pageOf start.toNat ≤ p → p ≤ pageOf stop.toNat + 1 →
      pageOf stop.toNat + 2 ≤ p + fuel →
      (∀ q, pageOf start.toNat ≤ q → q < p → g.readable q = true) →
      n = min (p * 4096) stop.toNat - start.toNat → Copied g start buf n s →
      ∃ n' s', getLoop (answer g) start stop fuel (addrOf p) s = some s' ∧
        Copied g start buf n' s' ∧ ReadablePrefix g start.toNat len n'
  | 0, p, _, _, _, hhi, hfuel, _, _, _ => by omega
  | fuel + 1, p, n, s, hlo, hhi, hfuel, hread, hn, h => by
      have hlast : pageOf stop.toNat < 2 ^ 52 := by
        have hlt := stop.isLt
        rw [pageOf, pgSize]
        omega
      have hle : pageOf start.toNat ≤ pageOf stop.toNat := by
        rw [hstop]
        exact Nat.div_le_div_right (Nat.le_add_right _ _)
      rw [getLoop, and_not_pgMask]
      rcases Nat.lt_or_ge (pageOf stop.toNat) p with hdone | hmore
      · -- behind the last page, which is not the topmost one
        have hnext := succ_lt_of_readable htop hlast (hread _ hle hdone)
        have hp : p < 2 ^ 52 := by omega
        rw [if_neg (mt (addrOf_le_iff hp hlast).mp (Nat.not_le_of_lt hdone))]
        have hlen : n = len := by
          rw [pageOf, pgSize] at hdone
          omega
        refine ⟨len, s, rfl, hlen ▸ h, readablePrefix_of_readable fun q hq hq' => ?_⟩
        rw [← hstop] at hq'
        exact hread q hq (Nat.lt_of_le_of_lt hq' hdone)
      · have hp : p < 2 ^ 52 := Nat.lt_of_le_of_lt hmore hlast
        have hpage : pageOf (addrOf p).toNat = p := by
          rw [toNat_addrOf hp, pageOf, pgSize]
          omega
        rw [if_pos ((addrOf_le_iff hp hlast).mpr hmore)]
        cases hp' : g.readable p with
        | false =>
            rw [getPage_of_not_readable h.cache (by rw [hpage]; exact hp')]
            have hn' : n = p * 4096 - start.toNat := by
              rw [pageOf, pgSize] at hmore
              omega
            refine ⟨n, s, rfl, h, ?_⟩
            rw [hn']
            exact readablePrefix_of_not_readable hlo (hstop ▸ hmore) hread hp'
        | true =>
            have hsucc := succ_lt_of_readable htop hp hp'
            rw [← hpage] at hp'
            obtain ⟨page, cache', hget, hcache', hbytes⟩ := getPage_of_readable h.cache hp'
            rw [hget]
            have hcopied := copyPage_copied hsucc hlo hmore (by omega) hbytes hn
              (s := { s with cache := cache' }) ⟨hcache', h.bytesWritten, h.buf⟩
            dsimp only
            rw [addrOf_succ]
            refine getLoop_readablePrefix htop hstop (Nat.le_succ_of_le hlo) (Nat.succ_le_succ hmore)
              (by omega) (fun q hq hq' => ?_) rfl hcopied
            rcases Nat.eq_or_lt_of_le (Nat.le_of_lt_succ hq') with rfl | hlt
            · exact hpage ▸ hp'
            · exact hread q hq hlt

/-- A range that does not wrap: the loop starts at its first page. -/
theorem get_of_fits (htop : g.readable topPage = false) {len fuel : Nat} {buf : Nat → Byte}
    {cache : PageCache} (hnone : Copied g start buf 0 ⟨cache, buf, 0#64⟩)
    (hstop : stop.toNat = start.toNat + len)
    (hfuel : pageOf stop.toNat + 2 ≤ pageOf start.toNat + fuel) :
    ∃ n s, get (answer g) fuel cache start stop buf = some s ∧ Copied g start buf n s ∧
      ReadablePrefix g start.toNat len n := by
  have hle : pageOf start.toNat ≤ pageOf stop.toNat := by
    rw [hstop]
    exact Nat.div_le_div_right (Nat.le_add_right _ _)
  rw [get, and_not_pgMask]
  apply getLoop_readablePrefix htop hstop le_rfl (Nat.le_succ_of_le hle) hfuel _ _ hnone
  · intro q hq hq'
    exact absurd hq (Nat.not_le.mpr hq')
  · rw [pageOf, pgSize]
    omega

/-- Nothing is copied if the last page lies before the first one. -/
theorem get_of_wraps {cache : PageCache} {buf : Nat → Byte}
    (h : pageOf stop.toNat < pageOf start.toNat) (fuel : Nat) :
    get (answer g) (fuel + 1) cache start stop buf = some ⟨cache, buf, 0#64⟩ := by
  have hfirst : pageOf start.toNat < 2 ^ 52 := by
    have hlt := start.isLt
    rw [pageOf, pgSize]
    omega
  rw [get, and_not_pgMask, getLoop, and_not_pgMask,
    if_neg (mt (addrOf_le_iff hfirst (h.trans hfirst)).mp (Nat.not_le_of_lt h))]

end Loop

/-- **`Get` returns the readable prefix** of a range, and 0 if the range wraps. -/
theorem get_readable_prefix (g : GuestMem) (htop : g.readable topPage = false)
    (earlier : List GetCall) (cache : PageCache)
    (hearlier : run (getStep (answer g)) .empty earlier = some cache) (start : Word) (len : Nat)
    (hlen : len < 2 ^ 63) (buf : Nat → Byte) :
    ∃ n rounds, (2 ^ 64 ≤ start.toNat + len → n = 0) ∧
      (start.toNat + len < 2 ^ 64 → ReadablePrefix g start.toNat len n) ∧
      ∀ fuel ≥ rounds, ∃ s, get (answer g) fuel cache start (start + BitVec.ofNat 64 len) buf = some s ∧
        s.bytesWritten.toNat = n ∧
        ∀ i, s.buf i = if i < n then g.byte (start + BitVec.ofNat 64 i) else buf i := by
  have hcache := cacheHolds_of_run hearlier
  have hnone : Copied g start buf 0 ⟨cache, buf, 0#64⟩ :=
    ⟨hcache, rfl, fun i => (if_neg (Nat.not_lt_zero i)).symm⟩
  have hsum : (start + BitVec.ofNat 64 len).toNat = (start.toNat + len) % 2 ^ 64 := by
    rw [BitVec.toNat_add, BitVec.toNat_ofNat, Nat.add_mod_mod]
  have hlt := start.isLt
  rcases Nat.lt_or_ge (start.toNat + len) (2 ^ 64) with hfits | hwraps
  · have hstop : (start + BitVec.ofNat 64 len).toNat = start.toNat + len := by
      rw [hsum, Nat.mod_eq_of_lt hfits]
    generalize start + BitVec.ofNat 64 len = stop at hstop ⊢
    obtain ⟨n, -, -, -, hread⟩ :=
      get_of_fits htop hnone hstop (Nat.le_add_left (pageOf stop.toNat + 2) _)
    refine ⟨n, pageOf stop.toNat + 2, fun h => absurd h (Nat.not_le.mpr hfits), fun _ => hread,
      fun fuel hfuel => ?_⟩
    obtain ⟨n', s, hget, hcopied, hread'⟩ :=
      get_of_fits htop hnone hstop (hfuel.trans (Nat.le_add_left fuel _))
    cases hread.unique hread'
    exact ⟨s, hget, hcopied.bytesWritten, hcopied.buf⟩
  · -- the last page lies before the first one
    refine ⟨0, 1, fun _ => rfl, fun h => absurd hwraps (Nat.not_le.mpr h), fun fuel hfuel => ?_⟩
    obtain ⟨fuel, rfl⟩ := Nat.exists_eq_add_of_le' hfuel
    refine ⟨_, get_of_wraps ?_ fuel, hnone.bytesWritten, hnone.buf⟩
    rw [hsum, pageOf, pageOf, pgSize]
    omega

/-- The page at `0x400000` can be read, the one after it cannot. -/
def onePage : GuestMem := ⟨fun a => a.setWidth 8, fun p => p == 0x400⟩

theorem onePage_get : ∃ rounds, ∀ fuel ≥ rounds, ∃ s,
    get (answer onePage) fuel .empty 0x400ff0#64 0x401010#64 (fun _ => 0xcc#8) = some s ∧
      s.bytesWritten.toNat = 16 ∧ s.buf 1 = 0xf1#8 ∧ s.buf 16 = 0xcc#8 := by
  obtain ⟨n, rounds, -, hread, hget⟩ := get_readable_prefix onePage (by decide) [] .empty rfl
    0x400ff0#64 0x20 (by decide) fun _ => 0xcc#8
  have hn : n = 16 := (hread (by decide)).first 0x401 ⟨0x10, by decide, by decide⟩ (by decide) (by
    rintro q hq ⟨i, hi, rfl⟩
    rw [pageOf, pgSize] at hq ⊢
    have hpage : ((0x400ff0#64).toNat + i) / 4096 = 0x400 := by
      rw [show (0x400ff0#64).toNat = 0x400ff0 from rfl] at *
      omega
    rw [hpage]
    rfl)
  subst hn
  refine ⟨rounds, fun fuel hfuel => ?_⟩
  obtain ⟨s, hs, hwritten, hbuf⟩ := hget fuel hfuel
  exact ⟨s, hs, hwritten, hbuf 1, hbuf 16⟩

end Instrew.System.RemoteMemory
