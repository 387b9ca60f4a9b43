/-
  TinyOs.Memory.PageCode — get_kernel_pages cut at its accesses (kernel/memory.c).

  What stands between lock_acquire and lock_release, with malloc_page and all it calls:
  each byte of a bitmap that is read or stored, each load and store of an entry and each
  byte of memsetCode is an access of its own, and the timer comes between any two of them.
  `bits[i] |= mask` is a load and a store. Of the pools and of kernel_vaddr only the
  locks and the bits ever change, so their other fields are read at once.

  With nobody in between this is `takePages` (`run_takePagesCode`).
-/

import TinyOs.Logic.Sections
import TinyOs.Memory.KernelHeap

namespace TinyOs.Memory

open TinyOs.Kernel TinyOs.Lib TinyOs.Logic TinyOs.Logic.Code

abbrev PageCode := Code Heap Stop

def Heap.set (h : Heap) (s : Mem) : Heap := { h with mem := s }

namespace PageCode

/-! ## Accesses -/

def loadByte (a : Nat) (k : BitVec 8 → PageCode) : PageCode := read (fun h => h.mem.data a) k

def storeByte (a : Nat) (b : BitVec 8) (k : PageCode) : PageCode :=
  write (fun h => h.set { h.mem with data := h.mem.data.write8 a b }) k

def load (p : Nat) (k : Nat → PageCode) : PageCode := fetch (fun h => load32 h.mem.phys h.mem.cr3 p) k

def store (p v : Nat) (k : PageCode) : PageCode :=
  attempt (fun h => do
    let phys ← store32 h.mem.phys h.mem.cr3 p v
    .ok (h.set { h.mem with phys := phys })) k

def check (c : Prop) [Decidable c] (site : Site) (k : PageCode) : PageCode :=
  attempt (fun h => do
    assert c site
    .ok h) k

end PageCode

open PageCode

/-! ## Bitmaps -/

/-- The byte is read before the index is tested. -/
def skipFullCode (btmp : Bitmap) : Nat → Nat → (Nat → PageCode) → PageCode
  | 0, idx, k => loadByte (btmp.bits + idx) fun _ => k idx
  | n + 1, idx, k => loadByte (btmp.bits + idx) fun b => if b = 0xff then skipFullCode btmp n (idx + 1) k else k idx

def firstClearCode (btmp : Bitmap) (idxByte : Nat) : Nat → Nat → (Nat → PageCode) → PageCode
  | 0, idxBit, k => k idxBit
  | n + 1, idxBit, k => loadByte (btmp.bits + idxByte) fun b =>
    if 1#8 <<< idxBit &&& b ≠ 0 then firstClearCode btmp idxByte n (idxBit + 1) k else k idxBit

def scanRunCode (btmp : Bitmap) (cnt : Nat) : Nat → Nat → Nat → (Option Nat → PageCode) → PageCode
  | 0, _, _, k => k none
  | bitLeft + 1, nextBit, count, k => loadByte (btmp.bits + nextBit / 8) fun b =>
    let count := if !decide (b &&& 1#8 <<< (nextBit % 8) ≠ 0) then count + 1 else 0
    if count = cnt then k (some (nextBit + 1 - cnt)) else scanRunCode btmp cnt bitLeft (nextBit + 1) count k

def bitmapScanCode (btmp : Bitmap) (cnt : Nat) (k : Option Nat → PageCode) : PageCode :=
  skipFullCode btmp btmp.btmpBytesLen 0 fun idxByte =>
    if idxByte = btmp.btmpBytesLen then k none
    else firstClearCode btmp idxByte 8 0 fun idxBit =>
      let bitIdxStart := idxByte * 8 + idxBit
      if cnt = 1 then k (some bitIdxStart)
      else scanRunCode btmp cnt (btmp.btmpBytesLen * 8 - bitIdxStart) (bitIdxStart + 1) 1 k

/-- `bitmap_set(btmp, bit_idx, 1)` -/
def bitmapSetCode (btmp : Bitmap) (bitIdx : Nat) (k : PageCode) : PageCode :=
  loadByte (btmp.bits + bitIdx / 8) fun b => storeByte (btmp.bits + bitIdx / 8) (b ||| 1#8 <<< (bitIdx % 8)) k

def setBitsCode (btmp : Bitmap) : Nat → Nat → PageCode → PageCode
  | 0, _, k => k
  | cnt + 1, bitIdx, k => bitmapSetCode btmp bitIdx (setBitsCode btmp cnt (bitIdx + 1) k)

/-! ## Pages -/

/-- `vaddr_get(PF_KERNEL, pg_cnt)` -/
def vaddrGetCode (pgCnt : Nat) (k : Nat → PageCode) : PageCode :=
  read (fun h => h.mem.kernelVaddr) fun va => bitmapScanCode va.vaddrBitmap pgCnt fun bitIdx =>
    match bitIdx with
    | none => k 0
    | some bitIdxStart =>
      setBitsCode va.vaddrBitmap pgCnt bitIdxStart (k ((va.vaddrStart + bitIdxStart * pgSize) % 2 ^ 32))

/-- `pallocCode(&kernel_pool)` -/
def pallocCode (k : Nat → PageCode) : PageCode :=
  read (fun h => h.mem.pool .kernel) fun p => bitmapScanCode p.poolBitmap 1 fun bitIdx =>
    match bitIdx with
    | none => k 0
    | some bitIdx => bitmapSetCode p.poolBitmap bitIdx (k ((p.phyAddrStart + bitIdx * pgSize) % 2 ^ 32))

def memsetLoopCode (value : BitVec 8) : Nat → Nat → PageCode → PageCode
  | 0, _, k => k
  | size + 1, dst, k =>
    attempt (fun h => do
      let pa ← mmu h.mem.phys h.mem.cr3 dst
      .ok (h.set { h.mem with phys := h.mem.phys.write8 pa value }))
      (memsetLoopCode value size ((dst + 1) % 2 ^ 32) k)

def memsetCode (dst : Nat) (value : BitVec 8) (size : Nat) (k : PageCode) : PageCode :=
  check (dst ≠ 0) .memsetDst (memsetLoopCode value size dst k)

/-- With the table there, `*pte` is tested twice. -/
def pageTableAddCode (vaddr pagePhyaddr : Nat) (k : PageCode) : PageCode :=
  load (pdePtr vaddr) fun pde =>
    if Present pde then
      load (ptePtr vaddr) fun pte => check (¬ Present pte) .tableAddPte <|
      load (ptePtr vaddr) fun pte => if ¬ Present pte then store (ptePtr vaddr) (pagePhyaddr ||| pgAttr) k else k
    else
      pallocCode fun pdePhyaddr =>
      store (pdePtr vaddr) (pdePhyaddr ||| pgAttr) <|
      memsetCode (frameOf (ptePtr vaddr)) 0 pgSize <|
      load (ptePtr vaddr) fun pte => check (¬ Present pte) .tableAddNewPte <|
      store (ptePtr vaddr) (pagePhyaddr ||| pgAttr) k

def mapPagesCode : Nat → Nat → (Bool → PageCode) → PageCode
  | 0, _, k => k true
  | cnt + 1, vaddr, k => pallocCode fun pagePhyaddr =>
    if pagePhyaddr = 0 then k false
    else pageTableAddCode vaddr pagePhyaddr (mapPagesCode cnt ((vaddr + pgSize) % 2 ^ 32) k)

/-- `malloc_page(PF_KERNEL, pg_cnt)` -/
def mallocPageCode (pgCnt : Nat) (k : Nat → PageCode) : PageCode :=
  check (0 < pgCnt ∧ pgCnt < 3840) .mallocPgCnt <| vaddrGetCode pgCnt fun vaddrStart =>
    if vaddrStart = 0 then k 0 else mapPagesCode pgCnt vaddrStart fun all => k (if all then vaddrStart else 0)

/-- The answer is noted. No code reads it. -/
def Heap.answer (h : Heap) (vaddr pgCnt : Nat) : Heap := { h with results := (vaddr, pgCnt) :: h.results }

/-- `get_kernel_pages` between lock_acquire and lock_release. -/
def takePagesCode (pgCnt : Nat) : PageCode :=
  mallocPageCode pgCnt fun vaddr =>
    let k := write (fun h => h.answer vaddr pgCnt) .done
    if vaddr ≠ 0 then memsetCode vaddr 0 (pgCnt * pgSize % 2 ^ 32) k else k

/-- The same with nobody in between. -/
def takePages (pgCnt : Nat) (s : Mem) : Except Stop (Nat × Mem) := do
  let (vaddr, s) ← mallocPage .kernel pgCnt s
  let phys ← (if vaddr ≠ 0 then memset s.phys s.cr3 vaddr 0 (pgCnt * pgSize % 2 ^ 32) else .ok s.phys)
  .ok (vaddr, { s with phys := phys })

theorem getKernelPages_eq (pgCnt : Nat) (s : Mem) : getKernelPages pgCnt s =
    (do
      let s ← lockAcquire .kernel s
      let (v, s) ← takePages pgCnt s
      let s ← lockRelease .kernel s
      .ok (v, s)) := by
  unfold getKernelPages takePages
  refine congrArg _ (funext fun s => ?_)
  simp only [bind_assoc, ok_bind]

/-! ## The locks

Nothing here reads them: to a call they are the kernel's. -/

section Lock

variable (pf : PoolFlags) (l : PoolLock) (s : Mem)

theorem palloc_setLock : palloc .kernel (s.setLock pf l) =
    (do let (a, s) ← palloc .kernel s; .ok (a, s.setLock pf l)) := by
  have hstart := (setLock_stays s pf l).start .kernel
  unfold palloc
  rw [setLock_poolBitmap, hstart]
  have hdata : (s.setLock pf l).data = s.data := rfl
  rw [hdata]
  cases bitmapScan s.data (s.pool .kernel).poolBitmap 1 with
  | none => rfl
  | some i => rfl

theorem pageTableAdd_setLock (vaddr pa : Nat) : pageTableAdd vaddr pa (s.setLock pf l) =
    (do let s ← pageTableAdd vaddr pa s; .ok (s.setLock pf l)) := by
  unfold pageTableAdd
  rw [bind_assoc]
  refine congrArg _ (funext fun pde => ?_)
  split
  · simp only [bind_assoc]
    rfl
  · simp only [palloc_setLock, bind_assoc]
    rfl

theorem mapPages_setLock (cnt vaddr : Nat) : mapPages .kernel cnt vaddr (s.setLock pf l) =
    (do let (all, s) ← mapPages .kernel cnt vaddr s; .ok (all, s.setLock pf l)) := by
  induction cnt generalizing vaddr s with
  | zero => rfl
  | succ n ih =>
    rw [mapPages, mapPages, palloc_setLock, bind_assoc, bind_assoc]
    refine congrArg _ (funext fun r => ?_)
    obtain ⟨pagePhyaddr, s⟩ := r
    simp only [ok_bind]
    split
    · rfl
    · rw [pageTableAdd_setLock, bind_assoc, bind_assoc]
      exact congrArg _ (funext fun s => ih s _)

theorem takePages_setLock (pgCnt : Nat) : takePages pgCnt (s.setLock pf l) =
    (do let (v, s) ← takePages pgCnt s; .ok (v, s.setLock pf l)) := by
  unfold takePages mallocPage
  simp only [bind_assoc]
  refine congrArg _ (funext fun _ => ?_)
  unfold vaddrGet
  have hdata : (s.setLock pf l).data = s.data := rfl
  have hvaddr : (s.setLock pf l).vaddr .kernel = s.vaddr .kernel := rfl
  rw [hdata, hvaddr]
  cases bitmapScan s.data (s.vaddr .kernel).vaddrBitmap pgCnt with
  | none => rfl
  | some b =>
    simp only [bind_assoc]
    refine congrArg _ (funext fun data => congrArg _ (funext fun _ => ?_))
    simp only [ok_bind]
    split
    · rfl
    · have hset : { s.setLock pf l with data := data } = { s with data := data }.setLock pf l := rfl
      rw [hset, mapPages_setLock]
      simp only [bind_assoc, ok_bind]
      rfl

end Lock
/-! ## With nobody in between -/

@[simp] theorem run_loadByte (a : Nat) (k : BitVec 8 → PageCode) (h : Heap) :
    (loadByte a k).run h = (k (h.mem.data a)).run h := rfl

@[simp] theorem run_storeByte (a : Nat) (b : BitVec 8) (k : PageCode) (h : Heap) :
    (storeByte a b k).run h = k.run (h.set { h.mem with data := h.mem.data.write8 a b }) := rfl

@[simp] theorem run_load (p : Nat) (k : Nat → PageCode) (h : Heap) :
    (load p k).run h = (do let v ← load32 h.mem.phys h.mem.cr3 p; (k v).run h) := run_fetch ..

@[simp] theorem run_store (p v : Nat) (k : PageCode) (h : Heap) :
    (store p v k).run h = (do let phys ← store32 h.mem.phys h.mem.cr3 p v; k.run (h.set { h.mem with phys := phys })) := by
  rw [store, run_attempt, bind_assoc]
  rfl

@[simp] theorem run_check (c : Prop) [Decidable c] (site : Site) (k : PageCode) (h : Heap) :
    (check c site k).run h = (do assert c site; k.run h) := by
  rw [check, run_attempt, bind_assoc]
  rfl

theorem run_skipFullCode (btmp : Bitmap) (n idx : Nat) (k : Nat → PageCode) (h : Heap) :
    (skipFullCode btmp n idx k).run h = (k (skipFull h.mem.data btmp n idx)).run h := by
  induction n generalizing idx with
  | zero => rfl
  | succ n ih =>
    rw [skipFullCode, run_loadByte, skipFull]
    split
    · exact ih (idx + 1)
    · rfl

theorem run_firstClearCode (btmp : Bitmap) (idxByte n idxBit : Nat) (k : Nat → PageCode) (h : Heap) :
    (firstClearCode btmp idxByte n idxBit k).run h = (k (firstClear (h.mem.data (btmp.bits + idxByte)) n idxBit)).run h := by
  induction n generalizing idxBit with
  | zero => rfl
  | succ n ih =>
    rw [firstClearCode, run_loadByte, firstClear]
    split
    · exact ih (idxBit + 1)
    · rfl

theorem run_scanRunCode (btmp : Bitmap) (cnt bitLeft nextBit count : Nat) (k : Option Nat → PageCode) (h : Heap) :
    (scanRunCode btmp cnt bitLeft nextBit count k).run h = (k (scanRun h.mem.data btmp cnt bitLeft nextBit count)).run h := by
  induction bitLeft generalizing nextBit count with
  | zero => rfl
  | succ n ih =>
    rw [scanRunCode, run_loadByte, scanRun]
    have htest : decide (h.mem.data (btmp.bits + nextBit / 8) &&& 1#8 <<< (nextBit % 8) ≠ 0) =
        bitmapScanTest h.mem.data btmp nextBit := rfl
    simp only [htest]
    generalize (if (!bitmapScanTest h.mem.data btmp nextBit) = true then count + 1 else 0) = c
    split
    · rfl
    · exact ih (nextBit + 1) c

theorem run_bitmapScanCode (btmp : Bitmap) (cnt : Nat) (k : Option Nat → PageCode) (h : Heap) :
    (bitmapScanCode btmp cnt k).run h = (k (bitmapScan h.mem.data btmp cnt)).run h := by
  unfold bitmapScanCode bitmapScan
  rw [run_skipFullCode]
  simp only
  split
  · rfl
  · rw [run_firstClearCode]
    split
    · rfl
    · exact run_scanRunCode ..

theorem run_setBitsCode (btmp : Bitmap) (cnt bitIdx : Nat) (k : PageCode) (h : Heap) :
    (setBitsCode btmp cnt bitIdx k).run h =
      (do let data ← setBits btmp cnt bitIdx h.mem.data; k.run (h.set { h.mem with data := data })) := by
  induction cnt generalizing bitIdx h with
  | zero => rfl
  | succ n ih =>
    rw [setBitsCode, bitmapSetCode, run_loadByte, run_storeByte, ih]
    rfl

theorem run_vaddrGetCode (pgCnt : Nat) (k : Nat → PageCode) (h : Heap) :
    (vaddrGetCode pgCnt k).run h = (do let (v, s) ← vaddrGet .kernel pgCnt h.mem; (k v).run (h.set s)) := by
  unfold vaddrGetCode vaddrGet
  rw [run_read, run_bitmapScanCode]
  simp only [Mem.vaddr, true_or, decide_true, assert_true, ok_bind]
  cases bitmapScan h.mem.data h.mem.kernelVaddr.vaddrBitmap pgCnt with
  | none => rfl
  | some bitIdxStart =>
    simp only
    rw [run_setBitsCode, bind_assoc]
    rfl

theorem run_pallocCode (k : Nat → PageCode) (h : Heap) :
    (pallocCode k).run h = (do let (a, s) ← palloc .kernel h.mem; (k a).run (h.set s)) := by
  unfold pallocCode palloc
  rw [run_read, run_bitmapScanCode]
  cases bitmapScan h.mem.data (h.mem.pool .kernel).poolBitmap 1 with
  | none => rfl
  | some bitIdx => rfl

theorem run_memsetLoopCode (value : BitVec 8) (size dst : Nat) (k : PageCode) (h : Heap) :
    (memsetLoopCode value size dst k).run h =
      (do let phys ← memsetLoop h.mem.cr3 value size dst h.mem.phys; k.run (h.set { h.mem with phys := phys })) := by
  induction size generalizing dst h with
  | zero => rfl
  | succ n ih =>
    rw [memsetLoopCode, run_attempt, memsetLoop, bind_assoc, bind_assoc]
    refine congrArg _ (funext fun pa => ?_)
    rw [ok_bind, ih]
    rfl

@[simp] theorem run_memsetCode (dst : Nat) (value : BitVec 8) (size : Nat) (k : PageCode) (h : Heap) :
    (memsetCode dst value size k).run h =
      (do let phys ← memset h.mem.phys h.mem.cr3 dst value size; k.run (h.set { h.mem with phys := phys })) := by
  rw [memsetCode, run_check, memset, bind_assoc]
  exact congrArg _ (funext fun _ => run_memsetLoopCode ..)

theorem run_pageTableAddCode (vaddr pagePhyaddr : Nat) (k : PageCode) (h : Heap) :
    (pageTableAddCode vaddr pagePhyaddr k).run h =
      (do let s ← pageTableAdd vaddr pagePhyaddr h.mem; k.run (h.set s)) := by
  unfold pageTableAddCode pageTableAdd
  rw [run_load, bind_assoc]
  refine congrArg _ (funext fun pde => ?_)
  split
  · simp only [run_load, run_check, bind_assoc]
    cases hl : load32 h.mem.phys h.mem.cr3 (ptePtr vaddr) with
    | error e => rfl
    | ok pte =>
      simp only [ok_bind]
      cases ha : assert (decide ¬ Present pte) .tableAddPte with
      | error e => rfl
      | ok u =>
        have hp := of_decide_eq_true (assert_ok.mp ha)
        rw [ok_bind, ok_bind, if_pos hp, run_store]
  · simp only [run_pallocCode, run_store, run_memsetCode, run_load, run_check, bind_assoc]
    rfl

theorem run_mapPagesCode (cnt vaddr : Nat) (k : Bool → PageCode) (h : Heap) :
    (mapPagesCode cnt vaddr k).run h = (do let (all, s) ← mapPages .kernel cnt vaddr h.mem; (k all).run (h.set s)) := by
  induction cnt generalizing vaddr h with
  | zero => rfl
  | succ n ih =>
    rw [mapPagesCode, run_pallocCode, mapPages, bind_assoc]
    refine congrArg _ (funext fun r => ?_)
    obtain ⟨pagePhyaddr, s⟩ := r
    simp only
    split
    · rfl
    · rw [run_pageTableAddCode, bind_assoc]
      exact congrArg _ (funext fun s => ih ..)

theorem run_mallocPageCode (pgCnt : Nat) (k : Nat → PageCode) (h : Heap) :
    (mallocPageCode pgCnt k).run h = (do let (v, s) ← mallocPage .kernel pgCnt h.mem; (k v).run (h.set s)) := by
  rw [mallocPageCode, run_check, mallocPage, bind_assoc]
  refine congrArg _ (funext fun _ => ?_)
  rw [run_vaddrGetCode, bind_assoc]
  refine congrArg _ (funext fun r => ?_)
  obtain ⟨vaddrStart, s⟩ := r
  simp only
  split
  · rfl
  · rw [run_mapPagesCode, bind_assoc]
    rfl

theorem run_takePagesCode (pgCnt : Nat) (h : Heap) :
    (takePagesCode pgCnt).run h = (do let (v, s) ← takePages pgCnt h.mem; .ok ((h.set s).answer v pgCnt)) := by
  rw [takePagesCode, run_mallocPageCode, takePages, bind_assoc]
  refine congrArg _ (funext fun r => ?_)
  obtain ⟨v, s⟩ := r
  simp only
  split
  · rw [run_memsetCode, bind_assoc]
    rfl
  · rfl

end TinyOs.Memory
