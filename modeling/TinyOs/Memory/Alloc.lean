/-
  TinyOs.Memory.Alloc — the page allocator (kernel/memory.c), `create_page_dir`
  (userprog/process.c) and `setup_page` (boot/loader.s).

  `phys` is physical memory: directories, tables and the frames of the two pools.
  `data` is the kernel's own data at its virtual addresses: the bytes of the bitmaps,
  wherever they are, and what lies behind them. The two are apart: mem_pool_init puts
  the bitmaps below 1 MB, where no pool has a frame and no table lies.

  Addresses and `uint32_t` are Nat below 2^32, NULL is 0. Messages on the console and
  pool_size, which nothing reads, are left out.

  A call here runs alone: where lock_acquire has to wait it stops with `blocked`. What
  threads do to a lock statement by statement is `TinyOs.Thread.Sync`.
-/

import TinyOs.Lib.Bitmap
import TinyOs.Memory.Paging

namespace TinyOs.Memory

open TinyOs.Kernel TinyOs.Lib TinyOs.Logic

abbrev Tid := Nat

def pgSize : Nat := 4096

def memBitmapBase : Nat := 0xc009a000

def kHeapStart : Nat := 0xc0100000

/-! ## Data -/

/-- `struct lock`. A waiters list that is not a list (`none`) cannot be used. -/
structure PoolLock where
  holder : Option Tid
  holderRepeatNr : Nat
  value : Nat
  waiters : Option (List Tid)

/-- A range of virtual pages lies in the address space, above page 0. -/
structure VirtualAddr where
  vaddrBitmap : Bitmap
  vaddrStart : Nat
  fits : vaddrStart + 8 * vaddrBitmap.btmpBytesLen * pgSize < 2 ^ 32
  above : 0 < vaddrStart ∨ vaddrBitmap.btmpBytesLen = 0

/-- A pool's frames lie in the address space, above frame 0. -/
structure Pool where
  poolBitmap : Bitmap
  phyAddrStart : Nat
  lock : PoolLock
  fits : phyAddrStart + 8 * poolBitmap.btmpBytesLen * pgSize ≤ 2 ^ 32
  above : 0 < phyAddrStart
  aligned : phyAddrStart % pgSize = 0

inductive PoolFlags where
  | kernel
  | user
  deriving DecidableEq, Repr

/-- What memory.c reads of the running thread's PCB. -/
structure Caller where
  tid : Tid
  pgdir : Nat
  userprogVaddr : VirtualAddr

structure Mem where
  phys : Bytes
  data : Bytes
  /-- kernel_pool and user_pool -/
  pool : PoolFlags → Pool
  kernelVaddr : VirtualAddr
  cr3 : Nat
  /-- `running_thread()` -/
  cur : Caller

/-- The physical address of frame `i` of a pool. -/
def Pool.frame (p : Pool) (i : Nat) : Nat := p.phyAddrStart + i * pgSize

def Mem.setLock (s : Mem) (pf : PoolFlags) (l : PoolLock) : Mem :=
  { s with pool := Function.update s.pool pf { s.pool pf with lock := l } }

/-! ## mem_pool_init -/

def usedMem : Nat := 0x100000 + pgSize * 256

/-- The page counts are `uint16_t`. -/
def allFreePages (allMem : Nat) : Nat := (allMem + 2 ^ 32 - usedMem) % 2 ^ 32 / pgSize % 2 ^ 16

def kernelFreePages (allMem : Nat) : Nat := allFreePages allMem / 2

def userFreePages (allMem : Nat) : Nat := allFreePages allMem - kernelFreePages allMem

def kbmLength (allMem : Nat) : Nat := kernelFreePages allMem / 8

def ubmLength (allMem : Nat) : Nat := userFreePages allMem / 8

theorem kernelFreePages_lt (allMem : Nat) : kernelFreePages allMem < 2 ^ 15 := by
  unfold kernelFreePages allFreePages; omega

theorem userFreePages_le (allMem : Nat) : userFreePages allMem ≤ 2 ^ 15 := by
  unfold userFreePages kernelFreePages allFreePages; omega

theorem kbmLength_lt (allMem : Nat) : kbmLength allMem < 2 ^ 12 := by
  have := kernelFreePages_lt allMem
  unfold kbmLength; omega

theorem ubmLength_le (allMem : Nat) : ubmLength allMem ≤ 2 ^ 12 := by
  have := userFreePages_le allMem
  unfold ubmLength; omega

/-- The waiters list is left as the memory was. -/
def lockInit (l : PoolLock) : PoolLock := { l with holder := none, value := 1, holderRepeatNr := 0 }

def kernelBitmap (allMem : Nat) : Bitmap where
  btmpBytesLen := kbmLength allMem
  bits := memBitmapBase
  small := by have := kbmLength_lt allMem; omega

def userBitmap (allMem : Nat) : Bitmap where
  btmpBytesLen := ubmLength allMem
  bits := memBitmapBase + kbmLength allMem
  small := by have := ubmLength_le allMem; omega

def kernelVaddrBitmap (allMem : Nat) : Bitmap where
  btmpBytesLen := kbmLength allMem
  bits := memBitmapBase + kbmLength allMem + ubmLength allMem
  small := by have := kbmLength_lt allMem; omega

def kernelPool (allMem : Nat) (lock : PoolLock) : Pool where
  poolBitmap := kernelBitmap allMem
  phyAddrStart := usedMem
  lock := lock
  fits := by
    have := kbmLength_lt allMem
    show usedMem + 8 * kbmLength allMem * pgSize ≤ 2 ^ 32
    unfold usedMem pgSize; omega
  above := by decide
  aligned := by decide

def userPool (allMem : Nat) (lock : PoolLock) : Pool where
  poolBitmap := userBitmap allMem
  phyAddrStart := usedMem + kernelFreePages allMem * pgSize
  lock := lock
  fits := by
    have := kernelFreePages_lt allMem
    have := ubmLength_le allMem
    show usedMem + kernelFreePages allMem * pgSize + 8 * ubmLength allMem * pgSize ≤ 2 ^ 32
    unfold usedMem pgSize; omega
  above := by unfold usedMem; omega
  aligned := by unfold usedMem pgSize; omega

def kernelHeap (allMem : Nat) : VirtualAddr where
  vaddrBitmap := kernelVaddrBitmap allMem
  vaddrStart := kHeapStart
  fits := by
    have := kbmLength_lt allMem
    show kHeapStart + 8 * kbmLength allMem * pgSize < 2 ^ 32
    unfold kHeapStart pgSize; omega
  above := .inl (by decide)

def memPoolInit (allMem : Nat) (s : Mem) : Except Stop Mem := do
  let data ← bitmapInit s.data (kernelBitmap allMem)
  let data ← bitmapInit data (userBitmap allMem)
  let data ← bitmapInit data (kernelVaddrBitmap allMem)
  .ok
    { s with
      data := data
      pool := fun
        | .kernel => kernelPool allMem (lockInit (s.pool .kernel).lock)
        | .user => userPool allMem (lockInit (s.pool .user).lock)
      kernelVaddr := kernelHeap allMem }

/-! ## The pool locks (thread/sync.c) -/

def semaDown (l : PoolLock) : Except Stop PoolLock := do
  if l.value = 0 then .error .blocked
  else
    let l := { l with value := l.value - 1 }
    assert (l.value = 0) .semaDownValue
    .ok l

/-- `thread_unblock` of the first waiter only changes that thread. -/
def semaUp (l : PoolLock) : Except Stop PoolLock := do
  assert (l.value = 0) .semaUpZero
  match l.waiters with
  | none => .error .fault
  | some ts =>
    let l := { l with waiters := some ts.tail, value := (l.value + 1) % 256 }
    assert (l.value = 1) .semaUpOne
    .ok l

def PoolLock.acquire (cur : Tid) (l : PoolLock) : Except Stop PoolLock := do
  if l.holder ≠ some cur then
    let l ← semaDown l
    let l := { l with holder := some cur }
    assert (l.holderRepeatNr = 0) .acquireNr
    .ok { l with holderRepeatNr := 1 }
  else .ok { l with holderRepeatNr := (l.holderRepeatNr + 1) % 2 ^ 32 }

def PoolLock.release (cur : Tid) (l : PoolLock) : Except Stop PoolLock := do
  assert (l.holder = some cur) .releaseHolder
  if 1 < l.holderRepeatNr then .ok { l with holderRepeatNr := l.holderRepeatNr - 1 }
  else
    assert (l.holderRepeatNr = 1) .releaseNr
    semaUp { l with holder := none, holderRepeatNr := 0 }

def lockAcquire (pf : PoolFlags) (s : Mem) : Except Stop Mem := do
  let l ← (s.pool pf).lock.acquire s.cur.tid
  .ok (s.setLock pf l)

def lockRelease (pf : PoolFlags) (s : Mem) : Except Stop Mem := do
  let l ← (s.pool pf).lock.release s.cur.tid
  .ok (s.setLock pf l)

/-! ## Allocation -/

/-- `while (cnt < pg_cnt) bitmap_set(.., bit_idx_start + cnt++, 1)` -/
def setBits (btmp : Bitmap) : Nat → Nat → Bytes → Except Stop Bytes
  | 0, _, m => .ok m
  | cnt + 1, bitIdx, m => do
    let m ← bitmapSet m btmp bitIdx 1
    setBits btmp cnt (bitIdx + 1) m

/-- The range `vaddr_get` takes pages from. -/
def Mem.vaddr (s : Mem) : PoolFlags → VirtualAddr
  | .kernel => s.kernelVaddr
  | .user => s.cur.userprogVaddr

def vaddrGet (pf : PoolFlags) (pgCnt : Nat) (s : Mem) : Except Stop (Nat × Mem) :=
  match bitmapScan s.data (s.vaddr pf).vaddrBitmap pgCnt with
  | none => .ok (0, s)
  | some bitIdxStart => do
    let data ← setBits (s.vaddr pf).vaddrBitmap pgCnt bitIdxStart s.data
    let vaddrStart := ((s.vaddr pf).vaddrStart + bitIdxStart * pgSize) % 2 ^ 32
    -- the page below 0xc0000000 is the user stack, which `start_process` has taken
    assert (pf = .kernel ∨ vaddrStart < 0xc0000000 - pgSize) .vaddrGetUser
    .ok (vaddrStart, { s with data := data })

def palloc (pf : PoolFlags) (s : Mem) : Except Stop (Nat × Mem) :=
  match bitmapScan s.data (s.pool pf).poolBitmap 1 with
  | none => .ok (0, s)
  | some bitIdx => do
    let data ← bitmapSet s.data (s.pool pf).poolBitmap bitIdx 1
    .ok (((s.pool pf).phyAddrStart + bitIdx * pgSize) % 2 ^ 32, { s with data := data })

/-- A new table comes from the kernel pool; that `palloc` failed is not tested. -/
def pageTableAdd (vaddr pagePhyaddr : Nat) (s : Mem) : Except Stop Mem := do
  let pde ← load32 s.phys s.cr3 (pdePtr vaddr)
  if Present pde then
    let pte ← load32 s.phys s.cr3 (ptePtr vaddr)
    assert (¬ Present pte) .tableAddPte
    let phys ← store32 s.phys s.cr3 (ptePtr vaddr) (pagePhyaddr ||| pgAttr)
    .ok { s with phys := phys }
  else
    let (pdePhyaddr, s) ← palloc .kernel s
    let phys ← store32 s.phys s.cr3 (pdePtr vaddr) (pdePhyaddr ||| pgAttr)
    let phys ← memset phys s.cr3 (frameOf (ptePtr vaddr)) 0 pgSize
    let pte ← load32 phys s.cr3 (ptePtr vaddr)
    assert (¬ Present pte) .tableAddNewPte
    let phys ← store32 phys s.cr3 (ptePtr vaddr) (pagePhyaddr ||| pgAttr)
    .ok { s with phys := phys }

/-- The loop of `malloc_page`: whether it mapped all `cnt` pages, and the state then. -/
def mapPages (pf : PoolFlags) : Nat → Nat → Mem → Except Stop (Bool × Mem)
  | 0, _, s => .ok (true, s)
  | cnt + 1, vaddr, s => do
    let (pagePhyaddr, s) ← palloc pf s
    if pagePhyaddr = 0 then .ok (false, s)
    else
      let s ← pageTableAdd vaddr pagePhyaddr s
      mapPages pf cnt ((vaddr + pgSize) % 2 ^ 32) s

def mallocPage (pf : PoolFlags) (pgCnt : Nat) (s : Mem) : Except Stop (Nat × Mem) := do
  assert (0 < pgCnt ∧ pgCnt < 3840) .mallocPgCnt
  let (vaddrStart, s) ← vaddrGet pf pgCnt s
  if vaddrStart = 0 then .ok (0, s)
  else
    let (all, s) ← mapPages pf pgCnt vaddrStart s
    .ok (if all then vaddrStart else 0, s)

def getKernelPages (pgCnt : Nat) (s : Mem) : Except Stop (Nat × Mem) := do
  let s ← lockAcquire .kernel s
  let (vaddr, s) ← mallocPage .kernel pgCnt s
  let phys ← (if vaddr ≠ 0 then memset s.phys s.cr3 vaddr 0 (pgCnt * pgSize % 2 ^ 32) else .ok s.phys)
  let s ← lockRelease .kernel { s with phys := phys }
  .ok (vaddr, s)

def getUserPages (pgCnt : Nat) (s : Mem) : Except Stop (Nat × Mem) := do
  let s ← lockAcquire .user s
  let (vaddr, s) ← mallocPage .user pgCnt s
  let phys ← memset s.phys s.cr3 vaddr 0 (pgCnt * pgSize % 2 ^ 32)
  let s ← lockRelease .user { s with phys := phys }
  .ok (vaddr, s)

/-- The bit `get_a_page` sets for `vaddr`, in `uint32_t` arithmetic. -/
def vaddrIdx (va : VirtualAddr) (vaddr : Nat) : Nat := (vaddr + 2 ^ 32 - va.vaddrStart) % 2 ^ 32 / pgSize

/-- The branches of `get_a_page` that mark the page: a user process takes user memory,
a kernel thread kernel memory. -/
def markVaddr (pf : PoolFlags) (vaddr : Nat) (s : Mem) : Except Stop Mem :=
  if s.cur.pgdir ≠ 0 ∧ pf = .user then do
    let bitIdx := vaddrIdx s.cur.userprogVaddr vaddr
    assert (0 < bitIdx) .getAPageUserIdx
    let data ← bitmapSet s.data s.cur.userprogVaddr.vaddrBitmap bitIdx 1
    .ok { s with data := data }
  else if s.cur.pgdir = 0 ∧ pf = .kernel then do
    let bitIdx := vaddrIdx s.kernelVaddr vaddr
    assert (0 < bitIdx) .getAPageKernelIdx
    let data ← bitmapSet s.data s.kernelVaddr.vaddrBitmap bitIdx 1
    .ok { s with data := data }
  else .error (.assert .getAPagePanic)

/-- The return on NULL leaves the lock taken. -/
def getAPage (pf : PoolFlags) (vaddr : Nat) (s : Mem) : Except Stop (Nat × Mem) := do
  let s ← lockAcquire pf s
  let s ← markVaddr pf vaddr s
  let (pagePhyaddr, s) ← palloc pf s
  if pagePhyaddr = 0 then .ok (0, s)
  else
    let s ← pageTableAdd vaddr pagePhyaddr s
    let s ← lockRelease pf s
    .ok (vaddr, s)

def addrV2p (vaddr : Nat) (s : Mem) : Except Stop Nat := do
  let pte ← load32 s.phys s.cr3 (ptePtr vaddr)
  .ok (frameOf pte + vaddr % 2 ^ 12)

/-! ## Page directories -/

def createPageDir (s : Mem) : Except Stop (Nat × Mem) := do
  let (pageDirVaddr, s) ← getKernelPages 1 s
  if pageDirVaddr = 0 then .ok (0, s)
  else
    let phys ← memcpy s.phys s.cr3 (pageDirVaddr + 0x300 * 4) (0xfffff000 + 0x300 * 4) 1024
    let s := { s with phys := phys }
    let newPageDirPhyAddr ← addrV2p pageDirVaddr s
    let phys ← store32 s.phys s.cr3 (pageDirVaddr + 1023 * 4) (newPageDirPhyAddr ||| pgAttr)
    .ok (pageDirVaddr, { s with phys := phys })

def pageDirTablePos : Nat := 0x100000

/-- `.create_pte` -/
def createPte : Nat → Nat → Nat → Bytes → Bytes
  | 0, _, _, m => m
  | ecx + 1, esi, edx, m => createPte ecx (esi + 1) (edx + 4096) (m.write32 (pageDirTablePos + 0x1000 + esi * 4) edx)

/-- `.create_kernel_pde` -/
def createKernelPde : Nat → Nat → Nat → Bytes → Bytes
  | 0, _, _, m => m
  | ecx + 1, esi, eax, m => createKernelPde ecx (esi + 1) (eax + 0x1000) (m.write32 (pageDirTablePos + esi * 4) eax)

/-- Runs before paging is on, on physical addresses. -/
def setupPage (m : Bytes) : Bytes :=
  let m := fill 0 4096 pageDirTablePos m
  let eax := (pageDirTablePos + 0x1000) ||| pgAttr
  let m := m.write32 (pageDirTablePos + 0x0) eax
  let m := m.write32 (pageDirTablePos + 0xc00) eax
  let m := m.write32 (pageDirTablePos + 4092) (eax - 0x1000)
  let m := createPte 256 0 pgAttr m
  createKernelPde 254 769 ((pageDirTablePos + 0x2000) ||| pgAttr) m

end TinyOs.Memory
