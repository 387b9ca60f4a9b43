/-
  TinyOs.Memory.KernelHeap — `get_kernel_pages` over whole runs.

  From mem_pool_init on, in a kernel directory whose heap entries are absent, any
  threads call `get_kernel_pages`, and what it gave is written to. The pages taken are
  always the first `u` of the heap, the frames taken the first `u` of kernel_pool, and
  page `i` lies on frame `i`: first fit keeps both bitmaps initial segments, and no
  other call takes from either. The scan also answers a range that ends one page past
  the heap, but only when one frame too few is left for it: the call then fails, with
  the whole heap reserved and every frame mapped.

  `heap_sound` says what a call does in any such run: no ASSERT fires, the earlier
  results keep their mappings and contents, and a non-NULL result is `Fresh`.
-/

import TinyOs.Memory.SetupPage

namespace TinyOs.Memory

open TinyOs.Kernel TinyOs.Lib TinyOs.Logic

/-- Memory, and the non-NULL results so far with their page counts. -/
structure Heap where
  mem : Mem
  results : List (Nat × Nat)

inductive HeapOp where
  | getKernelPages (cur : Caller) (pgCnt : Nat)
  /-- The owner of a result writes a byte of it. -/
  | write (a : Nat) (b : BitVec 8)

/-- Address `a` lies in one of the results. -/
def Owned (results : List (Nat × Nat)) (a : Nat) : Prop := ∃ r ∈ results, r.1 ≤ a ∧ a < r.1 + r.2 * pgSize

def heapStep (h : Heap) : HeapOp → Except Stop Heap
  | .getKernelPages cur pgCnt => do
    let (v, s) ← getKernelPages pgCnt { h.mem with cur := cur }
    .ok ⟨s, if v = 0 then h.results else (v, pgCnt) :: h.results⟩
  | .write a b => do
    let pa ← mmu h.mem.phys h.mem.cr3 a
    .ok ⟨{ h.mem with phys := h.mem.phys.write8 pa b }, h.results⟩

def HeapLegal (h : Heap) : HeapOp → Prop
  | .getKernelPages _ pgCnt => 1 ≤ pgCnt ∧ pgCnt < 3840
  | .write a _ => Owned h.results a

/-- After mem_pool_init, in a kernel directory outside the pool, the heap's entries absent. -/
structure HeapStart (tab : Nat → Nat) (h : Heap) : Prop where
  init : ∃ allMem s0, 0x200000 ≤ allMem ∧ allMem < 2 ^ 32 ∧ memPoolInit allMem s0 = .ok h.mem
  none : h.results = []
  tables : KernelTables h.mem.phys h.mem.cr3 tab
  outside : ∀ i, i < h.mem.frames .kernel → (h.mem.pool .kernel).frame i ≠ h.mem.cr3
  absent : ∀ va, kHeapStart ≤ va → va < 0xffc00000 → ¬ Present (h.mem.phys.read32 (entry tab va))

def HeapRuns (tab : Nat → Nat) : Heap → Prop := Reach (HeapStart tab) HeapLegal heapStep

/-- The pages that the results consist of, by their addresses. -/
def Pages (results : List (Nat × Nat)) (x : Nat) : Prop := ∃ r ∈ results, ∃ i, i < r.2 ∧ x = r.1 + i * pgSize

/-- What holds of a result `v` of `n` pages in the state `s` that the call returns in. -/
structure Fresh (results : List (Nat × Nat)) (v n : Nat) (s : Mem) : Prop where
  aligned : v % pgSize = 0
  above : kHeapStart ≤ v
  below : v + n * pgSize ≤ kHeapStart + 8 * s.kernelVaddr.vaddrBitmap.btmpBytesLen * pgSize
  disjoint : ∀ r ∈ results, r.1 + r.2 * pgSize ≤ v ∨ v + n * pgSize ≤ r.1
  mapped : ∀ i, i < n → ∃ c, c < s.frames .kernel ∧
    ∀ o, o < pgSize → translate s.phys s.cr3 (v + i * pgSize + o) = some ((s.pool .kernel).frame c + o)
  own : ∀ i, i < n → ∀ x, Pages ((v, n) :: results) x → x ≠ v + i * pgSize →
    translate s.phys s.cr3 x ≠ translate s.phys s.cr3 (v + i * pgSize)
  zero : ∀ o, o < n * pgSize → ∃ pa, translate s.phys s.cr3 (v + o) = some pa ∧ s.phys pa = 0

/-- The results have the mappings and the contents in `s'` that they had in `s`. -/
def Intact (results : List (Nat × Nat)) (s s' : Mem) : Prop :=
  ∀ a, Owned results a → ∃ pa, translate s.phys s.cr3 a = some pa ∧ translate s'.phys s'.cr3 a = some pa ∧ s'.phys pa = s.phys pa

/-! ## The invariant -/

/-- Nobody holds the lock. -/
def PoolLock.Free (l : PoolLock) : Prop := l.holder = none ∧ l.holderRepeatNr = 0 ∧ l.value = 1

/-- Page `i` of the heap. -/
def heapPage (i : Nat) : Nat := kHeapStart + i * pgSize

/-- The first `u` pages of the heap are taken, each mapped on the frame of its number. -/
structure HeapInv (tab : Nat → Nat) (u : Nat) (s : Mem) : Prop where
  space : KernelSpace tab s
  free : (s.pool .kernel).lock.Free
  outside : ∀ i, i < s.frames .kernel → (s.pool .kernel).frame i ≠ s.cr3
  len : s.kernelVaddr.vaddrBitmap.btmpBytesLen = (s.pool .kernel).poolBitmap.btmpBytesLen
  start : s.kernelVaddr.vaddrStart = kHeapStart
  /-- The bytes of the pool's bitmap lie below those of the heap's. -/
  bits : (s.pool .kernel).poolBitmap.bits + (s.pool .kernel).poolBitmap.btmpBytesLen ≤ s.kernelVaddr.vaddrBitmap.bits
  le : u ≤ s.frames .kernel
  taken : ∀ i, i < s.frames .kernel → (s.Taken .kernel i ↔ i < u)
  reserved : ∀ i, i < s.frames .kernel → (s.Reserved .kernel i ↔ i < u)
  entries : ∀ i, i < u → s.phys.read32 (entry tab (heapPage i)) = (s.pool .kernel).frame i ||| pgAttr
  absent : ∀ va, heapPage u ≤ va → va < 0xffc00000 → ¬ Present (s.phys.read32 (entry tab va))

/-- Each result is a range of taken pages. -/
def Ranges (u : Nat) (results : List (Nat × Nat)) : Prop := ∀ r ∈ results, ∃ b, r.1 = heapPage b ∧ b + r.2 ≤ u

variable {tab : Nat → Nat} {u n v : Nat} {s s' : Mem} {results : List (Nat × Nat)}

theorem HeapInv.page (hi : HeapInv tab u s) (i : Nat) : s.kernelVaddr.page i = heapPage i := by
  unfold VirtualAddr.page heapPage
  rw [hi.start]

/-- The pages of the heap, the one past its end included, are kernel addresses. -/
theorem HeapInv.kernelAddr (hi : HeapInv tab u s) {i o : Nat} (h : i ≤ s.frames .kernel) (ho : o < 4096) :
    KernelAddr (heapPage i + o) := by
  have hh := hi.space.heapHigh
  have hle : (i + 1) * pgSize ≤ (8 * s.kernelVaddr.vaddrBitmap.btmpBytesLen + 1) * pgSize :=
    Nat.mul_le_mul_right _ (by rw [hi.len]; unfold Mem.frames at h; omega)
  rw [hi.start] at hh
  unfold KernelAddr heapPage kHeapStart pgSize at *
  omega

theorem HeapInv.walk (hi : HeapInv tab u s) {i o : Nat} (h : i < u) (ho : o < 4096) :
    translate s.phys s.cr3 (heapPage i + o) = some ((s.pool .kernel).frame i + o) := by
  have hle := hi.le
  have hk := hi.kernelAddr (i := i) (by omega) ho
  have hal := (s.pool .kernel).frame_aligned i
  have he : s.phys.read32 (entry tab (heapPage i + o)) = (s.pool .kernel).frame i ||| pgAttr := by
    rw [entry_page tab _ (heapPage i) (by unfold heapPage kHeapStart pgSize; omega)]
    exact hi.entries i h
  have hoff : (heapPage i + o) % 4096 = o := by unfold heapPage kHeapStart pgSize; omega
  rw [hi.space.dir.translate hk (by rw [he]; exact present_or_attr hal), he, frameOf_or_attr hal, hoff]

/-- An address of a result, by page and offset. -/
theorem Ranges.owned (hr : Ranges u results) {a : Nat} (ha : Owned results a) :
    ∃ i o, i < u ∧ o < 4096 ∧ a = heapPage i + o := by
  obtain ⟨r, hm, h1, h2⟩ := ha
  obtain ⟨b, hb, hle⟩ := hr r hm
  refine ⟨b + (a - r.1) / 4096, (a - r.1) % 4096, ?_, Nat.mod_lt _ (by omega), ?_⟩
  · unfold pgSize at h2; omega
  · rw [hb] at h1 h2 ⊢
    unfold heapPage pgSize at *
    omega

/-! ## After mem_pool_init -/

/-- The directory is none of its own tables: their heap entries are absent, its own are present. -/
theorem HeapStart.dir {h : Heap} (hs : HeapStart tab h) : KernelDir h.mem.phys h.mem.cr3 tab := by
  refine ⟨hs.tables, fun j h1 h2 e => ?_⟩
  have hva : pdeIdx (j * 2 ^ 22 + 769 * 4096) = j ∧ pteIdx (j * 2 ^ 22 + 769 * 4096) = 769 := by
    unfold pdeIdx pteIdx; omega
  have := hs.absent (j * 2 ^ 22 + 769 * 4096) (by unfold kHeapStart; omega) (by omega)
  unfold entry at this
  rw [hva.1, hva.2, e] at this
  exact this (hs.tables.present 769 (by omega) (by omega))

theorem HeapStart.inv {h : Heap} (hs : HeapStart tab h) : HeapInv tab 0 h.mem := by
  have hd := hs.dir
  have hout := hs.outside
  have habs := hs.absent
  obtain ⟨allMem, s0, -, -, he⟩ := hs.init
  rw [memPoolInit_eq] at he
  have he := Except.ok.inj he
  have hL := kbmLength_lt allMem
  rw [← he] at hd hout habs ⊢
  refine ⟨⟨hd, Nat.le_refl _, fun i hi _ => hout i hi, ?_, ?_, ?_⟩, ⟨rfl, rfl, rfl⟩, hout, rfl, rfl, ?_,
    Nat.zero_le _, fun i hi => ?_, fun i hi => ?_, fun i hi => by omega, fun va h1 h2 => ?_⟩
  · show kHeapStart % 4096 = 0; decide
  · show 0xc0000000 ≤ kHeapStart; decide
  · show kHeapStart + (8 * kbmLength allMem + 1) * pgSize ≤ 0xffc00000
    unfold kHeapStart pgSize; omega
  · show memBitmapBase + kbmLength allMem ≤ memBitmapBase + kbmLength allMem + ubmLength allMem
    omega
  · exact ⟨fun ht => absurd ht (poolsInit_free allMem s0 .kernel hi), fun h => by omega⟩
  · exact ⟨fun ht => absurd ht (poolsInit_unreserved allMem s0 hi), fun h => by omega⟩
  · exact habs va (by unfold heapPage at h1; omega) h2

/-! ## One call -/

theorem HeapInv.caller (hi : HeapInv tab u s) (cur : Caller) : HeapInv tab u { s with cur := cur } :=
  ⟨⟨hi.space.dir, hi.space.low, hi.space.out, hi.space.heapAligned, hi.space.heapLow, hi.space.heapHigh⟩, hi.free, hi.outside,
    hi.len, hi.start, hi.bits, hi.le, hi.taken, hi.reserved, hi.entries, hi.absent⟩

theorem heapPage_add (i j : Nat) : heapPage i + j * pgSize = heapPage (i + j) := by
  unfold heapPage pgSize; omega

theorem heapPage_lt {i j : Nat} (h : i < j) : heapPage i + pgSize ≤ heapPage j := by
  unfold heapPage pgSize; omega

theorem heapPage_div {i j : Nat} (h : heapPage i / 4096 = heapPage j / 4096) : i = j := by
  unfold heapPage kHeapStart pgSize at h; omega

/-- The frames that a call takes follow the ones taken. -/
theorem Granted.consecutive {va k : Nat} {f : Nat → Nat} {m : Bytes} (hg : Granted tab va k f m s s')
    (ht : ∀ i, i < s.frames .kernel → (s.Taken .kernel i ↔ i < u))
    (hm : ∀ i, i < s.frames .kernel → ((s.pool .kernel).poolBitmap.Used m i ↔ i < u)) (i : Nat) (hi : i < k) : f i = u + i := by
  induction i using Nat.strong_induction_on with
  | _ i ih =>
    have hge : u ≤ f i := Nat.le_of_not_lt fun hlt => hg.free i hi ((ht _ (hg.fits i hi)).mpr hlt)
    -- not one of those taken before it
    have hne : ∀ j, j < i → f i ≠ u + j := fun j hj e => by
      have := hg.inj i j hi (by omega) (by rw [e, ih j hj (by omega)])
      omega
    have hge' : u + i ≤ f i := by
      by_contra hlt
      exact hne (f i - u) (by omega) (by omega)
    by_contra hlt
    rcases hg.least i hi (u + i) (by omega) with hu | ⟨j, hj, e⟩
    · have := (hm (u + i) (by have := hg.fits i hi; omega)).mp hu
      omega
    · rw [ih j hj (by omega)] at e
      omega

/-- What a call does to the heap: `k` more pages are taken, and the frames of the pages
taken before are left alone. -/
structure Step (tab : Nat → Nat) (u n v k : Nat) (s s' : Mem) : Prop where
  stays : Stays s s'
  inv : HeapInv tab (u + k) s'
  result : v ≠ 0 → v = heapPage u ∧ k = n
  zero : v ≠ 0 → ∀ i, i < n → ∀ x ∈ frame ((s.pool .kernel).frame (u + i)), s'.phys x = 0
  kept : ∀ i, i < u → ∀ x ∈ frame ((s.pool .kernel).frame i), s'.phys x = s.phys x
  null : v = 0 → s.frames .kernel < u + n

/-- The lock is free again after the call. -/
theorem HeapInv.free_after (hi : HeapInv tab u s) (h : getKernelPages n s = .ok (v, s')) : (s'.pool .kernel).lock.Free := by
  have hb := getKernelPages_balanced (.inl hi.free) h .kernel
  obtain ⟨h1, h2, h3⟩ := hi.free
  exact ⟨hb.1.trans h1, hb.2.1.trans h2, hb.2.2.trans h3⟩

/-- The pools, the heap and the directory stay where they are. -/
theorem HeapInv.moved {u' : Nat} (hi : HeapInv tab u s) (hst : Stays s s') (hspace : KernelSpace tab s')
    (hfree : (s'.pool .kernel).lock.Free) (hle : u' ≤ s.frames .kernel)
    (htaken : ∀ i, i < s.frames .kernel → (s'.Taken .kernel i ↔ i < u'))
    (hres : ∀ i, i < s.frames .kernel → (s'.Reserved .kernel i ↔ i < u'))
    (hentry : ∀ i, i < u' → s'.phys.read32 (entry tab (heapPage i)) = (s.pool .kernel).frame i ||| pgAttr)
    (habs : ∀ va, heapPage u' ≤ va → va < 0xffc00000 → ¬ Present (s'.phys.read32 (entry tab va))) : HeapInv tab u' s' := by
  have hframes := hst.frames .kernel
  refine ⟨hspace, hfree, fun i hl => ?_, ?_, ?_, ?_, ?_, fun i hl => ?_, fun i hl => ?_, fun i hl => ?_, habs⟩
  · rw [hst.frame, hst.cr3]; exact hi.outside i (by rwa [hframes] at hl)
  · rw [hst.kernelVaddr, hst.bitmap]; exact hi.len
  · rw [hst.kernelVaddr]; exact hi.start
  · rw [hst.kernelVaddr, hst.bitmap]; exact hi.bits
  · rw [hframes]; exact hle
  · exact htaken i (by rwa [hframes] at hl)
  · exact hres i (by rwa [hframes] at hl)
  · rw [hst.frame]; exact hentry i hl

/-- A call that finds no range changes nothing. -/
theorem HeapInv.nothing (hi : HeapInv tab u s) (hroom : s.frames .kernel < u + n) (h : getKernelPages n s = .ok (0, s'))
    (hst : Stays s s') (hp : s'.phys = s.phys) (hd : s'.data = s.data) : Step tab u n 0 0 s s' := by
  refine ⟨hst, ?_, fun h => absurd rfl h, fun h => absurd rfl h, fun i _ x _ => by rw [hp], fun _ => hroom⟩
  refine hi.moved hst (hst.space hp hi.space) (hi.free_after h) hi.le (fun i hl => ?_) (fun i hl => ?_) (fun i hl => ?_)
    fun va h1 h2 => ?_
  · unfold Mem.Taken; rw [hst.bitmap, hd]; exact hi.taken i hl
  · unfold Mem.Reserved Mem.vaddr; rw [hst.kernelVaddr, hd]; exact hi.reserved i hl
  · rw [hp]; exact hi.entries i hl
  · rw [hp]; exact hi.absent va h1 h2

/-! ### The pages that a call is granted -/

section Granted

variable {k : Nat} {f : Nat → Nat} {m : Bytes}

theorem HeapInv.fits (hi : HeapInv tab u s) (hg : Granted tab (heapPage u) k f m s s') (hf : ∀ i, i < k → f i = u + i) :
    u + k ≤ s.frames .kernel := by
  have hle := hi.le
  by_cases e : k = 0
  · omega
  · have h1 := hg.fits (k - 1) (by omega)
    have h2 := hf (k - 1) (by omega)
    omega

theorem HeapInv.taken_after (hg : Granted tab (heapPage u) k f m s s') (hf : ∀ i, i < k → f i = u + i)
    (hm : ∀ i, i < s.frames .kernel → ((s.pool .kernel).poolBitmap.Used m i ↔ i < u)) {i : Nat} (hl : i < s.frames .kernel) :
    s'.Taken .kernel i ↔ i < u + k := by
  rw [hg.taken, hm i hl]
  constructor
  · intro hex
    rcases hex with h | ⟨j, hj, e⟩
    · omega
    · have := hf j hj
      omega
  · intro hlt
    by_cases e : i < u
    · exact .inl e
    · exact .inr ⟨i - u, by omega, by have := hf (i - u) (by omega); omega⟩

/-- The entries of other pages are left alone. -/
theorem HeapInv.entry_after (hi : HeapInv tab u s) (hg : Granted tab (heapPage u) k f m s s') {va : Nat} (hk : KernelAddr va)
    (hne : ∀ j, j < k → va / 4096 ≠ heapPage (u + j) / 4096) :
    s'.phys.read32 (entry tab va) = s.phys.read32 (entry tab va) := by
  refine Bytes.read32_congr fun x hx => ?_
  have hlow := hi.space.dir.entry_low hk
  have := (Set.mem_Ico.mp hx).2
  refine hg.unchanged hi.space (.inr (Set.mem_Iio.mpr (by omega))) fun j hj => ?_
  have haddr := hg.kernelAddr hj
  rw [heapPage_add] at haddr ⊢
  exact hi.space.dir.entry_apart hk haddr (hne j hj) hx

theorem HeapInv.entries_after (hi : HeapInv tab u s) (hg : Granted tab (heapPage u) k f m s s')
    (hf : ∀ i, i < k → f i = u + i) {i : Nat} (hl : i < u + k) :
    s'.phys.read32 (entry tab (heapPage i)) = (s.pool .kernel).frame i ||| pgAttr := by
  have hle := hi.le
  by_cases e : i < u
  · have hk : KernelAddr (heapPage i) := hi.kernelAddr (o := 0) (by omega) (by omega)
    rw [hi.entry_after hg hk fun j _ h => by have := heapPage_div h; omega]
    exact hi.entries i e
  · have he := hg.entries (i - u) (by omega)
    rw [heapPage_add, hf (i - u) (by omega), Nat.add_sub_cancel' (by omega)] at he
    exact he

theorem HeapInv.absent_after (hi : HeapInv tab u s) (hg : Granted tab (heapPage u) k f m s s') {va : Nat}
    (h1 : heapPage (u + k) ≤ va) (h2 : va < 0xffc00000) : ¬ Present (s'.phys.read32 (entry tab va)) := by
  have hge : heapPage u ≤ heapPage (u + k) := by unfold heapPage pgSize; omega
  have hlow : 0xc0000000 ≤ heapPage u := by unfold heapPage kHeapStart; omega
  rw [hi.entry_after hg ⟨by omega, h2⟩ fun j hj h => by
    have := heapPage_lt (show u + j < u + k by omega)
    unfold pgSize at this
    omega]
  exact hi.absent va (by omega) h2

/-- The frames of the pages taken before are left alone. -/
theorem HeapInv.kept_after (hi : HeapInv tab u s) (hg : Granted tab (heapPage u) k f m s s') (hf : ∀ i, i < k → f i = u + i)
    {i x : Nat} (hl : i < u) (hx : x ∈ frame ((s.pool .kernel).frame i)) : s'.phys x = s.phys x := by
  have hx1 := (Set.mem_Ico.mp hx).1
  have hlow := hi.space.low
  refine hg.phys x (fun j hj hx' => ?_) fun j hj => ?_
  · have := hi.space.dir.entry_low (hg.kernelAddr hj)
    have := (Set.mem_Ico.mp hx').2
    unfold Pool.frame at hx1
    omega
  · rw [hf j hj]
    refine frame_apart ((s.pool .kernel).frame_aligned _) ((s.pool .kernel).frame_aligned _) (fun e => ?_) hx
    have := (s.pool .kernel).frame_inj e
    omega

end Granted

theorem HeapInv.call (hi : HeapInv tab u s) (hn : 0 < n) (h : getKernelPages n s = .ok (v, s')) : ∃ k, Step tab u n v k s s' := by
  have hlen : 8 * s.kernelVaddr.vaddrBitmap.btmpBytesLen = s.frames .kernel := by rw [hi.len]; rfl
  have hres : ∀ i, i < s.frames .kernel → (s.kernelVaddr.vaddrBitmap.Used s.data i ↔ i < u) := hi.reserved
  rcases getKernelPages_cases hi.space h with ⟨hnone, rfl, hst, hp, hd⟩ | ⟨b, m, k, f, hscan, hset, hg, hend⟩
  · have hroom := bitmapScan_initial_none hn (fun i hl => hres i (by omega)) hnone
    exact ⟨0, hi.nothing (by omega) h hst hp hd⟩
  -- both scans go on where the last call stopped
  have hb : b = u := bitmapScan_initial hn (fun i hl => hres i (by omega)) hscan
  subst hb
  rw [hi.page] at hg hend
  obtain ⟨-, hbn, -⟩ := bitmapScan_some hn hscan
  obtain ⟨m', hm', -, hmv, hmx⟩ := setBits_spec s.kernelVaddr.vaddrBitmap n b s.data
  rw [hm'] at hset
  cases hset
  have hbits := hi.bits
  have hmp : ∀ i, i < s.frames .kernel → ((s.pool .kernel).poolBitmap.Used m i ↔ i < b) := fun i hl => by
    rw [used_congr (fun x hx => hmx x fun j _ _ => by have := (Set.mem_Ico.mp hx).2; omega) hl]
    exact hi.taken i hl
  have hf := hg.consecutive hi.taken hmp
  have hle := hi.fits hg hf
  have htaken : ∀ i, i < s.frames .kernel → (s'.Taken .kernel i ↔ i < b + k) := fun i hl =>
    HeapInv.taken_after hg hf hmp hl
  -- a call that fails has mapped every frame that was left, one fewer than it reserved
  have hreach : b + k = b + n ∨ b + k = s.frames .kernel := by
    rcases hend with ⟨-, -, hfull⟩ | ⟨-, -, hk, -⟩
    · refine .inr (Nat.le_antisymm hle (Nat.le_of_not_lt fun hlt => ?_))
      have := (htaken _ hlt).mp (hfull _ hlt)
      omega
    · exact .inl (by omega)
  have hkn : k ≤ n := by rcases hend with ⟨-, hlt, -⟩ | ⟨-, -, hk, -⟩ <;> omega
  refine ⟨k, hg.stays, hi.moved hg.stays (hg.space hi.space) (hi.free_after h) hle htaken (fun i hl => ?_)
    (fun i hl => hi.entries_after hg hf hl) (fun va h1 h2 => hi.absent_after hg h1 h2), fun hv => ?_, fun hv i hl x hx => ?_,
    fun i hl x hx => hi.kept_after hg hf hl hx, fun hv => ?_⟩
  · have hkeep : s.kernelVaddr.vaddrBitmap.Used s'.data i ↔ s.kernelVaddr.vaddrBitmap.Used m i :=
      used_congr (fun x hx => hg.data x fun hx' => by
        have := (Set.mem_Ico.mp hx).1
        have := (Set.mem_Ico.mp hx').2
        omega) (by omega)
    unfold Mem.Reserved Mem.vaddr
    rw [hg.stays.kernelVaddr, hkeep, hmv, hres i hl]
    omega
  · rcases hend with ⟨h0, -, -⟩ | ⟨he, -, hk, -⟩
    · exact absurd h0 hv
    · exact ⟨he, hk⟩
  · rcases hend with ⟨h0, -, -⟩ | ⟨-, -, hk, hz⟩
    · exact absurd h0 hv
    · exact hz i hl x (by rw [hf i (by omega)]; exact hx)
  · rcases hend with ⟨-, hlt, -⟩ | ⟨-, hpos, -, -⟩ <;> omega

/-- Stores that no kernel walk reads. -/
theorem HeapInv.store (hi : HeapInv tab u s) {m : Bytes} (he : Set.EqOn m s.phys (walked s.cr3)) :
    HeapInv tab u { s with phys := m } := by
  have hentry : ∀ va, KernelAddr va → m.read32 (entry tab va) = s.phys.read32 (entry tab va) := fun va hk =>
    Bytes.read32_congr fun x hx => he (.inr (Set.mem_Iio.mpr (by
      have := hi.space.dir.entry_low hk
      have := (Set.mem_Ico.mp hx).2
      omega)))
  refine ⟨⟨hi.space.dir.congr (he.mono Set.subset_union_left), hi.space.low, hi.space.out, hi.space.heapAligned,
    hi.space.heapLow, hi.space.heapHigh⟩, hi.free, hi.outside, hi.len, hi.start, hi.bits, hi.le, hi.taken, hi.reserved,
    fun i hl => ?_, fun va h1 h2 => ?_⟩
  · have hle := hi.le
    have hk : KernelAddr (heapPage i) := hi.kernelAddr (o := 0) (by omega) (by omega)
    show m.read32 _ = _
    rw [hentry _ hk]
    exact hi.entries i hl
  · have hk : KernelAddr va := ⟨by unfold heapPage kHeapStart at h1; omega, h2⟩
    show ¬ Present (m.read32 _)
    rw [hentry va hk]
    exact hi.absent va h1 h2

theorem Ranges.mono {u' : Nat} (hr : Ranges u results) (h : u ≤ u') : Ranges u' results := fun r hm => by
  obtain ⟨b, hb, hle⟩ := hr r hm
  exact ⟨b, hb, by omega⟩

theorem Step.ranges {k : Nat} (h : Step tab u n v k s s') (hr : Ranges u results) :
    Ranges (u + k) (if v = 0 then results else (v, n) :: results) := by
  split
  · exact hr.mono (by omega)
  · next hv =>
    obtain ⟨he, hk⟩ := h.result hv
    intro r hm
    rcases List.mem_cons.mp hm with rfl | hm
    · exact ⟨u, he, by omega⟩
    · exact hr.mono (Nat.le_add_right u k) r hm

/-! ## Runs -/

theorem HeapRuns.inv {h : Heap} (hr : HeapRuns tab h) : ∃ u, HeapInv tab u h.mem ∧ Ranges u h.results := by
  refine Reach.invariant (P := fun h => ∃ u, HeapInv tab u h.mem ∧ Ranges u h.results) ?_ ?_ hr
  · intro h hs
    exact ⟨0, hs.inv, by rw [hs.none]; intro r hm; cases hm⟩
  · intro h h' op hex hl he
    obtain ⟨u, hi, hres⟩ := hex
    cases op with
    | getKernelPages cur n =>
      obtain ⟨⟨v, s'⟩, hcall, he⟩ := bind_ok_iff.mp he
      obtain ⟨k, hstep⟩ := (hi.caller cur).call hl.1 hcall
      cases he
      exact ⟨u + k, hstep.inv, hstep.ranges hres⟩
    | write a b =>
      obtain ⟨pa, hpa, he⟩ := bind_ok_iff.mp he
      obtain ⟨i, o, hlt, ho, rfl⟩ := hres.owned hl
      rw [mmu_of_translate (hi.walk hlt ho)] at hpa
      cases hpa
      cases he
      have hin : (h.mem.pool .kernel).frame i + o ∈ frame ((h.mem.pool .kernel).frame i) := Set.mem_Ico.mpr ⟨by omega, by omega⟩
      exact ⟨u, hi.store (eqOn_write8 fun hw => hi.space.not_frame (hi.outside i (by have := hi.le; omega)) hw hin), hres⟩

variable {h : Heap} {cur : Caller}

/-- A free lock is taken at once. -/
theorem PoolLock.Free.acquire {l : PoolLock} (hl : l.Free) (t : Tid) : l.acquire t = .ok ⟨some t, 1, 0, l.waiters⟩ := by
  obtain ⟨h1, h2, h3⟩ := hl
  simp [PoolLock.acquire, semaDown, h1, h2, h3]

theorem release_once (t : Tid) (w : Option (List Tid)) :
    (∃ l, PoolLock.release t ⟨some t, 1, 0, w⟩ = .ok l) ∨ w = none ∧ PoolLock.release t ⟨some t, 1, 0, w⟩ = .error .fault := by
  cases w with
  | none => exact .inr ⟨rfl, by simp [PoolLock.release, semaUp]⟩
  | some ts => exact .inl ⟨⟨none, 0, 1, some ts.tail⟩, by simp [PoolLock.release, semaUp]⟩

/-- No ASSERT fires where the entries of the range found are absent. -/
theorem mallocPage_kernel_ok (hs : KernelSpace tab s) (hn : 1 ≤ n ∧ n < 3840)
    (habs : ∀ b, bitmapScan s.data s.kernelVaddr.vaddrBitmap n = some b → ∀ i, i < n →
      ¬ Present (s.phys.read32 (entry tab (s.kernelVaddr.page b + i * pgSize)))) :
    ∃ v s', mallocPage .kernel n s = .ok (v, s') := by
  unfold mallocPage
  rw [decide_eq_true (by omega : 0 < n ∧ n < 3840), assert_true, ok_bind]
  unfold vaddrGet
  cases hscan : bitmapScan s.data (s.vaddr .kernel).vaddrBitmap n with
  | none => exact ⟨0, s, rfl⟩
  | some b =>
    obtain ⟨m, hm, -, -, -⟩ := setBits_spec s.kernelVaddr.vaddrBitmap n b s.data
    obtain ⟨-, hbn, hb⟩ := bitmapScan_some hn.1 hscan
    obtain ⟨h1, h2, -⟩ := hs.page (n := n) (b := b) hbn
    obtain ⟨hlt, hpos⟩ := s.kernelVaddr.page_lt hb
    obtain ⟨⟨all, s'⟩, hmap⟩ := mapPages_ok (s := { s with data := m }) hs.dir h1 h2 (habs b hscan)
    have hmod : (s.kernelVaddr.vaddrStart + b * pgSize) % 2 ^ 32 = s.kernelVaddr.page b := Nat.mod_eq_of_lt hlt
    refine ⟨if all then s.kernelVaddr.page b else 0, s', ?_⟩
    simp only [Mem.vaddr, hm, ok_bind, hmod, true_or, decide_true, assert_true]
    rw [if_neg (by omega), hmap]
    rfl

/-- The pages that `malloc_page` answers can be cleared. -/
theorem mallocPage_memset (hs : KernelSpace tab s) (h : mallocPage .kernel n s = .ok (v, s')) (hv : v ≠ 0) :
    ∃ phys, memset s'.phys s'.cr3 v 0 (n * pgSize % 2 ^ 32) = .ok phys := by
  have hn : 0 < n := by
    obtain ⟨u, hc, -⟩ := bind_ok_iff.mp h
    exact (of_decide_eq_true (assert_ok.mp hc)).1
  rcases mallocPage_cases h with ⟨-, h0, -⟩ | ⟨b, m, k, hscan, hset, hmap, ⟨h0, -⟩ | ⟨he, -, hk⟩⟩
  · exact absurd h0 hv
  · exact absurd h0 hv
  · obtain ⟨-, hbn, -⟩ := bitmapScan_some hn hscan
    obtain ⟨h1, h2, ha⟩ := hs.page (n := n) (b := b) hbn
    subst hk
    obtain ⟨f, hf⟩ := mapPages_mapped (s := { s with data := m }) hs.dir h1 h2 hmap
    have hout : ∀ i, i < k → (s.pool .kernel).frame (f i) ≠ s.cr3 := fun i hi =>
      hs.out (f i) (hf.fits i hi) fun ht => hf.free i hi ((setBits_kept (s := s) hset).grows.used ht)
    obtain ⟨phys, hp, -, -⟩ := hf.memset hs.dir ha h1 h2 hs.low hout
    rw [he]
    exact ⟨phys, hp⟩

/-- A lock that was released can be taken again. -/
theorem release_waiters {t : Tid} {w : Option (List Tid)} {l : PoolLock}
    (h : PoolLock.release t ⟨some t, 1, 0, w⟩ = .ok l) : l.waiters ≠ none := by
  cases w with
  | none => simp [PoolLock.release, semaUp] at h
  | some ts =>
    have he : PoolLock.release t ⟨some t, 1, 0, some ts⟩ = .ok ⟨none, 0, 1, some ts.tail⟩ := by
      simp [PoolLock.release, semaUp]
    rw [he] at h
    cases h
    exact Option.some_ne_none _

/-- A call of `get_kernel_pages` released its lock. -/
theorem getKernelPages_waiters (hf : (s.pool .kernel).lock.Free) (hc : getKernelPages n s = .ok (v, s')) :
    (s'.pool .kernel).lock.waiters ≠ none := by
  obtain ⟨l, sm, phys, hl, hm, -, hr⟩ := getKernelPages_ok hc
  obtain ⟨l', hl', hsr⟩ := lockRelease_ok hr
  rw [hf.acquire] at hl
  cases hl
  have hk := mallocPage_kept hm
  have hlock : (sm.pool .kernel).lock = ⟨some s.cur.tid, 1, 0, (s.pool .kernel).lock.waiters⟩ := by
    rw [hk.pool, setLock_lock]
  have hcur : sm.cur = s.cur := by rw [hk.cur]; rfl
  have hl' : PoolLock.release sm.cur.tid (sm.pool .kernel).lock = .ok l' := hl'
  rw [hlock, hcur] at hl'
  rw [hsr, setLock_lock]
  exact release_waiters hl'

/-- A call returns, unless the waiters list of the lock cannot be used. -/
theorem HeapInv.returns (hi : HeapInv tab u s) (hn : 1 ≤ n ∧ n < 3840) :
    (∃ v s', getKernelPages n s = .ok (v, s')) ∨
      (s.pool .kernel).lock.waiters = none ∧ getKernelPages n s = .error .fault := by
  have hs : KernelSpace tab (s.setLock .kernel ⟨some s.cur.tid, 1, 0, (s.pool .kernel).lock.waiters⟩) :=
    (setLock_stays s .kernel _).space rfl hi.space
  have hlen : 8 * s.kernelVaddr.vaddrBitmap.btmpBytesLen = s.frames .kernel := by rw [hi.len]; rfl
  obtain ⟨v, sm, hm⟩ := mallocPage_kernel_ok (n := n) hs hn fun b hscan i hl => by
    have hscan : bitmapScan s.data s.kernelVaddr.vaddrBitmap n = some b := hscan
    have hres : ∀ i, i < s.frames .kernel → (s.kernelVaddr.vaddrBitmap.Used s.data i ↔ i < u) := hi.reserved
    have hb : b = u := bitmapScan_initial hn.1 (fun i hl => hres i (by omega)) hscan
    obtain ⟨-, hbn, -⟩ := bitmapScan_some hn.1 hscan
    have hk : KernelAddr (heapPage (b + i)) := hi.kernelAddr (o := 0) (by omega) (by omega)
    have hpage : s.kernelVaddr.page b + i * pgSize = heapPage (b + i) := by rw [hi.page, heapPage_add]
    show ¬ Present (s.phys.read32 (entry tab (s.kernelVaddr.page b + i * pgSize)))
    rw [hpage]
    exact hi.absent _ (by unfold heapPage pgSize; omega) hk.2
  have hphys : ∃ phys, (if v ≠ 0 then memset sm.phys sm.cr3 v 0 (n * pgSize % 2 ^ 32) else .ok sm.phys) = .ok phys := by
    by_cases hv : v = 0
    · exact ⟨sm.phys, if_neg fun h => h hv⟩
    · rw [if_pos hv]; exact mallocPage_memset hs hm hv
  obtain ⟨phys, hp⟩ := hphys
  have hk := mallocPage_kept hm
  have hlock : (sm.pool .kernel).lock = ⟨some s.cur.tid, 1, 0, (s.pool .kernel).lock.waiters⟩ := by
    rw [hk.pool, setLock_lock]
  have hcur : sm.cur = s.cur := hk.cur
  unfold getKernelPages lockAcquire lockRelease
  rw [hi.free.acquire, ok_bind, ok_bind, hm, ok_bind]
  simp only [hp, ok_bind, hlock, hcur]
  rcases release_once s.cur.tid (s.pool .kernel).lock.waiters with ⟨l, hl⟩ | ⟨hw, hl⟩
  · rw [hl]
    exact .inl ⟨_, _, rfl⟩
  · rw [hl]
    exact .inr ⟨hw, rfl⟩

theorem Step.intact {k : Nat} (hi : HeapInv tab u s) (hstep : Step tab u n v k s s') (hres : Ranges u results) :
    Intact results s s' := by
  intro a ha
  obtain ⟨i, o, hlt, ho, rfl⟩ := hres.owned ha
  refine ⟨_, hi.walk hlt ho, ?_, hstep.kept i hlt _ (Set.mem_Ico.mpr ⟨by omega, by omega⟩)⟩
  rw [hstep.inv.walk (by omega) ho, hstep.stays.frame]

theorem Step.fresh {k : Nat} (hstep : Step tab u n v k s s') (hres : Ranges u results) (hv : v ≠ 0) :
    Fresh results v n s' := by
  obtain ⟨he, rfl⟩ := hstep.result hv
  have hinv := hstep.inv
  have hwalk : ∀ i o, i < k → o < 4096 → translate s'.phys s'.cr3 (v + i * pgSize + o) = some ((s'.pool .kernel).frame (u + i) + o) :=
    fun i o hl ho => by
      rw [he, heapPage_add]
      exact hinv.walk (by omega) ho
  have hle := hinv.le
  refine ⟨?_, ?_, ?_, fun r hm => ?_, fun i hl => ⟨u + i, by omega, fun o ho => hwalk i o hl ho⟩, fun i hl x hx hne => ?_,
    fun o ho => ?_⟩
  · rw [he]; unfold heapPage kHeapStart pgSize; omega
  · rw [he]; exact Nat.le_add_right _ _
  · rw [he, hinv.len]
    unfold Mem.frames at hle
    unfold heapPage pgSize
    omega
  · obtain ⟨b, hb, hle⟩ := hres r hm
    rw [hb, he, heapPage_add]
    unfold heapPage pgSize
    omega
  · -- pages are told apart by their numbers, and so are their frames
    have hpage : ∃ j, j < u + k ∧ x = heapPage j := by
      obtain ⟨r, hm, j, hj, e⟩ := hx
      obtain ⟨b, hb, hle⟩ := hstep.ranges hres r (by rw [if_neg hv]; exact hm)
      exact ⟨b + j, by omega, by rw [e, hb, heapPage_add]⟩
    obtain ⟨j, hj, rfl⟩ := hpage
    have h1 := hinv.walk (o := 0) hj (by omega)
    have h2 := hwalk i 0 hl (by omega)
    intro heq
    rw [Nat.add_zero] at h1 h2
    rw [h1, h2] at heq
    have := (s'.pool .kernel).frame_inj (Nat.add_right_cancel (Option.some.inj heq))
    exact hne (by rw [this, he, heapPage_add])
  · have hi' : o / 4096 < k := by unfold pgSize at ho; omega
    have ho' : v + o = v + o / 4096 * pgSize + o % 4096 := by unfold pgSize; omega
    refine ⟨_, by rw [ho']; exact hwalk _ _ hi' (Nat.mod_lt _ (by omega)), ?_⟩
    rw [hstep.stays.frame]
    exact hstep.zero hv _ hi' _ (Set.mem_Ico.mpr ⟨by omega, by omega⟩)

/-- Where a frame is left, the next page of the heap. -/
theorem HeapInv.next_page (hi : HeapInv tab u s) (hw : (s.pool .kernel).lock.waiters ≠ none)
    (hroom : u < s.frames .kernel) : ∃ s', getKernelPages 1 s = .ok (heapPage u, s') ∧ HeapInv tab (u + 1) s' ∧
      (s'.pool .kernel).lock.waiters ≠ none ∧ Stays s s' := by
  rcases hi.returns (n := 1) (by omega) with ⟨v, s', hc⟩ | ⟨hnone, -⟩
  · obtain ⟨k, hstep⟩ := hi.call (by omega) hc
    have hv : v ≠ 0 := fun h0 => by
      have hnull := hstep.null h0
      omega
    obtain ⟨rfl, rfl⟩ := hstep.result hv
    exact ⟨s', hc, hstep.inv, getKernelPages_waiters hi.free hc, hstep.stays⟩
  · exact absurd hnone hw

/-- Over all runs: a call returns without an ASSERT, unless the waiters list of the lock
cannot be used; the earlier results stay as they were; and what a non-NULL result is. -/
theorem heap_sound (hr : HeapRuns tab h) (hn : 1 ≤ n ∧ n < 3840) :
    (∃ v s', getKernelPages n { h.mem with cur := cur } = .ok (v, s') ∧
      Intact h.results h.mem s' ∧ (v ≠ 0 → Fresh h.results v n s')) ∨
    (h.mem.pool .kernel).lock.waiters = none ∧ getKernelPages n { h.mem with cur := cur } = .error .fault := by
  obtain ⟨u, hi, hres⟩ := hr.inv
  rcases (hi.caller cur).returns hn with ⟨v, s', hc⟩ | hf
  · obtain ⟨k, hstep⟩ := (hi.caller cur).call hn.1 hc
    have hin : Intact h.results { h.mem with cur := cur } s' := hstep.intact (hi.caller cur) hres
    exact .inl ⟨v, s', hc, hin, hstep.fresh hres⟩
  · exact .inr hf

/-- Zeroed memory, as `setup_page` leaves it. -/
def bootMem : Mem := { smallMem with phys := setupPage fun _ => 0, cr3 := pageDirTablePos }

/-- With 32 MB, after mem_pool_init. -/
def bootHeap : Heap := ⟨poolsInit 0x2000000 bootMem, []⟩

theorem bootHeap_start : HeapStart kernelTable bootHeap := by
  have hphys : bootHeap.mem.phys = setupPage fun _ => 0 := (poolsInit_phys _ _).trans (by simp only [bootMem])
  have hcr3 : bootHeap.mem.cr3 = pageDirTablePos := (poolsInit_cr3 _ _).trans (by simp only [bootMem])
  refine ⟨⟨0x2000000, bootMem, by omega, by omega, memPoolInit_eq _ _⟩, rfl, ?_, fun i _ => ?_, fun va h1 h2 => ?_⟩
  · rw [hphys, hcr3]; exact setupPage_tables _
  · have h : usedMem + i * pgSize ≠ pageDirTablePos := by unfold usedMem pageDirTablePos pgSize; omega
    rw [hcr3]; exact h
  · have hzero : ∀ x ∈ Bytes.word (entry kernelTable va), setupPage (fun _ => 0) x = 0 := fun x hx => by
      have := Set.mem_Ico.mp hx
      refine setupPage_outside (.inr ?_)
      unfold entry kernelTable pdeIdx pteIdx kHeapStart at *
      omega
    have h0 : (setupPage fun _ => 0).read32 (entry kernelTable va) = 0 := Bytes.read32_of_zero hzero
    rw [hphys, h0]
    decide

/-- Two pages, with a byte written to the first. -/
theorem bootHeap_grown : ∃ h, HeapRuns kernelTable h ∧ h.results = [(heapPage 0, 2)] ∧
    (h.mem.pool .kernel).lock.waiters ≠ none := by
  have hi : HeapInv kernelTable 0 { bootHeap.mem with cur := kernelThread } := bootHeap_start.inv.caller kernelThread
  rcases hi.returns (n := 2) (by omega) with ⟨v, s', hc⟩ | ⟨hnone, -⟩
  · obtain ⟨k, hstep⟩ := hi.call (by omega) hc
    have hroom : 0 + 2 ≤ { bootHeap.mem with cur := kernelThread }.frames .kernel := by decide +kernel
    have hv : v ≠ 0 := fun h0 => absurd (hstep.null h0) (Nat.not_lt.mpr hroom)
    obtain ⟨rfl, rfl⟩ := hstep.result hv
    have hw : (s'.pool .kernel).lock.waiters ≠ none := getKernelPages_waiters hi.free hc
    have hgot : HeapRuns kernelTable ⟨s', [(heapPage 0, 2)]⟩ := by
      refine Reach.step (.getKernelPages kernelThread 2) (.first bootHeap_start) ⟨by omega, by omega⟩ ?_
      show (do
        let (v, s) ← getKernelPages 2 { bootHeap.mem with cur := kernelThread }
        .ok (⟨s, if v = 0 then bootHeap.results else (v, 2) :: bootHeap.results⟩ : Heap)) = _
      rw [hc, ok_bind]
      simp only
      rw [if_neg hv]
      rfl
    have hwalk := hstep.inv.walk (i := 0) (o := 0) (by omega) (by omega)
    rw [Nat.add_zero, Nat.add_zero] at hwalk
    have hwrote : HeapRuns kernelTable
        ⟨{ s' with phys := s'.phys.write8 ((s'.pool .kernel).frame 0) 0x61 }, [(heapPage 0, 2)]⟩ := by
      refine Reach.step (.write (heapPage 0) 0x61) hgot ⟨_, List.mem_cons_self, by omega, by unfold pgSize; omega⟩ ?_
      show (do
        let pa ← mmu s'.phys s'.cr3 (heapPage 0)
        .ok (⟨{ s' with phys := s'.phys.write8 pa 0x61 }, [(heapPage 0, 2)]⟩ : Heap)) = _
      rw [mmu_of_translate hwalk]
      rfl
    exact ⟨_, hwrote, rfl, hw⟩
  · exact absurd hnone (by decide +kernel)

theorem bootHeap_sound : ∃ h v s', HeapRuns kernelTable h ∧ h.results = [(heapPage 0, 2)] ∧
    getKernelPages 3 { h.mem with cur := kernelThread } = .ok (v, s') ∧ Intact h.results h.mem s' ∧
      (v ≠ 0 → Fresh h.results v 3 s') := by
  obtain ⟨h, hr, hres, hw⟩ := bootHeap_grown
  have hn : 1 ≤ 3 ∧ 3 < 3840 := by decide
  rcases heap_sound hr hn with ⟨v, s', hc, hin, hf⟩ | ⟨hnone, -⟩
  · exact ⟨h, v, s', hr, hres, hc, hin, hf⟩
  · exact absurd hnone hw

/-- NULL is answered only where fewer than `n` frames are left. -/
theorem heap_null (hr : HeapRuns tab h) (hn : 1 ≤ n ∧ n < 3840)
    (hc : getKernelPages n { h.mem with cur := cur } = .ok (0, s')) (i : Nat) (hi : i + n ≤ h.mem.frames .kernel) :
    h.mem.Taken .kernel i := by
  obtain ⟨u, hinv, -⟩ := hr.inv
  obtain ⟨k, hstep⟩ := (hinv.caller cur).call hn.1 hc
  have hlt : h.mem.frames .kernel < u + n := hstep.null rfl
  exact (hinv.taken i (by omega)).mpr (by omega)

end TinyOs.Memory
