/-
  TinyOs.Memory.HeapPages — single pages of the kernel heap: PCBs and page directories.

  A page is taken once its bit of the heap's bitmap is set; no call clears one. So
  `get_kernel_pages(1)` and `create_page_dir` answer a page that was not taken, and the
  entries of the pages that were keep their frames.
-/

import TinyOs.Memory.AddressSpaces

namespace TinyOs.Memory

open TinyOs.Kernel TinyOs.Lib TinyOs.Logic

/-- `v` is a page of the kernel heap whose bit is set. -/
def Mem.TakenPage (s : Mem) (v : Nat) : Prop :=
  ∃ b, b < 8 * s.kernelVaddr.vaddrBitmap.btmpBytesLen ∧ v = s.kernelVaddr.page b ∧ s.Reserved .kernel b

/-- A call that answered `v`. -/
structure NewPage (s s' : Mem) (v : Nat) : Prop where
  stays : Stays s s'
  fresh : v ≠ 0 → s'.TakenPage v ∧ ¬ s.TakenPage v
  entries : ∀ p, s.TakenPage p → s'.phys.read32 (entry kernelTable p) = s.phys.read32 (entry kernelTable p)

/-- The page directory at `v` lies in frame `F`. -/
structure DirAt (s : Mem) (v F : Nat) : Prop where
  taken : s.TakenPage v
  aligned : F % 4096 = 0
  entry : s.phys.read32 (entry kernelTable v) = F ||| pgAttr

variable {s s' : Mem} {dirs : List Nat} {v p d F : Nat}

theorem takenPage_iff {b : Nat} : s.TakenPage (s.kernelVaddr.page b) ↔
    b < 8 * s.kernelVaddr.vaddrBitmap.btmpBytesLen ∧ s.Reserved .kernel b := by
  constructor
  · intro h
    obtain ⟨j, hj, e, hr⟩ := h
    have hbj : b = j := by
      unfold VirtualAddr.page pgSize at e
      omega
    rw [hbj]
    exact ⟨hj, hr⟩
  · intro h
    exact ⟨b, h.1, rfl, h.2⟩

theorem Stays.takenPage (h : Stays s s') (hv : s.TakenPage v) : s'.TakenPage v := by
  obtain ⟨b, hb, he, hr⟩ := hv
  refine ⟨b, by rw [h.kernelVaddr]; exact hb, by rw [h.kernelVaddr]; exact he, ?_⟩
  unfold Mem.Reserved Mem.vaddr
  rw [h.kernelVaddr]
  exact h.grows.used hr

/-- A bit set before the pages were mapped is still set: the map of the pool only gained bits. -/
theorem Granted.grows {tab : Nat → Nat} {va k : Nat} {f : Nat → Nat} {m : Bytes} (h : Granted tab va k f m s s') :
    Grows m s'.data := by
  intro x i hi
  by_cases hx : x ∈ (s.pool .kernel).poolBitmap.area
  · have hlow := (Set.mem_Ico.mp hx).1
    have hlt : i < 8 := BitVec.lt_of_getLsbD hi
    have hx' : (s.pool .kernel).poolBitmap.bits + (8 * (x - (s.pool .kernel).poolBitmap.bits) + i) / 8 = x := by omega
    have hi' : (8 * (x - (s.pool .kernel).poolBitmap.bits) + i) % 8 = i := by omega
    have hused : (s.pool .kernel).poolBitmap.Used m (8 * (x - (s.pool .kernel).poolBitmap.bits) + i) := by
      unfold Bitmap.Used
      rw [hx', hi']
      exact hi
    have htaken := (h.taken _).mpr (.inl hused)
    unfold Mem.Taken Bitmap.Used at htaken
    rw [h.stays.bitmap, hx', hi'] at htaken
    exact htaken
  · rw [h.data x hx]
    exact hi

namespace SpaceInv

theorem takenPage_addr (h : SpaceInv s dirs) (hv : s.TakenPage v) :
    KernelAddr v ∧ v % 4096 = 0 ∧ kHeapStart ≤ v ∧ v + pgSize ≤ 0xffc00000 := by
  obtain ⟨b, hb, rfl, -⟩ := hv
  have hhigh := h.heapHigh
  have hle : (b + 1) * pgSize ≤ (8 * s.kernelVaddr.vaddrBitmap.btmpBytesLen + 1) * pgSize :=
    Nat.mul_le_mul_right _ (by omega)
  unfold VirtualAddr.page KernelAddr
  rw [h.heap]
  unfold kHeapStart pgSize at *
  omega

/-- The entry of a page is read on every walk to it, and lies in no frame of the pool. -/
theorem takenPage_walked (h : SpaceInv s dirs) (hd : s.cr3 ∈ dirs) (hv : s.TakenPage v) {x : Nat}
    (hx : x ∈ Bytes.word (entry kernelTable v)) : x ∈ walked s.cr3 := by
  have hlow := (h.dir hd).entry_low (h.takenPage_addr hv).1
  have hx := (Set.mem_Ico.mp hx).2
  exact .inr (Set.mem_Iio.mpr (by omega))

theorem getKernelPages_new (h : SpaceInv s dirs) (hd : s.cr3 ∈ dirs) (hc : Memory.getKernelPages 1 s = .ok (v, s')) :
    NewPage s s' v := by
  have hs := h.space hd
  rcases getKernelPages_cases hs hc with ⟨-, hv, hst, hp, -⟩ | ⟨b, m, k, f, hscan, hset, hg, hend⟩
  · exact ⟨hst, fun hne => absurd hv hne, fun p _ => by rw [hp]⟩
  obtain ⟨hclear, -, hb⟩ := bitmapScan_some (by omega) hscan
  have hfree : ¬ s.TakenPage (s.kernelVaddr.page b) := fun ht => clear_one.mp hclear (takenPage_iff.mp ht).2
  refine ⟨hg.stays, ?_, ?_⟩
  · intro hne
    rcases hend with ⟨hv, -⟩ | ⟨hv, -, -, -⟩
    · exact absurd hv hne
    · obtain ⟨m', hm, -, hmarked, -⟩ := setBits_spec s.kernelVaddr.vaddrBitmap 1 b s.data
      rw [hset] at hm
      cases hm
      constructor
      · rw [hv, ← hg.stays.kernelVaddr]
        refine takenPage_iff.mpr ⟨by rw [hg.stays.kernelVaddr]; exact hb, ?_⟩
        unfold Mem.Reserved Mem.vaddr
        rw [hg.stays.kernelVaddr]
        exact hg.grows.used ((hmarked b).mpr (.inr ⟨Nat.le_refl b, by omega⟩))
      · rw [hv]
        exact hfree
  · intro p hp
    obtain ⟨hka, hal, -, -⟩ := h.takenPage_addr hp
    apply Bytes.read32_congr
    intro x hx
    apply hg.unchanged hs (h.takenPage_walked hd hp hx)
    intro i hi
    refine hs.dir.entry_apart hka (hg.kernelAddr hi) ?_ hx
    -- page `b` was not taken
    intro e
    have halb := hg.aligned
    have hi0 : i = 0 := by
      rcases hend with ⟨-, hk, -⟩ | ⟨-, -, hk, -⟩ <;> omega
    rw [hi0, Nat.zero_mul, Nat.add_zero] at e
    have hpage : p = s.kernelVaddr.page b := by omega
    exact hfree (hpage ▸ hp)

theorem createPageDir_new (h : SpaceInv s dirs) (hd : s.cr3 ∈ dirs) (hc : Memory.createPageDir s = .ok (v, s')) :
    NewPage s s' v ∧ (v ≠ 0 → ∃ F, DirAt s' v F ∧ F ∉ dirs) := by
  have hs := h.space hd
  rcases createPageDir_cases hs hc with ⟨hv, hk⟩ | ⟨hv, s1, g, m, phys, hg, hk, hn, rfl, -⟩
  · rw [hv]
    rw [hv] at hc
    exact ⟨h.getKernelPages_new hd hk, fun hne => absurd rfl hne⟩
  have hnew := h.getKernelPages_new hd hk
  have hsame : ∀ p, KernelAddr p → phys.read32 (entry kernelTable p) = s1.phys.read32 (entry kernelTable p) := by
    intro p hka
    apply Bytes.read32_congr
    intro x hx
    have hlow := hs.dir.entry_low hka
    have hx := (Set.mem_Ico.mp hx).2
    have hne := hs.out _ (hg.fits 0 (by omega)) (hg.free 0 (by omega))
    exact hn.outside x (hs.not_frame hne (.inr (Set.mem_Iio.mpr (by omega))))
  obtain ⟨hka, hentry⟩ := hg.first (by omega)
  refine ⟨⟨hnew.stays.trans (kept_phys s1 phys).stays, hnew.fresh, ?_⟩, ?_⟩
  · intro p hp
    exact (hsame p (h.takenPage_addr hp).1).trans (hnew.entries p hp)
  · intro hne
    have hat : DirAt { s1 with phys := phys } v ((s.pool .kernel).frame (g 0)) :=
      ⟨(hnew.fresh hne).1, (s.pool .kernel).frame_aligned _, (hsame v hka).trans hentry⟩
    refine ⟨_, hat, ?_⟩
    intro hm
    exact (h.known _ hm).ne_free h.pool (hg.free 0 (by omega)) rfl

end SpaceInv

theorem NewPage.dirAt (h : NewPage s s' v) (hd : DirAt s p F) : DirAt s' p F :=
  ⟨h.stays.takenPage hd.taken, hd.aligned, (h.entries p hd.taken).trans hd.entry⟩

/-- Where every directory finds it. -/
theorem DirAt.translate (h : SpaceInv s dirs) (hm : d ∈ dirs) (hd : DirAt s v F) : translate s.phys d v = some F := by
  obtain ⟨hka, hal, -⟩ := h.takenPage_addr hd.taken
  have hp : Present (s.phys.read32 (Memory.entry kernelTable v)) := by rw [hd.entry]; exact present_or_attr hd.aligned
  rw [(h.dir hm).translate hka hp, hd.entry, frameOf_or_attr hd.aligned, hal, Nat.add_zero]

theorem DirAt.addrV2p (h : SpaceInv s dirs) (hm : s.cr3 ∈ dirs) (hd : DirAt s v F) : addrV2p v s = .ok F := by
  obtain ⟨hka, hal, -⟩ := h.takenPage_addr hd.taken
  exact (h.dir hm).addrV2p_page hka hal hd.aligned hd.entry

end TinyOs.Memory
