/-
  TinyOs.Memory.AddressSpaces — the kernel's part of every address space is one.

  Directories are named by their frames. The machine starts in the one that
  `setup_page` leaves; `create_page_dir`, `get_kernel_pages` and `get_a_page` are
  called by any threads, under whichever directory is active.

  All directories name the same tables in entries 768 to 1022, so what is mapped
  through one is mapped in all; the calls keep it so because
  - `page_table_add` finds those entries present and never writes them;
  - what it does write below them names a frame that is no directory;
  - a new directory is a frame that was free: no entry of any directory names it.
-/

import TinyOs.Memory.CreatePageDir
import TinyOs.Memory.KernelHeap

namespace TinyOs.Memory

open TinyOs.Kernel TinyOs.Lib TinyOs.Logic

structure Space where
  mem : Mem
  /-- The frames of the directories that exist. -/
  dirs : List Nat

inductive SpaceOp where
  | createPageDir (dir : Nat) (cur : Caller)
  | getKernelPages (dir : Nat) (cur : Caller) (pgCnt : Nat)
  | getAPage (dir : Nat) (cur : Caller) (pf : PoolFlags) (vaddr : Nat)

/-- `dir` is active and `cur` runs. -/
def Mem.activate (s : Mem) (dir : Nat) (cur : Caller) : Mem := { s with cr3 := dir, cur := cur }

/-- A new directory's frame is what `addr_v2p` answers for it. -/
def spaceStep (S : Space) : SpaceOp → Except Stop Space
  | .createPageDir dir cur => do
    let (v, s) ← createPageDir (S.mem.activate dir cur)
    if v = 0 then .ok ⟨s, S.dirs⟩
    else
      let f ← addrV2p v s
      .ok ⟨s, f :: S.dirs⟩
  | .getKernelPages dir cur pgCnt => do
    let (_, s) ← getKernelPages pgCnt (S.mem.activate dir cur)
    .ok ⟨s, S.dirs⟩
  | .getAPage dir cur pf vaddr => do
    let (_, s) ← getAPage pf vaddr (S.mem.activate dir cur)
    .ok ⟨s, S.dirs⟩

def SpaceLegal (S : Space) : SpaceOp → Prop
  | .createPageDir dir _ => dir ∈ S.dirs
  | .getKernelPages dir _ _ => dir ∈ S.dirs
  | .getAPage dir _ _ vaddr => dir ∈ S.dirs ∧ vaddr % 4096 = 0 ∧ vaddr < 0xffc00000

/-- After `setup_page` on any memory, and mem_pool_init with any `all_mem`. -/
def SpaceStart (S : Space) : Prop :=
  (∃ allMem s0 m, s0.phys = setupPage m ∧ memPoolInit allMem s0 = .ok S.mem) ∧ S.dirs = [pageDirTablePos]

def SpaceRuns : Space → Prop := Reach SpaceStart SpaceLegal spaceStep

/-- The directories of `S` have one kernel space; and so they will when one is added. -/
structure OneKernelSpace (S : Space) : Prop where
  same : ∀ d₁ ∈ S.dirs, ∀ d₂ ∈ S.dirs, ∀ va, 0xc0000000 ≤ va → va < 0xffc00000 →
    translate S.mem.phys d₁ va = translate S.mem.phys d₂ va ∧
      addrV2p va { S.mem with cr3 := d₁ } = addrV2p va { S.mem with cr3 := d₂ }
  own : ∀ d ∈ S.dirs, S.mem.phys.read32 (d + 1023 * 4) = d ||| pgAttr
  /-- A directory just made is a new one, and maps nothing below 0xc0000000. -/
  fresh : ∀ dir ∈ S.dirs, ∀ cur v s, createPageDir (S.mem.activate dir cur) = .ok (v, s) → v ≠ 0 →
    ∃ d, addrV2p v s = .ok d ∧ d ∉ S.dirs ∧ ∀ va, va < 0xc0000000 → translate s.phys d va = none

/-! ## The invariant -/

/-- A frame below the pools, or one that the kernel pool has given away. -/
def Known (s : Mem) (f : Nat) : Prop :=
  f % 4096 = 0 ∧ (f + pgSize ≤ usedMem ∨ ∃ i, i < s.frames .kernel ∧ f = (s.pool .kernel).frame i ∧ s.Taken .kernel i)

structure SpaceInv (s : Mem) (dirs : List Nat) : Prop where
  pool : (s.pool .kernel).phyAddrStart = usedMem
  heap : s.kernelVaddr.vaddrStart = kHeapStart
  heapHigh : kHeapStart + (8 * s.kernelVaddr.vaddrBitmap.btmpBytesLen + 1) * pgSize ≤ 0xffc00000
  above : ∀ d ∈ dirs, pageDirTablePos ≤ d
  known : ∀ d ∈ dirs, Known s d
  apart : ∀ d ∈ dirs, ∀ j, 768 ≤ j → j < 1023 → kernelTable j ≠ d
  kernel : ∀ d ∈ dirs, ∀ j, 768 ≤ j → j < 1023 → s.phys.read32 (d + j * 4) = kernelTable j ||| pgAttr
  own : ∀ d ∈ dirs, s.phys.read32 (d + 1023 * 4) = d ||| pgAttr
  user : ∀ d ∈ dirs, ∀ j, j < 768 → Present (s.phys.read32 (d + j * 4)) →
    Known s (frameOf (s.phys.read32 (d + j * 4))) ∧ frameOf (s.phys.read32 (d + j * 4)) ∉ dirs

variable {s s' : Mem} {dirs : List Nat} {d f : Nat}

theorem Known.mono (h : Known s f) (hst : Stays s s') : Known s' f := by
  refine ⟨h.1, h.2.imp_right ?_⟩
  intro hex
  obtain ⟨i, hi, he, ht⟩ := hex
  exact ⟨i, by rw [hst.frames]; exact hi, by rw [hst.frame]; exact he, hst.taken ht⟩

/-- A free frame is not known. -/
theorem Known.ne_free (h : Known s f) (hp : (s.pool .kernel).phyAddrStart = usedMem) {i : Nat} (ht : ¬ s.Taken .kernel i) :
    f ≠ (s.pool .kernel).frame i := by
  intro e
  subst e
  rcases h.2 with hlow | ⟨j, -, he, ht'⟩
  · unfold Pool.frame pgSize at hlow
    omega
  · rw [(s.pool .kernel).frame_inj he] at ht
    exact ht ht'

theorem SpaceInv.activate (h : SpaceInv s dirs) (dir : Nat) (cur : Caller) : SpaceInv (s.activate dir cur) dirs :=
  ⟨h.pool, h.heap, h.heapHigh, h.above, h.known, h.apart, h.kernel, h.own, h.user⟩

theorem SpaceInv.dir (h : SpaceInv s dirs) (hd : d ∈ dirs) : KernelDir s.phys d kernelTable := by
  have hal := (h.known d hd).1
  refine ⟨⟨⟨?_, ?_⟩, fun j h1 h2 => ?_, fun j h1 h2 => ?_, fun j h1 h2 => ?_, fun i j h1 h2 h3 h4 e => ?_⟩, h.apart d hd⟩
  · rw [h.own d hd]; exact present_or_attr hal
  · rw [h.own d hd]; exact frameOf_or_attr hal
  · rw [h.kernel d hd j h1 h2]; exact present_or_attr (kernelTable_aligned j)
  · rw [h.kernel d hd j h1 h2]; exact frameOf_or_attr (kernelTable_aligned j)
  · unfold kernelTable pageDirTablePos usedMem pgSize; omega
  · unfold kernelTable at e; omega

theorem SpaceInv.space (h : SpaceInv s dirs) (hd : s.cr3 ∈ dirs) : KernelSpace kernelTable s where
  dir := h.dir hd
  low := Nat.le_of_eq h.pool.symm
  out _ _ ht := ((h.known _ hd).ne_free h.pool ht).symm
  heapAligned := by rw [h.heap]; decide
  heapLow := by rw [h.heap]; decide
  heapHigh := by rw [h.heap]; exact h.heapHigh

/-- What leaves the directories' frames alone keeps the invariant. -/
theorem SpaceInv.stays (h : SpaceInv s dirs) (hst : Stays s s') (he : ∀ d ∈ dirs, Set.EqOn s'.phys s.phys (frame d)) :
    SpaceInv s' dirs := by
  have hw : ∀ d ∈ dirs, ∀ j, j < 1024 → s'.phys.read32 (d + j * 4) = s.phys.read32 (d + j * 4) := fun d hd j hj =>
    Bytes.read32_congr ((he d hd).mono (pde_word_subset hj))
  refine ⟨?_, ?_, ?_, h.above, fun d hd => (h.known d hd).mono hst, h.apart, fun d hd j h1 h2 => ?_, fun d hd => ?_,
    fun d hd j hj hp => ?_⟩
  · rw [hst.start]; exact h.pool
  · rw [hst.kernelVaddr]; exact h.heap
  · rw [hst.kernelVaddr]; exact h.heapHigh
  · rw [hw d hd j (by omega)]; exact h.kernel d hd j h1 h2
  · rw [hw d hd 1023 (by omega)]; exact h.own d hd
  · rw [hw d hd j (by omega)] at hp ⊢
    exact ⟨(h.user d hd j hj hp).1.mono hst, (h.user d hd j hj hp).2⟩

/-- The tables of the kernel are no directories. -/
theorem SpaceInv.entry_apart (h : SpaceInv s dirs) (hd : d ∈ dirs) {va : Nat} (hk : KernelAddr va) {x : Nat}
    (hx : x ∈ frame d) : x ∉ Bytes.word (entry kernelTable va) := fun hx' => (h.dir hd).entry_not_dir hk hx' hx

/-! ## get_kernel_pages -/

/-- The pages given out, and their entries, lie in no directory. -/
theorem SpaceInv.granted {va k : Nat} {g : Nat → Nat} {m : Bytes} (h : SpaceInv s dirs)
    (hg : Granted kernelTable va k g m s s') : ∀ d ∈ dirs, Set.EqOn s'.phys s.phys (frame d) := fun d hd x hx =>
  hg.phys x (fun _ hi => h.entry_apart hd (hg.kernelAddr hi) hx) fun i hi =>
    frame_apart (h.known d hd).1 ((s.pool .kernel).frame_aligned _) ((h.known d hd).ne_free h.pool (hg.free i hi)) hx

theorem SpaceInv.getKernelPages {n v : Nat} (h : SpaceInv s dirs) (hd : s.cr3 ∈ dirs) (hc : getKernelPages n s = .ok (v, s')) :
    SpaceInv s' dirs := by
  have hs := h.space hd
  rcases getKernelPages_cases hs hc with ⟨-, -, hst, hp, -⟩ | ⟨b, m, k, g, -, -, hg, -⟩
  · exact h.stays hst fun d _ x _ => by rw [hp]
  · exact h.stays hg.stays (h.granted hg)

/-! ## get_a_page -/

/-- One store outside the directories. -/
theorem SpaceInv.store (h : SpaceInv s dirs) {a v g : Nat} (hg : g % 4096 = 0) (hne : g ∉ dirs)
    (ha : Bytes.word a ⊆ frame g) : SpaceInv { s with phys := s.phys.write32 a v } dirs :=
  h.stays (kept_phys s _).stays fun d hd _ hx => Bytes.write32_of_notMem fun hx' =>
    frame_apart (h.known d hd).1 hg (fun e => hne (e ▸ hd)) hx (ha hx')

/-- The entries of a directory once frame `f`, another one, is entered as a table in the directory `c`. -/
theorem newTable_entry {c j k : Nat} {m m' : Bytes} (hc : c % 4096 = 0) (hd : d % 4096 = 0) (hal : f % 4096 = 0) (hne : f ≠ d)
    (hflt : f ||| pgAttr < 2 ^ 32) (hm : ∀ x, x ∉ frame f → m' x = m.write32 (c + j * 4) (f ||| pgAttr) x) (hj : j < 1024)
    (hk : k < 1024) : m'.read32 (d + k * 4) = if d = c ∧ k = j then f ||| pgAttr else m.read32 (d + k * 4) := by
  have hread : m'.read32 (d + k * 4) = (m.write32 (c + j * 4) (f ||| pgAttr)).read32 (d + k * 4) :=
    Bytes.read32_congr fun x hx => hm x (frame_apart hd hal hne.symm (pde_word_subset hk hx))
  rw [hread]
  split
  · next e => rw [e.1, e.2, Bytes.read32_write32 _ _ hflt]
  · next e => exact Bytes.read32_write32_of_disjoint (by omega)

/-- A table entered in the active directory: a known frame that is no directory. -/
theorem SpaceInv.newTable (h : SpaceInv s dirs) (hd : s.cr3 ∈ dirs) {j : Nat} (hj : j < 768) (hf : Known s f) (hne : f ∉ dirs)
    (hflt : f ||| pgAttr < 2 ^ 32) {m : Bytes} (hm : ∀ x, x ∉ frame f → m x = s.phys.write32 (s.cr3 + j * 4) (f ||| pgAttr) x) :
    SpaceInv { s with phys := m } dirs := by
  have hw : ∀ d ∈ dirs, ∀ k, k < 1024 →
      m.read32 (d + k * 4) = if d = s.cr3 ∧ k = j then f ||| pgAttr else s.phys.read32 (d + k * 4) := fun d hdm k hk =>
    newTable_entry (h.known _ hd).1 (h.known d hdm).1 hf.1 (fun e => hne (e ▸ hdm)) hflt hm (by omega) hk
  refine ⟨h.pool, h.heap, h.heapHigh, h.above, h.known, h.apart, fun d hdm k h1 h2 => ?_, fun d hdm => ?_, fun d hdm k hk hp => ?_⟩
  · show m.read32 _ = _
    rw [hw d hdm k (by omega), if_neg (by omega)]
    exact h.kernel d hdm k h1 h2
  · show m.read32 _ = _
    rw [hw d hdm 1023 (by omega), if_neg (by omega)]
    exact h.own d hdm
  · have hp : Present (m.read32 (d + k * 4)) := hp
    show Known s (frameOf (m.read32 (d + k * 4))) ∧ frameOf (m.read32 (d + k * 4)) ∉ dirs
    rw [hw d hdm k (by omega)] at hp ⊢
    split at hp
    · next e =>
      rw [if_pos e, frameOf_or_attr hf.1]
      exact ⟨hf, hne⟩
    · next e =>
      rw [if_neg e]
      exact h.user d hdm k hk hp

/-- Where the directory's entry is absent: outside the new table's frame that entry alone is stored. -/
theorem pageTableAdd_made {sp : Mem} {vaddr pa : Nat} (hself : SelfMap s.phys s.cr3) (hv : vaddr < 0xffc00000)
    (hp : ¬ Present (s.phys.read32 (s.cr3 + pdeIdx vaddr * 4))) (hpal : palloc .kernel s = .ok (f, sp)) (hal : f % 4096 = 0)
    (hne : f ≠ s.cr3) (hflt : f ||| pgAttr < 2 ^ 32) (ha : pageTableAdd vaddr pa s = .ok s') :
    ∃ m, s' = { sp with phys := m } ∧ ∀ x, x ∉ frame f → m x = s.phys.write32 (s.cr3 + pdeIdx vaddr * 4) (f ||| pgAttr) x := by
  obtain ⟨m, he, -, hout⟩ := pageTableAdd_absent pa hself hv hp hpal hal hne hflt
  rw [he] at ha
  cases ha
  refine ⟨_, rfl, fun x hx => ?_⟩
  have hi := pteIdx_lt vaddr
  rw [Bytes.write32_of_notMem fun hx' => hx (Set.Ico_subset_Ico (by omega) (by omega) hx'), hout x hx]

/-- A table is made in the frame `f` that `palloc` answers. -/
theorem SpaceInv.makeTable {sp : Mem} {vaddr pa : Nat} (h : SpaceInv sp dirs) (hd : sp.cr3 ∈ dirs) (hphys : sp.phys = s.phys)
    (hcr3 : sp.cr3 = s.cr3) (hself : SelfMap s.phys s.cr3) (hv : vaddr < 0xc0000000)
    (hp : ¬ Present (s.phys.read32 (s.cr3 + pdeIdx vaddr * 4))) (hpal : palloc .kernel s = .ok (f, sp)) (hf : Known sp f)
    (hne : f ∉ dirs) (hflt : f ||| pgAttr < 2 ^ 32) (ha : pageTableAdd vaddr pa s = .ok s') : SpaceInv s' dirs := by
  have hne' : f ≠ s.cr3 := fun e => hne (by rw [e, ← hcr3]; exact hd)
  obtain ⟨m, rfl, hout⟩ := pageTableAdd_made hself (by omega) hp hpal hf.1 hne' hflt ha
  refine h.newTable hd (j := pdeIdx vaddr) (by unfold pdeIdx; omega) hf hne hflt fun x hx => ?_
  rw [hout x hx, hphys, hcr3]

theorem SpaceInv.pageTableAdd {vaddr pa : Nat} (h : SpaceInv s dirs) (hd : s.cr3 ∈ dirs) (hv : vaddr < 0xffc00000)
    (ha : pageTableAdd vaddr pa s = .ok s') : SpaceInv s' dirs := by
  by_cases hk : 0xc0000000 ≤ vaddr
  · -- an entry of a kernel table
    have hka : KernelAddr vaddr := ⟨hk, hv⟩
    obtain ⟨h1, h2⟩ := hka.pdeIdx
    obtain ⟨-, rfl⟩ := pageTableAdd_kernel_ok (h.dir hd) hka ha
    exact h.store (kernelTable_aligned _) (fun hm => h.apart _ hm _ h1 h2 rfl) (entry_word kernelTable vaddr)
  · have hself := (h.dir hd).self
    have hj : pdeIdx vaddr < 768 := by unfold pdeIdx; omega
    by_cases hp : Present (s.phys.read32 (s.cr3 + pdeIdx vaddr * 4))
    · -- an entry of a table that is no directory
      obtain ⟨hknown, hnot⟩ := h.user _ hd _ hj hp
      rw [pageTableAdd_present _ hself (by omega) hp] at ha
      obtain ⟨u, -, ha⟩ := bind_ok_iff.mp ha
      cases ha
      have := pteIdx_lt vaddr
      refine h.store hknown.1 hnot ?_
      unfold pteAt
      exact Set.Ico_subset_Ico (by omega) (by omega)
    · rcases palloc_cases .kernel s with ⟨he, -⟩ | ⟨i, hi, hfree, -, he⟩
      · -- `palloc` failed: the table is frame 0
        have h0 : Known s 0 := ⟨rfl, .inl (by decide)⟩
        exact h.makeTable hd rfl rfl hself (by omega) hp he h0 (fun hm => absurd (h.above 0 hm) (by decide)) (by decide) ha
      · have ht := h.stays (take_kept s .kernel i).stays fun d _ x _ => rfl
        have hal := (s.pool .kernel).frame_aligned i
        have hknown : Known (s.take .kernel i) ((s.pool .kernel).frame i) :=
          ⟨hal, .inr ⟨i, hi, rfl, used_mark.mpr (.inr rfl)⟩⟩
        exact ht.makeTable (s := s) hd rfl rfl hself (by omega) hp he hknown (fun hm => (h.known _ hm).ne_free h.pool hfree rfl)
          (or_attr_lt hal ((s.pool .kernel).frame_lt hi)) ha

/-- The page is marked and a frame looked for in `sp`; where there is one, `page_table_add` is called. -/
theorem getAPage_stays {pf : PoolFlags} {vaddr r : Nat} (hc : getAPage pf vaddr s = .ok (r, s')) :
    ∃ sp, Stays s sp ∧ sp.phys = s.phys ∧
      (s' = sp ∨ ∃ pa sadd l, Memory.pageTableAdd vaddr pa sp = .ok sadd ∧ s' = sadd.setLock pf l) := by
  obtain ⟨l, sm, f, sp, -, hm, hp, hend⟩ := getAPage_ok hc
  have hst : Stays s sp := ((setLock_stays s pf l).trans (markVaddr_kept hm).stays).trans (palloc_kept hp).stays
  have hphys : sp.phys = s.phys := by rw [palloc_phys hp, markVaddr_ok hm]; rfl
  refine ⟨sp, hst, hphys, ?_⟩
  rcases hend with ⟨-, rfl⟩ | ⟨-, sadd, hadd, hr⟩
  · exact .inl rfl
  · obtain ⟨l', -, hsr⟩ := lockRelease_ok hr
    exact .inr ⟨f, sadd, l', hadd, hsr⟩

theorem SpaceInv.getAPage {pf : PoolFlags} {vaddr r : Nat} (h : SpaceInv s dirs) (hd : s.cr3 ∈ dirs) (hv : vaddr < 0xffc00000)
    (hc : getAPage pf vaddr s = .ok (r, s')) : SpaceInv s' dirs := by
  obtain ⟨sp, hst, hphys, hend⟩ := getAPage_stays hc
  have hsp := h.stays hst fun d _ x _ => by rw [hphys]
  rcases hend with rfl | ⟨pa, sadd, l, hadd, rfl⟩
  · exact hsp
  · have hcr3 : sp.cr3 ∈ dirs := by rw [hst.cr3]; exact hd
    exact (hsp.pageTableAdd hcr3 hv hadd).stays (setLock_stays _ _ _) fun d _ x _ => rfl

/-! ## create_page_dir -/

/-- A new directory in a frame that was free. -/
theorem SpaceInv.newDir {va : Nat} {g : Nat → Nat} {m phys : Bytes} (h : SpaceInv s dirs) (hd : s.cr3 ∈ dirs)
    (hg : Granted kernelTable va 1 g m s s') (hn : NewDir s'.phys phys s.cr3 ((s.pool .kernel).frame (g 0))) :
    (s.pool .kernel).frame (g 0) ∉ dirs ∧
      SpaceInv { s' with phys := phys } ((s.pool .kernel).frame (g 0) :: dirs) := by
  have hfree := hg.free 0 (by omega)
  have hal := (s.pool .kernel).frame_aligned (g 0)
  have hne : ∀ d ∈ dirs, d ≠ (s.pool .kernel).frame (g 0) := fun d hdm => (h.known d hdm).ne_free h.pool hfree
  have h1 := h.stays hg.stays (h.granted hg)
  have hkeep : ∀ d ∈ dirs, Set.EqOn phys s'.phys (frame d) := fun d hdm x hx =>
    hn.outside x (frame_apart (h.known d hdm).1 hal (hne d hdm) hx)
  have h2 := h1.stays (kept_phys s' phys).stays hkeep
  have hlow : usedMem ≤ (s.pool .kernel).frame (g 0) := by
    rw [← h.pool]; exact Nat.le_add_right _ _
  have hknown : Known { s' with phys := phys } ((s.pool .kernel).frame (g 0)) := by
    refine ⟨hal, .inr ⟨g 0, ?_, (hg.stays.frame .kernel _).symm, (hg.taken _).mpr (.inr ⟨0, by omega, rfl⟩)⟩⟩
    show g 0 < s'.frames .kernel
    rw [hg.stays.frames]
    exact hg.fits 0 (by omega)
  refine ⟨fun hm => hne _ hm rfl, h2.pool, h2.heap, h2.heapHigh, ?_, ?_, ?_, ?_, ?_, ?_⟩
  · exact List.forall_mem_cons.mpr ⟨Nat.le_trans (by decide) hlow, h2.above⟩
  · exact List.forall_mem_cons.mpr ⟨hknown, h2.known⟩
  · refine List.forall_mem_cons.mpr ⟨fun j j1 j2 e => ?_, h2.apart⟩
    rw [← e] at hlow
    unfold kernelTable pageDirTablePos usedMem pgSize at hlow
    omega
  · exact List.forall_mem_cons.mpr ⟨fun j j1 j2 => (hn.kernel j j1 j2).trans (h1.kernel _ hd j j1 j2), h2.kernel⟩
  · exact List.forall_mem_cons.mpr ⟨hn.self, h2.own⟩
  · refine List.forall_mem_cons.mpr ⟨fun j hj hp => ?_, fun d hdm j hj hp => ?_⟩
    · have hz : phys.read32 ((s.pool .kernel).frame (g 0) + j * 4) = 0 := hn.user j hj
      have hp : Present (phys.read32 ((s.pool .kernel).frame (g 0) + j * 4)) := hp
      rw [hz] at hp
      exact absurd hp (by decide)
    · -- an old entry names a frame that was known before
      obtain ⟨hk, hnot⟩ := h2.user d hdm j hj hp
      have hold : phys.read32 (d + j * 4) = s.phys.read32 (d + j * 4) := Bytes.read32_congr fun x hx => by
        have hx := pde_word_subset (by omega) hx
        rw [hkeep d hdm hx, h.granted hg d hdm hx]
      refine ⟨hk, fun hm => (List.mem_cons.mp hm).elim ?_ hnot⟩
      have hp : Present (phys.read32 (d + j * 4)) := hp
      rw [hold] at hp
      show frameOf (phys.read32 (d + j * 4)) ≠ _
      rw [hold]
      exact (h.user d hdm j hj hp).1.ne_free h.pool hfree

/-- `create_page_dir` finds no page, or makes a directory of the frame of the page it finds. -/
theorem createPageDir_cases {tab : Nat → Nat} {v : Nat} (hs : KernelSpace tab s) (hc : createPageDir s = .ok (v, s')) :
    v = 0 ∧ getKernelPages 1 s = .ok (0, s') ∨
      v ≠ 0 ∧ ∃ s1 g m phys, Granted tab v 1 g m s s1 ∧ getKernelPages 1 s = .ok (v, s1) ∧
        NewDir s1.phys phys s.cr3 ((s.pool .kernel).frame (g 0)) ∧ s' = { s1 with phys := phys } ∧
        addrV2p v s' = .ok ((s.pool .kernel).frame (g 0)) := by
  obtain ⟨⟨v', s1⟩, hk, hc⟩ := bind_ok_iff.mp hc
  simp only at hc
  split at hc
  · next h0 =>
    cases hc
    rw [h0] at hk
    exact .inl ⟨rfl, hk⟩
  · next hv =>
    rcases getKernelPages_cases hs hk with ⟨-, hv0, -⟩ | ⟨b, m, k, g, -, -, hg, ⟨hv0, -⟩ | ⟨he, -, rfl, hz⟩⟩
    · exact absurd hv0 hv
    · exact absurd hv0 hv
    · rw [← he] at hg
      obtain ⟨phys, hr, hn, hat⟩ := finishDir_spec hs hg (hz 0 (by omega)) hc
      cases hr
      exact .inr ⟨hv, s1, g, m, phys, hg, hk, hn, rfl, hat⟩

theorem SpaceInv.createPageDir {v : Nat} (h : SpaceInv s dirs) (hd : s.cr3 ∈ dirs) (hc : createPageDir s = .ok (v, s')) :
    v = 0 ∧ SpaceInv s' dirs ∨
      v ≠ 0 ∧ ∃ F, addrV2p v s' = .ok F ∧ F ∉ dirs ∧ SpaceInv s' (F :: dirs) ∧
        ∀ va, va < 0xc0000000 → translate s'.phys F va = none := by
  rcases createPageDir_cases (h.space hd) hc with ⟨hv, hk⟩ | ⟨hv, s1, g, m, phys, hg, -, hn, rfl, hat⟩
  · exact .inl ⟨hv, h.getKernelPages hd hk⟩
  · obtain ⟨hnew, hinv⟩ := h.newDir hd hg hn
    exact .inr ⟨hv, _, hat, hnew, hinv, fun va => hn.empty⟩

/-- A page is all that `create_page_dir` needs. -/
theorem SpaceInv.createPageDir_returns {s1 : Mem} {v : Nat} (h : SpaceInv s dirs) (hd : s.cr3 ∈ dirs)
    (hk : Memory.getKernelPages 1 s = .ok (v, s1)) (hv : v ≠ 0) : ∃ s', Memory.createPageDir s = .ok (v, s') := by
  have hs := h.space hd
  rcases getKernelPages_cases hs hk with ⟨-, h0, -⟩ | ⟨b, m, k, f, -, -, hg, ⟨h0, -⟩ | ⟨he, -, rfl, hz⟩⟩
  · exact absurd h0 hv
  · exact absurd h0 hv
  · rw [← he] at hg
    obtain ⟨phys, hfin, -⟩ := finishDir_ok hs hg (hz 0 (by omega))
    refine ⟨{ s1 with phys := phys }, ?_⟩
    unfold Memory.createPageDir
    rw [hk, ok_bind]
    simp only
    rw [if_neg hv]
    exact hfin

/-- Where a frame is left, a directory in the next page of the heap. -/
theorem HeapInv.next_dir {u : Nat} (hi : HeapInv kernelTable u s) (h : SpaceInv s dirs) (hd : s.cr3 ∈ dirs)
    (hw : (s.pool .kernel).lock.waiters ≠ none) (hroom : u < s.frames .kernel) :
    ∃ s', createPageDir s = .ok (heapPage u, s') ∧ HeapInv kernelTable (u + 1) s' ∧ (s'.pool .kernel).lock.waiters ≠ none ∧
      Stays s s' := by
  obtain ⟨s1, hk, hi1, hw1, hst1⟩ := hi.next_page hw hroom
  have hne : heapPage u ≠ 0 := by unfold heapPage kHeapStart; omega
  obtain ⟨s', hc⟩ := h.createPageDir_returns hd hk hne
  have hs := h.space hd
  rcases createPageDir_cases hs hc with ⟨h0, -⟩ | ⟨-, s2, g, m, phys, hg, hk2, hn, rfl, -⟩
  · exact absurd h0 hne
  · rw [hk] at hk2
    cases hk2
    refine ⟨_, hc, hi1.store fun x hx => ?_, hw1, hst1.trans (kept_phys s1 phys).stays⟩
    rw [hg.stays.cr3] at hx
    exact hn.outside x (hs.not_frame (hs.out _ (hg.fits 0 (by omega)) (hg.free 0 (by omega))) hx)

/-! ## Runs -/

/-- The boot directory: entry 0 shares the first kernel table, and the rest below 768 is absent. -/
theorem SpaceInv.boot {allMem : Nat} {m : Bytes} (hp : s.phys = setupPage m) :
    SpaceInv (poolsInit allMem s) [pageDirTablePos] := by
  have hphys : (poolsInit allMem s).phys = setupPage m := (poolsInit_phys _ _).trans hp
  have hlen := kbmLength_lt allMem
  have hlow : ∀ f, f % 4096 = 0 → f + pgSize ≤ usedMem → Known (poolsInit allMem s) f := fun f h1 h2 => ⟨h1, .inl h2⟩
  refine ⟨rfl, rfl, ?_, ?_, ?_, ?_, ?_, ?_, ?_⟩
  · show kHeapStart + (8 * kbmLength allMem + 1) * pgSize ≤ 0xffc00000
    unfold kHeapStart pgSize
    omega
  · exact List.forall_mem_singleton.mpr (Nat.le_refl _)
  · exact List.forall_mem_singleton.mpr (hlow _ (by decide) (by decide))
  · refine List.forall_mem_singleton.mpr fun j h1 h2 e => ?_
    unfold kernelTable pageDirTablePos at e
    omega
  · refine List.forall_mem_singleton.mpr fun j h1 h2 => ?_
    rw [hphys]; exact setupPage_kernel h1 h2
  · refine List.forall_mem_singleton.mpr ?_
    rw [hphys]; exact setupPage_self
  · refine List.forall_mem_singleton.mpr fun j hj hp => ?_
    rw [hphys, setupPage_user hj] at hp ⊢
    split at hp
    · next e =>
      rw [if_pos e, frameOf_or_attr (kernelTable_aligned 768)]
      exact ⟨hlow _ (kernelTable_aligned 768) (by decide), by decide⟩
    · exact absurd hp (by decide)

theorem SpaceInv.first {S : Space} (h : SpaceStart S) : SpaceInv S.mem S.dirs := by
  obtain ⟨⟨allMem, s0, m, hp, hi⟩, hd⟩ := h
  rw [memPoolInit_eq] at hi
  rw [hd, ← Except.ok.inj hi]
  exact .boot hp

theorem SpaceInv.step {S S' : Space} {op : SpaceOp} (h : SpaceInv S.mem S.dirs) (hl : SpaceLegal S op)
    (hs : spaceStep S op = .ok S') : SpaceInv S'.mem S'.dirs := by
  cases op with
  | createPageDir dir cur =>
    obtain ⟨⟨v, s⟩, hc, hs⟩ := bind_ok_iff.mp hs
    simp only at hs
    rcases (h.activate dir cur).createPageDir hl hc with ⟨hv, hinv⟩ | ⟨hv, F, hF, -, hinv, -⟩
    · rw [if_pos hv] at hs
      cases hs
      exact hinv
    · rw [if_neg hv, hF] at hs
      cases hs
      exact hinv
  | getKernelPages dir cur pgCnt =>
    obtain ⟨⟨v, s⟩, hc, hs⟩ := bind_ok_iff.mp hs
    cases hs
    exact (h.activate dir cur).getKernelPages hl hc
  | getAPage dir cur pf vaddr =>
    obtain ⟨⟨v, s⟩, hc, hs⟩ := bind_ok_iff.mp hs
    cases hs
    exact (h.activate dir cur).getAPage hl.1 hl.2.2 hc

theorem SpaceRuns.inv {S : Space} (h : SpaceRuns S) : SpaceInv S.mem S.dirs :=
  h.invariant (fun _ => SpaceInv.first) fun _ _ _ => SpaceInv.step

/-- The translation of a kernel address is the one its table gives. -/
theorem SpaceInv.translate_kernel (h : SpaceInv s dirs) (hd : d ∈ dirs) {va : Nat} (hk : KernelAddr va) :
    translate s.phys d va =
      if Present (s.phys.read32 (entry kernelTable va)) then
        some (frameOf (s.phys.read32 (entry kernelTable va)) + va % 2 ^ 12)
      else none := by
  obtain ⟨h1, h2⟩ := hk.pdeIdx
  have hal := kernelTable_aligned (pdeIdx va)
  unfold translate entry
  simp only [h.kernel d hd _ h1 h2, if_pos (present_or_attr hal), frameOf_or_attr hal]

theorem one_kernel_space {S : Space} (hr : SpaceRuns S) : OneKernelSpace S where
  same d₁ h₁ d₂ h₂ va hlo hhi := by
    have hi := hr.inv
    have hk : KernelAddr va := ⟨hlo, hhi⟩
    refine ⟨(hi.translate_kernel h₁ hk).trans (hi.translate_kernel h₂ hk).symm, ?_⟩
    rw [KernelDir.addrV2p (s := { S.mem with cr3 := d₁ }) (hi.dir h₁) hk,
      KernelDir.addrV2p (s := { S.mem with cr3 := d₂ }) (hi.dir h₂) hk]
  own := hr.inv.own
  fresh dir hd cur v s hc hv := by
    rcases (hr.inv.activate dir cur).createPageDir hd hc with ⟨hv0, -⟩ | ⟨-, F, hF, hnot, -, hempty⟩
    · exact absurd hv0 hv
    · exact ⟨F, hF, hnot, hempty⟩

/-- After `setup_page` and mem_pool_init, with 32 MB. -/
def bootSpace : Space := ⟨poolsInit 0x2000000 bootMem, [pageDirTablePos]⟩

theorem bootSpace_runs : SpaceRuns bootSpace :=
  .first ⟨⟨0x2000000, bootMem, fun _ => 0, by simp only [bootMem], memPoolInit_eq _ _⟩, rfl⟩

/-- The boot leaves a heap without pages. -/
theorem bootSpace_heap (cur : Caller) : HeapInv kernelTable 0 (bootSpace.mem.activate pageDirTablePos cur) := by
  have hcr3 : bootHeap.mem.cr3 = pageDirTablePos := (poolsInit_cr3 _ _).trans (by simp only [bootMem])
  have hact : bootSpace.mem.activate pageDirTablePos cur = { bootHeap.mem with cur := cur } := by
    rw [← hcr3]
    rfl
  rw [hact]
  exact bootHeap_start.inv.caller cur

theorem Stays.activated {cur : Caller} (h : Stays (s.activate d cur) s') : s'.activate d cur = s' := by
  have hd : s'.cr3 = d := h.cr3
  have hcur : s'.cur = cur := h.cur
  rw [← hd, ← hcur]
  rfl

/-- A directory is made, and then a page of the kernel, which shows in it. -/
theorem twoSpaces_one : ∃ S F pa, SpaceRuns S ∧ S.dirs = [F, pageDirTablePos] ∧ F ≠ pageDirTablePos ∧
    translate S.mem.phys F (heapPage 1) = some pa ∧ OneKernelSpace S := by
  have hd : pageDirTablePos ∈ bootSpace.dirs := List.mem_singleton_self _
  have hinv := bootSpace_runs.inv.activate pageDirTablePos kernelThread
  obtain ⟨s1, hc, hi1, hw1, hst1⟩ := (bootSpace_heap kernelThread).next_dir hinv hd (by decide +kernel) (by decide +kernel)
  have hne : heapPage 0 ≠ 0 := by decide
  rcases hinv.createPageDir hd hc with ⟨h0, -⟩ | ⟨-, F, hF, hnew, -⟩
  · exact absurd h0 hne
  have hr1 : SpaceRuns ⟨s1, [F, pageDirTablePos]⟩ := by
    refine Reach.step (.createPageDir pageDirTablePos kernelThread) bootSpace_runs hd ?_
    simp only [spaceStep, hc, ok_bind, if_neg hne, hF]
    rfl
  have hd1 : pageDirTablePos ∈ [F, pageDirTablePos] := List.mem_cons_of_mem _ hd
  obtain ⟨s2, hk, hi2, -, hst2⟩ := hi1.next_page hw1 (by rw [hst1.frames]; decide +kernel)
  have hr2 : SpaceRuns ⟨s2, [F, pageDirTablePos]⟩ := by
    refine Reach.step (.getKernelPages pageDirTablePos kernelThread 1) hr1 hd1 ?_
    simp only [spaceStep, hst1.activated, hk, ok_bind]
  have hone := one_kernel_space hr2
  have hwalk := hi2.walk (i := 1) (o := 0) (by omega) (by omega)
  rw [Nat.add_zero, hst2.cr3, hst1.cr3] at hwalk
  have hne' : F ≠ pageDirTablePos := fun e => hnew (e ▸ hd)
  have hsame := (hone.same F List.mem_cons_self pageDirTablePos hd1 (heapPage 1) (by decide) (by decide)).1
  exact ⟨_, F, _, hr2, rfl, hne', hsame.trans hwalk, hone⟩

end TinyOs.Memory
