/-
  TinyOs.Memory.CreatePageDir — `create_page_dir` (userprog/process.c).

  A page of the kernel heap, cleared, becomes a directory: entries 768 to 1023 are
  copied out of the active directory as it is seen at 0xfffff000, and entry 1023 is
  then overwritten with the frame that `addr_v2p` finds for the page. `NewDir` is the
  frame after that; no other byte is written.
-/

import TinyOs.Memory.KernelPages

namespace TinyOs.Memory

open TinyOs.Kernel TinyOs.Lib TinyOs.Logic

/-- The directory in frame `f`, made in memory `m` under the directory at `cr3`. -/
structure NewDir (m m' : Bytes) (cr3 f : Nat) : Prop where
  user : ∀ j, j < 768 → m'.read32 (f + j * 4) = 0
  kernel : ∀ j, 768 ≤ j → j < 1023 → m'.read32 (f + j * 4) = m.read32 (cr3 + j * 4)
  self : m'.read32 (f + 1023 * 4) = f ||| pgAttr
  outside : ∀ x, x ∉ frame f → m' x = m x

variable {tab : Nat → Nat} {s s' : Mem} {m : Bytes} {va n k cr3 F : Nat} {f : Nat → Nat}

/-- Nothing maps the addresses below 0xc0000000. -/
theorem NewDir.empty {m' : Bytes} (h : NewDir m m' cr3 F) {vaddr : Nat} (hv : vaddr < 0xc0000000) :
    translate m' F vaddr = none := by
  have h0 := h.user (pdeIdx vaddr) (by unfold pdeIdx; omega)
  unfold translate
  simp only [h0]
  exact if_neg (by decide)

/-- Where the pages that `get_kernel_pages` gave lie. -/
theorem Granted.window (h : Granted tab va k f m s s') (hs : KernelSpace tab s) :
    Window s'.phys s'.cr3 (walked s'.cr3) va (k * pgSize) fun o => (s.pool .kernel).frame (f (o / 4096)) + o % 4096 :=
  (h.space hs).dir.window h.aligned h.above h.below (fun i => (s.pool .kernel).frame_aligned (f i)) h.entries

/-- One page: byte `o` of it is byte `o` of its frame. -/
theorem Granted.page (h : Granted tab va 1 f m s s') (hs : KernelSpace tab s) :
    Window s'.phys s'.cr3 (walked s'.cr3) va 4096 fun o => (s.pool .kernel).frame (f 0) + o := by
  have hw := h.window hs
  refine ⟨fun o ho => ?_, fun o ho => hw.reads o (by unfold pgSize; omega)⟩
  rw [hw.maps o (by unfold pgSize; omega), Nat.div_eq_of_lt ho, Nat.mod_eq_of_lt ho]

/-- The copy of entries 768 to 1023 into the page at `va`, which lies in frame `F`. -/
theorem copyKernel_spec {phys : Bytes} (hw : Window phys cr3 (walked cr3) va 4096 fun o => F + o) (hself : SelfMap phys cr3)
    (hF : ∀ x, x ∈ walked cr3 → x ∉ frame F) (hlt : va + 4096 ≤ 2 ^ 32) :
    ∃ phys', memcpy phys cr3 (va + 0x300 * 4) (0xfffff000 + 0x300 * 4) 1024 = .ok phys' ∧
      (∀ i, i < 1024 → phys' (F + (0x300 * 4 + i)) = phys (cr3 + (0x300 * 4 + i))) ∧
      ∀ x, (∀ i, i < 1024 → x ≠ F + (0x300 * 4 + i)) → phys' x = phys x := by
  have hdst := hw.sub (o := 0x300 * 4) (n := 1024) (by omega)
  have hsrc := (hself.dir.mono (Set.subset_union_left (t := Set.Iio usedMem))).sub (o := 0x300 * 4) (n := 1024) (by omega)
  exact memcpy_spec hdst hsrc (fun i hi hx => hF _ hx (Set.mem_Ico.mpr ⟨by omega, by omega⟩))
    (fun i hi => .inl (Set.mem_Ico.mpr ⟨by omega, by omega⟩)) (fun i j _ _ e => by omega) (by omega) (by omega)
    (by omega) (by omega)

theorem KernelDir.addrV2p (h : KernelDir s.phys s.cr3 tab) (hk : KernelAddr va) :
    addrV2p va s = .ok (frameOf (s.phys.read32 (entry tab va)) + va % 2 ^ 12) := by
  obtain ⟨h1, h2⟩ := hk.pdeIdx
  have hlt : va < 2 ^ 32 := by have := hk.2; omega
  unfold Memory.addrV2p
  rw [h.self.load32_ptePtr hlt (h.present _ h1 h2), ok_bind, h.pteAt hk]

/-- Of a page mapped on frame `F`. -/
theorem KernelDir.addrV2p_page (h : KernelDir s.phys s.cr3 tab) (hk : KernelAddr va) (hal : va % 4096 = 0) (hF : F % 4096 = 0)
    (he : s.phys.read32 (entry tab va) = F ||| pgAttr) : Memory.addrV2p va s = .ok F := by
  rw [h.addrV2p hk, he, frameOf_or_attr hF]
  exact congrArg Except.ok (by omega)

/-- The frame once its last word is stored: `phys` is the memory after the copy. -/
theorem newDir_store {phys phys' : Bytes} (hF : F % 4096 = 0) (hlt : F + 4096 ≤ 2 ^ 32) (hz : ∀ x ∈ frame F, phys x = 0)
    (hin : ∀ i, i < 1024 → phys' (F + (0x300 * 4 + i)) = phys (cr3 + (0x300 * 4 + i)))
    (hout : ∀ x, (∀ i, i < 1024 → x ≠ F + (0x300 * 4 + i)) → phys' x = phys x) :
    NewDir phys (phys'.write32 (F + 1023 * 4) (F ||| pgAttr)) cr3 F where
  user j hj := by
    rw [Bytes.read32_write32_of_disjoint (by omega)]
    refine Bytes.read32_of_zero fun x hx => ?_
    have := Set.mem_Ico.mp hx
    rw [hout x fun i _ => by omega]
    exact hz x (Set.mem_Ico.mpr ⟨by omega, by omega⟩)
  kernel j h1 h2 := by
    rw [Bytes.read32_write32_of_disjoint (by omega)]
    refine Bytes.read32_eq fun i hi => ?_
    have := hin (j * 4 - 0x300 * 4 + i) (by omega)
    rwa [show F + (0x300 * 4 + (j * 4 - 0x300 * 4 + i)) = F + j * 4 + i by omega,
      show cr3 + (0x300 * 4 + (j * 4 - 0x300 * 4 + i)) = cr3 + j * 4 + i by omega] at this
  self := Bytes.read32_write32 _ _ (or_attr_lt hF hlt)
  outside x hx := by
    rw [Bytes.write32_of_notMem fun hx' => hx (Set.Ico_subset_Ico (by omega) (by omega) hx')]
    exact hout x fun i hi e => hx (Set.mem_Ico.mpr ⟨by omega, by omega⟩)

/-- What `create_page_dir` does with the page `va` it was given. -/
theorem finishDir_ok (hs : KernelSpace tab s) (hg : Granted tab va 1 f m s s')
    (hz : ∀ x ∈ frame ((s.pool .kernel).frame (f 0)), s'.phys x = 0) : ∃ phys, (do
      let phys ← memcpy s'.phys s'.cr3 (va + 0x300 * 4) (0xfffff000 + 0x300 * 4) 1024
      let s' := { s' with phys := phys }
      let newPageDirPhyAddr ← addrV2p va s'
      let phys ← store32 s'.phys s'.cr3 (va + 1023 * 4) (newPageDirPhyAddr ||| pgAttr)
      Except.ok (va, { s' with phys := phys })) = .ok (va, { s' with phys := phys }) ∧
      NewDir s'.phys phys s.cr3 ((s.pool .kernel).frame (f 0)) ∧
      addrV2p va { s' with phys := phys } = .ok ((s.pool .kernel).frame (f 0)) := by
  have hfits := hg.fits 0 (by omega)
  have hne := hs.out (f 0) hfits (hg.free 0 (by omega))
  have hal := (s.pool .kernel).frame_aligned (f 0)
  have hlt := (s.pool .kernel).frame_lt hfits
  obtain ⟨hk, he⟩ := hg.first (by omega)
  have hs' := hg.space hs
  have hcr3 : s'.cr3 = s.cr3 := hg.stays.cr3
  have hbelow := hg.below
  have hwalk : ∀ x, x ∈ walked s'.cr3 → x ∉ frame ((s.pool .kernel).frame (f 0)) := fun x hx =>
    hs.not_frame hne (by rwa [← hcr3])
  -- the walks read none of the bytes that are written
  have hkeep : ∀ {phys : Bytes}, (∀ x, x ∉ frame ((s.pool .kernel).frame (f 0)) → phys x = s'.phys x) →
      KernelDir phys s'.cr3 tab ∧ phys.read32 (entry tab va) = (s.pool .kernel).frame (f 0) ||| pgAttr := fun hp => by
    refine ⟨hs'.dir.congr fun x hx => hp x (hwalk x (.inl hx)), ?_⟩
    rw [← he]
    refine Bytes.read32_congr fun x hx => hp x (hwalk x (.inr ?_))
    have := Set.mem_Ico.mp hx
    have := hs.dir.entry_low hk
    exact Set.mem_Iio.mpr (by omega)
  obtain ⟨phys, hcopy, hin, hout⟩ := copyKernel_spec (hg.page hs) hs'.dir.self hwalk (by unfold pgSize at hbelow; omega)
  have hphys : ∀ x, x ∉ frame ((s.pool .kernel).frame (f 0)) → phys x = s'.phys x := fun x hx =>
    hout x fun i hi e => hx (Set.mem_Ico.mpr ⟨by omega, by omega⟩)
  have hnew : NewDir s'.phys _ s'.cr3 _ := newDir_store hal hlt hz hin hout
  obtain ⟨hd2, he2⟩ := hkeep hphys
  obtain ⟨hd3, he3⟩ := hkeep hnew.outside
  have hlast : mmu phys s'.cr3 (va + 1023 * 4) = .ok ((s.pool .kernel).frame (f 0) + 1023 * 4) :=
    mmu_of_translate (((hg.page hs).congr fun x hx => hphys x (hwalk x hx)).maps (1023 * 4) (by omega))
  have hv2p : addrV2p va { s' with phys := phys } = .ok ((s.pool .kernel).frame (f 0)) :=
    KernelDir.addrV2p_page (s := { s' with phys := phys }) hd2 hk hg.aligned hal he2
  refine ⟨phys.write32 _ _, ?_, ?_, KernelDir.addrV2p_page hd3 hk hg.aligned hal he3⟩
  · unfold store32
    rw [hcopy]
    simp only [ok_bind, hv2p, hlast]
  · rw [← hcr3]
    exact hnew

theorem finishDir_spec {r : Nat × Mem} (hs : KernelSpace tab s) (hg : Granted tab va 1 f m s s')
    (hz : ∀ x ∈ frame ((s.pool .kernel).frame (f 0)), s'.phys x = 0) (hr : (do
      let phys ← memcpy s'.phys s'.cr3 (va + 0x300 * 4) (0xfffff000 + 0x300 * 4) 1024
      let s' := { s' with phys := phys }
      let newPageDirPhyAddr ← addrV2p va s'
      let phys ← store32 s'.phys s'.cr3 (va + 1023 * 4) (newPageDirPhyAddr ||| pgAttr)
      .ok (va, { s' with phys := phys })) = .ok r) :
    ∃ phys, r = (va, { s' with phys := phys }) ∧ NewDir s'.phys phys s.cr3 ((s.pool .kernel).frame (f 0)) ∧
      addrV2p va { s' with phys := phys } = .ok ((s.pool .kernel).frame (f 0)) := by
  obtain ⟨phys, he, hn, hat⟩ := finishDir_ok hs hg hz
  rw [he] at hr
  cases hr
  exact ⟨phys, rfl, hn, hat⟩

end TinyOs.Memory
