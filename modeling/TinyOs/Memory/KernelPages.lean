/-
  TinyOs.Memory.KernelPages — mapping and clearing kernel pages.

  `KernelDir m cr3 tab` is a directory as the kernel has it: entry 1023 the self map,
  entries 768 to 1022 present, each with a table of its own below the pools. For a
  kernel address `page_table_add` is then one store into the entry `entry tab vaddr`,
  and no store into a pool's frame changes what a kernel walk reads.

  `Mapped` is what `malloc_page` has done to the pages it mapped: each has a frame that
  was free, and nothing else in physical memory changed.
-/

import TinyOs.Memory.Failures

namespace TinyOs.Memory

open TinyOs.Kernel TinyOs.Lib TinyOs.Logic

/-- The addresses the kernel's own tables map. -/
def KernelAddr (vaddr : Nat) : Prop := 0xc0000000 ≤ vaddr ∧ vaddr < 0xffc00000

structure KernelTables (m : Bytes) (cr3 : Nat) (tab : Nat → Nat) : Prop where
  self : SelfMap m cr3
  present : ∀ j, 768 ≤ j → j < 1023 → Present (m.read32 (cr3 + j * 4))
  table : ∀ j, 768 ≤ j → j < 1023 → frameOf (m.read32 (cr3 + j * 4)) = tab j
  low : ∀ j, 768 ≤ j → j < 1023 → tab j + 4096 ≤ usedMem
  inj : ∀ i j, 768 ≤ i → i < 1023 → 768 ≤ j → j < 1023 → tab i = tab j → i = j

structure KernelDir (m : Bytes) (cr3 : Nat) (tab : Nat → Nat) : Prop extends KernelTables m cr3 tab where
  apart : ∀ j, 768 ≤ j → j < 1023 → tab j ≠ cr3

/-- Where the entry of a kernel address lies. -/
def entry (tab : Nat → Nat) (vaddr : Nat) : Nat := tab (pdeIdx vaddr) + pteIdx vaddr * 4

variable {m m' : Bytes} {cr3 : Nat} {tab : Nat → Nat} {va vb : Nat}

/-! ## Where things lie -/

theorem frame_apart {f g x : Nat} (hf : f % 4096 = 0) (hg : g % 4096 = 0) (hne : f ≠ g) (hx : x ∈ frame f) : x ∉ frame g := by
  intro hx'
  have := Set.mem_Ico.mp hx
  have := Set.mem_Ico.mp hx'
  omega

theorem KernelAddr.pdeIdx (h : KernelAddr va) : 768 ≤ pdeIdx va ∧ pdeIdx va < 1023 := by
  obtain ⟨h1, h2⟩ := h
  unfold Memory.pdeIdx
  omega

theorem KernelDir.tab_aligned (h : KernelDir m cr3 tab) {j : Nat} (h1 : 768 ≤ j) (h2 : j < 1023) : tab j % 4096 = 0 := by
  rw [← h.table j h1 h2]; exact frameOf_mod _

theorem entry_word (tab : Nat → Nat) (va : Nat) : Bytes.word (entry tab va) ⊆ frame (tab (pdeIdx va)) := by
  have := pteIdx_lt va
  unfold entry
  exact Set.Ico_subset_Ico (by omega) (by omega)

theorem KernelDir.entry_low (h : KernelDir m cr3 tab) (hk : KernelAddr va) : entry tab va + 4 ≤ usedMem := by
  obtain ⟨h1, h2⟩ := hk.pdeIdx
  have := h.low _ h1 h2
  have := pteIdx_lt va
  unfold entry
  omega

/-- The tables are apart from the directory. -/
theorem KernelDir.entry_not_dir (h : KernelDir m cr3 tab) (hk : KernelAddr va) {x : Nat} (hx : x ∈ Bytes.word (entry tab va)) :
    x ∉ frame cr3 := by
  obtain ⟨h1, h2⟩ := hk.pdeIdx
  exact frame_apart (h.tab_aligned h1 h2) h.self.aligned (h.apart _ h1 h2) (entry_word tab va hx)

/-- Two pages have two entries. -/
theorem KernelDir.entry_apart (h : KernelDir m cr3 tab) (ha : KernelAddr va) (hb : KernelAddr vb)
    (hne : va / 4096 ≠ vb / 4096) {x : Nat} (hx : x ∈ Bytes.word (entry tab va)) : x ∉ Bytes.word (entry tab vb) := by
  obtain ⟨ha1, ha2⟩ := ha.pdeIdx
  obtain ⟨hb1, hb2⟩ := hb.pdeIdx
  by_cases e : pdeIdx va = pdeIdx vb
  · intro hx'
    have hxa := Set.mem_Ico.mp hx
    have hxb := Set.mem_Ico.mp hx'
    unfold entry at hxa hxb
    rw [e] at hxa
    unfold pteIdx pdeIdx at *
    omega
  · intro hx'
    exact frame_apart (h.tab_aligned ha1 ha2) (h.tab_aligned hb1 hb2) (fun e' => e (h.inj _ _ ha1 ha2 hb1 hb2 e'))
      (entry_word tab va hx) (entry_word tab vb hx')

theorem KernelDir.congr (h : KernelDir m cr3 tab) (he : Set.EqOn m' m (frame cr3)) : KernelDir m' cr3 tab := by
  have hw : ∀ j, j < 1023 → m'.read32 (cr3 + j * 4) = m.read32 (cr3 + j * 4) := fun j hj =>
    Bytes.read32_congr (he.mono (pde_word_subset (by omega)))
  exact ⟨⟨h.self.congr he, fun j h1 h2 => by rw [hw j h2]; exact h.present j h1 h2,
    fun j h1 h2 => by rw [hw j h2]; exact h.table j h1 h2, h.low, h.inj⟩, h.apart⟩

/-! ## Walks of kernel addresses -/

theorem KernelDir.pteAt (h : KernelDir m cr3 tab) (hk : KernelAddr va) : pteAt m cr3 va = entry tab va := by
  obtain ⟨h1, h2⟩ := hk.pdeIdx
  unfold Memory.pteAt entry
  rw [h.table _ h1 h2]

theorem KernelDir.translate (h : KernelDir m cr3 tab) (hk : KernelAddr va) (hp : Present (m.read32 (entry tab va))) :
    translate m cr3 va = some (frameOf (m.read32 (entry tab va)) + va % 4096) := by
  obtain ⟨h1, h2⟩ := hk.pdeIdx
  have ht := translate_of_present m cr3 va (h.present _ h1 h2)
  rw [h.table _ h1 h2] at ht
  exact ht hp

/-- What kernel walks read: the directory, and tables below the pools. -/
def walked (cr3 : Nat) : Set Nat := frame cr3 ∪ Set.Iio usedMem

theorem KernelDir.footprint (h : KernelDir m cr3 tab) (hk : KernelAddr va) : footprint m cr3 va ⊆ walked cr3 := by
  obtain ⟨h1, h2⟩ := hk.pdeIdx
  have hlow := h.entry_low hk
  unfold Memory.footprint
  rw [h.table _ h1 h2]
  refine Set.union_subset_union (pde_word_subset (by omega)) fun x hx => ?_
  have := Set.mem_Ico.mp hx
  unfold entry at hlow
  exact Set.mem_Iio.mpr (by omega)

/-! ## page_table_add -/

variable {s s' : Mem} {pa : Nat}

/-- Where the directory entry exists, `page_table_add` tests and writes one entry of the table. -/
theorem pageTableAdd_present (pa : Nat) (h : SelfMap s.phys s.cr3) (hlt : va < 2 ^ 32)
    (hp : Present (s.phys.read32 (s.cr3 + pdeIdx va * 4))) : pageTableAdd va pa s = (do
      assert (¬ Present (s.phys.read32 (Memory.pteAt s.phys s.cr3 va))) .tableAddPte
      .ok { s with phys := s.phys.write32 (Memory.pteAt s.phys s.cr3 va) (pa ||| pgAttr) }) := by
  unfold pageTableAdd
  rw [h.load32_pdePtr hlt, h.load32_ptePtr hlt hp, h.store32_ptePtr hlt hp]
  simp only [ok_bind, if_pos hp]

theorem pageTableAdd_kernel (h : KernelDir s.phys s.cr3 tab) (hk : KernelAddr va) :
    pageTableAdd va pa s = (do
      assert (¬ Present (s.phys.read32 (entry tab va))) .tableAddPte
      .ok { s with phys := s.phys.write32 (entry tab va) (pa ||| pgAttr) }) := by
  have hlt : va < 2 ^ 32 := by have := hk.2; omega
  obtain ⟨h1, h2⟩ := hk.pdeIdx
  rw [pageTableAdd_present pa h.self hlt (h.present _ h1 h2), h.pteAt hk]

theorem pageTableAdd_kernel_ok (h : KernelDir s.phys s.cr3 tab) (hk : KernelAddr va)
    (ha : pageTableAdd va pa s = .ok s') :
    ¬ Present (s.phys.read32 (entry tab va)) ∧ s' = { s with phys := s.phys.write32 (entry tab va) (pa ||| pgAttr) } := by
  rw [pageTableAdd_kernel h hk] at ha
  obtain ⟨u, hp, ha⟩ := bind_ok_iff.mp ha
  cases ha
  exact ⟨of_decide_eq_true (assert_ok.mp hp), rfl⟩

/-- Where it does not, the frame `f` that `palloc` answers becomes the table: it is cleared
through the self map, and one entry is written. -/
theorem pageTableAdd_absent {f : Nat} (pa : Nat) (h : SelfMap s.phys s.cr3) (hv : va < 0xffc00000)
    (hp : ¬ Present (s.phys.read32 (s.cr3 + pdeIdx va * 4))) (hf : palloc .kernel s = .ok (f, s')) (hal : f % 4096 = 0)
    (hne : f ≠ s.cr3) (hflt : f ||| pgAttr < 2 ^ 32) :
    ∃ m : Bytes, pageTableAdd va pa s = .ok { s' with phys := m.write32 (f + pteIdx va * 4) (pa ||| pgAttr) } ∧
      (∀ x ∈ frame f, m x = 0) ∧
      ∀ x, x ∉ frame f → m x = s.phys.write32 (s.cr3 + pdeIdx va * 4) (f ||| pgAttr) x := by
  have hlt : va < 2 ^ 32 := by omega
  have hj : pdeIdx va < 1023 := by unfold pdeIdx; omega
  have hi := pteIdx_lt va
  have hself1 : SelfMap (s.phys.write32 (s.cr3 + pdeIdx va * 4) (f ||| pgAttr)) s.cr3 := by
    have he := Bytes.read32_write32_of_disjoint (m := s.phys) (a := s.cr3 + pdeIdx va * 4) (b := s.cr3 + 1023 * 4)
      (v := f ||| pgAttr) (by omega)
    exact ⟨by rw [he]; exact h.present, by rw [he]; exact h.own⟩
  have hpde := Bytes.read32_write32 s.phys (s.cr3 + pdeIdx va * 4) hflt
  have hwin := hself1.table (j := pdeIdx va) (by omega) (by rw [hpde]; exact present_or_attr hal)
  rw [hpde, frameOf_or_attr hal] at hwin
  obtain ⟨m, hset, hin, hext⟩ := memset_spec 0 hwin
    (fun o ho hx => frame_apart hal h.aligned hne (Set.mem_Ico.mpr ⟨by omega, by omega⟩) hx) (by omega) (by omega)
  have hset : memset (s.phys.write32 (s.cr3 + pdeIdx va * 4) (f ||| pgAttr)) s.cr3 (frameOf (ptePtr va)) 0 pgSize = .ok m := by
    rw [frameOf_ptePtr]
    exact hset
  have hzero : ∀ x ∈ frame f, m x = 0 := by
    intro x hx
    obtain ⟨h1, h2⟩ := Set.mem_Ico.mp hx
    have := hin (x - f) (by omega)
    rwa [Nat.add_sub_cancel' h1] at this
  have hout : ∀ x, x ∉ frame f → m x = s.phys.write32 (s.cr3 + pdeIdx va * 4) (f ||| pgAttr) x := by
    intro x hx
    exact hext x fun o ho e => hx (Set.mem_Ico.mpr ⟨by omega, by omega⟩)
  -- the directory is seen as before, with the new entry
  have hself2 : SelfMap m s.cr3 := hself1.congr fun x hx => hout x (frame_apart h.aligned hal hne.symm hx)
  have hpde2 : m.read32 (s.cr3 + pdeIdx va * 4) = f ||| pgAttr := by
    rw [Bytes.read32_congr fun x hx => hout x (frame_apart h.aligned hal hne.symm (pde_word_subset (by omega) hx)), hpde]
  have hp2 : Present (m.read32 (s.cr3 + pdeIdx va * 4)) := by rw [hpde2]; exact present_or_attr hal
  have hat : Memory.pteAt m s.cr3 va = f + pteIdx va * 4 := by
    unfold Memory.pteAt
    rw [hpde2, frameOf_or_attr hal]
  have h0 : m.read32 (f + pteIdx va * 4) = 0 := Bytes.read32_of_zero fun x hx =>
    hzero x (Set.Ico_subset_Ico (by omega) (by omega) hx)
  have hphys : s'.phys = s.phys := palloc_phys hf
  have hcr3 : s'.cr3 = s.cr3 := (palloc_kept hf).cr3
  refine ⟨m, ?_, hzero, hout⟩
  unfold pageTableAdd
  rw [h.load32_pdePtr hlt, ok_bind, if_neg hp, hf, ok_bind]
  simp only [hphys, hcr3]
  rw [h.store32_pdePtr hlt, ok_bind, hset, ok_bind, hself2.load32_ptePtr hlt hp2, ok_bind, hself2.store32_ptePtr hlt hp2, hat, h0]
  rfl

/-- Writing a kernel entry leaves the directory as it is. -/
theorem KernelDir.write_entry (h : KernelDir m cr3 tab) (hk : KernelAddr va) (v : Nat) :
    KernelDir (m.write32 (entry tab va) v) cr3 tab :=
  h.congr fun _ hx => Bytes.write32_of_notMem fun hx' => h.entry_not_dir hk hx' hx

/-! ## The loop of malloc_page -/

/-- `n` pages from `va` on kernel pool frames `f 0`, `f 1`, …: from `s` to `s'`. -/
structure Mapped (tab : Nat → Nat) (n va : Nat) (f : Nat → Nat) (s s' : Mem) : Prop where
  kept : Kept s s'
  fits : ∀ i, i < n → f i < s.frames .kernel
  free : ∀ i, i < n → ¬ s.Taken .kernel (f i)
  least : ∀ i, i < n → ∀ b, b < f i → s.Taken .kernel b ∨ ∃ j, j < i ∧ b = f j
  taken : ∀ b, s'.Taken .kernel b ↔ s.Taken .kernel b ∨ ∃ i, i < n ∧ b = f i
  inj : ∀ i j, i < n → j < n → f i = f j → i = j
  entries : ∀ i, i < n → s'.phys.read32 (entry tab (va + i * pgSize)) = (s.pool .kernel).frame (f i) ||| pgAttr
  phys : ∀ x, (∀ i, i < n → x ∉ Bytes.word (entry tab (va + i * pgSize))) → s'.phys x = s.phys x
  data : ∀ x, x ∉ (s.pool .kernel).poolBitmap.area → s'.data x = s.data x

theorem Mapped.nil (tab : Nat → Nat) (va : Nat) (f : Nat → Nat) (s : Mem) : Mapped tab 0 va f s s where
  kept := Kept.refl s
  fits i hi := by omega
  free i hi := by omega
  least i hi := by omega
  taken b := by simp
  inj i j hi := by omega
  entries i hi := by omega
  phys _ _ := rfl
  data _ _ := rfl

theorem or_attr_lt {f : Nat} (hf : f % 4096 = 0) (h : f + 4096 ≤ 2 ^ 32) : f ||| pgAttr < 2 ^ 32 := by
  rw [or_attr hf]; omega

theorem kernelAddr_page {n i : Nat} (h1 : 0xc0000000 ≤ va) (h2 : va + n * pgSize ≤ 0xffc00000) (hi : i < n) :
    KernelAddr (va + i * pgSize) := by
  unfold KernelAddr pgSize at *
  omega

/-- Of `i`, and then of `g 0`, `g 1`, … -/
theorem forall_front (P : Nat → Prop) {g : Nat → Nat} {i n : Nat} (h0 : P i) (h : ∀ k, k < n → P (g k)) :
    ∀ k, k < n + 1 → P (k.casesOn i g) := by
  intro k hk
  cases k with
  | zero => exact h0
  | succ k => exact h k (by omega)

theorem inj_front {g : Nat → Nat} {i n : Nat} (hne : ∀ k, k < n → g k ≠ i)
    (h : ∀ j k, j < n → k < n → g j = g k → j = k) :
    ∀ j k : Nat, j < n + 1 → k < n + 1 → (j.casesOn i g : Nat) = k.casesOn i g → j = k := by
  intro j k hj hk e
  cases j with
  | zero =>
    cases k with
    | zero => rfl
    | succ k => exact absurd e.symm (hne k (by omega))
  | succ j =>
    cases k with
    | zero => exact absurd e (hne j (by omega))
    | succ k => rw [h j k (by omega) (by omega) e]

/-- One round: the page after `va` is mapped on frame `b`, then the rest. -/
theorem Mapped.cons {n b : Nat} {f : Nat → Nat} (hd : KernelDir s.phys s.cr3 tab) (h1 : 0xc0000000 ≤ va)
    (h2 : va + (n + 1) * pgSize ≤ 0xffc00000) (hb : b < s.frames .kernel) (hfree : ¬ s.Taken .kernel b)
    (hlow : ∀ j, j < b → s.Taken .kernel j)
    (h : Mapped tab n (va + pgSize) f
      { s.take .kernel b with phys := s.phys.write32 (entry tab va) ((s.pool .kernel).frame b ||| pgAttr) } s') :
    Mapped tab (n + 1) va (fun i => i.casesOn b f) s s' := by
  have htake : ∀ j, (s.take .kernel b).Taken .kernel j ↔ s.Taken .kernel j ∨ j = b := fun j => used_mark
  have hne : ∀ i, i < n → f i ≠ b := fun i hi e => h.free i hi ((htake _).mpr (.inr e))
  have hpage : ∀ i, va + pgSize + i * pgSize = va + (i + 1) * pgSize := fun i => by unfold pgSize; omega
  have h0 : KernelAddr va := by unfold KernelAddr pgSize at *; omega
  have hi' : ∀ i, i < n → KernelAddr (va + (i + 1) * pgSize) := fun i hi =>
    kernelAddr_page h1 h2 (by omega)
  refine ⟨?_, ?_, ?_, ?_, ?_, ?_, ?_, ?_, ?_⟩
  · exact ((take_kept s .kernel b).trans (kept_phys _ _)).trans h.kept
  · exact forall_front (· < s.frames .kernel) hb h.fits
  · exact forall_front (¬ s.Taken .kernel ·) hfree fun i hi ht => h.free i hi ((htake _).mpr (.inl ht))
  · intro i hi c hc
    cases i with
    | zero => exact .inl (hlow c hc)
    | succ i =>
      rcases h.least i (by omega) c hc with ht | ⟨j, hj, e⟩
      · rcases (htake c).mp ht with ht | e
        · exact .inl ht
        · exact .inr ⟨0, by omega, e⟩
      · exact .inr ⟨j + 1, by omega, e⟩
  · intro c
    rw [h.taken c]
    constructor
    · intro hex
      rcases hex with ht | ⟨i, hi, e⟩
      · rcases (htake c).mp ht with ht | e
        · exact .inl ht
        · exact .inr ⟨0, by omega, e⟩
      · exact .inr ⟨i + 1, by omega, e⟩
    · intro hex
      rcases hex with ht | ⟨i, hi, e⟩
      · exact .inl ((htake c).mpr (.inl ht))
      · cases i with
        | zero => exact .inl ((htake c).mpr (.inr e))
        | succ i => exact .inr ⟨i, by omega, e⟩
  · exact inj_front hne h.inj
  · intro i hi
    cases i with
    | zero =>
      -- the later rounds write other entries
      have hlt := or_attr_lt ((s.pool .kernel).frame_aligned b) ((s.pool .kernel).frame_lt hb)
      have hkeep : s'.phys.read32 (entry tab va) =
          (s.phys.write32 (entry tab va) ((s.pool .kernel).frame b ||| pgAttr)).read32 (entry tab va) :=
        Bytes.read32_congr fun x hx => h.phys x fun i hi => by
          rw [hpage]
          exact hd.entry_apart h0 (hi' i hi) (by unfold pgSize; omega) hx
      rw [Nat.zero_mul, Nat.add_zero, hkeep, Bytes.read32_write32 _ _ hlt]
      rfl
    | succ i =>
      have := h.entries i (by omega)
      rw [hpage] at this
      exact this
  · intro x hx
    have hx0 : x ∉ Bytes.word (entry tab va) := by
      have := hx 0 (by omega)
      rwa [Nat.zero_mul, Nat.add_zero] at this
    rw [h.phys x fun i hi => by rw [hpage]; exact hx (i + 1) (by omega)]
    exact Bytes.write32_of_notMem hx0
  · intro x hx
    rw [h.data x hx]
    refine mark_of_ne fun e => hx ?_
    rw [e]
    unfold Mem.frames at hb
    exact Set.mem_Ico.mpr ⟨by omega, by omega⟩

/-- The loop, where it maps every page. -/
theorem mapPages_mapped {n : Nat} (hd : KernelDir s.phys s.cr3 tab) (h1 : 0xc0000000 ≤ va)
    (h2 : va + n * pgSize ≤ 0xffc00000) (h : mapPages .kernel n va s = .ok (true, s')) : ∃ f, Mapped tab n va f s s' := by
  induction n generalizing va s with
  | zero => cases h; exact ⟨id, Mapped.nil tab va id _⟩
  | succ n ih =>
    have hk : KernelAddr va := by unfold KernelAddr pgSize at *; omega
    rcases mapPages_succ h with ⟨e, -⟩ | ⟨b, s1, hb, hfree, hlow, hadd, h⟩
    · cases e
    · obtain ⟨-, hs1⟩ := pageTableAdd_kernel_ok (s := s.take .kernel b) hd hk hadd
      rw [Nat.mod_eq_of_lt (by unfold pgSize at *; omega), hs1] at h
      obtain ⟨f, hf⟩ := ih (hd.write_entry hk _) (by omega) (by unfold pgSize at *; omega) h
      exact ⟨_, Mapped.cons hd h1 h2 hb hfree hlow hf⟩

/-- No ASSERT fires where the entries are absent. -/
theorem mapPages_ok {n : Nat} (hd : KernelDir s.phys s.cr3 tab) (h1 : 0xc0000000 ≤ va) (h2 : va + n * pgSize ≤ 0xffc00000)
    (habs : ∀ i, i < n → ¬ Present (s.phys.read32 (entry tab (va + i * pgSize)))) : ∃ r, mapPages .kernel n va s = .ok r := by
  induction n generalizing va s with
  | zero => exact ⟨_, rfl⟩
  | succ n ih =>
    have hk : KernelAddr va := by unfold KernelAddr pgSize at *; omega
    rw [mapPages]
    rcases palloc_cases .kernel s with ⟨he, -⟩ | ⟨b, hb, -, -, he⟩
    · rw [he]; exact ⟨_, rfl⟩
    · have hpos := (s.pool .kernel).frame_pos b
      have h0 : ¬ Present ((s.take .kernel b).phys.read32 (entry tab va)) := by
        have := habs 0 (by omega)
        rwa [Nat.zero_mul, Nat.add_zero] at this
      rw [he]
      simp only [ok_bind]
      rw [if_neg (by omega), pageTableAdd_kernel (s := s.take .kernel b) hd hk, decide_eq_true h0, assert_true, ok_bind,
        ok_bind, Nat.mod_eq_of_lt (by unfold pgSize at *; omega)]
      refine ih (hd.write_entry hk _) (by omega) (by unfold pgSize at *; omega) fun i hi => ?_
      have hki : KernelAddr (va + (i + 1) * pgSize) := kernelAddr_page h1 h2 (by omega)
      have hpage : va + pgSize + i * pgSize = va + (i + 1) * pgSize := by unfold pgSize; omega
      have hkeep : (s.phys.write32 (entry tab va) ((s.pool .kernel).frame b ||| pgAttr)).read32
          (entry tab (va + (i + 1) * pgSize)) = s.phys.read32 (entry tab (va + (i + 1) * pgSize)) :=
        Bytes.read32_congr fun x hx => Bytes.write32_of_notMem (hd.entry_apart hki hk (by unfold pgSize; omega) hx)
      rw [hpage]
      show ¬ Present ((s.phys.write32 _ _).read32 _)
      rw [hkeep]
      exact habs (i + 1) (by omega)

/-! ## Clearing the pages -/

theorem entry_page (tab : Nat → Nat) (va vb : Nat) (h : va / 4096 = vb / 4096) : entry tab va = entry tab vb := by
  have h1 : pdeIdx va = pdeIdx vb := by unfold pdeIdx; omega
  have h2 : pteIdx va = pteIdx vb := by unfold pteIdx; omega
  unfold entry
  rw [h1, h2]

variable {n : Nat} {f : Nat → Nat}

theorem Mapped.dir (h : Mapped tab n va f s s') (hd : KernelDir s.phys s.cr3 tab) (h1 : 0xc0000000 ≤ va)
    (h2 : va + n * pgSize ≤ 0xffc00000) : KernelDir s'.phys s'.cr3 tab := by
  rw [h.kept.cr3]
  exact hd.congr fun x hx => h.phys x fun i hi hx' => hd.entry_not_dir (kernelAddr_page h1 h2 hi) hx' hx

/-- Byte `k` of pages mapped on the frames `g 0`, `g 1`, … lies at `k % 4096` in the frame of its page. -/
theorem KernelDir.window {g : Nat → Nat} (h : KernelDir m cr3 tab) (ha : va % 4096 = 0) (h1 : 0xc0000000 ≤ va)
    (h2 : va + n * pgSize ≤ 0xffc00000) (hal : ∀ i, g i % 4096 = 0)
    (he : ∀ i, i < n → m.read32 (entry tab (va + i * pgSize)) = g i ||| pgAttr) :
    Window m cr3 (walked cr3) va (n * pgSize) fun k => g (k / 4096) + k % 4096 := by
  have hk : ∀ k, k < n * pgSize → KernelAddr (va + k) := fun k hk => by unfold KernelAddr pgSize at *; omega
  refine ⟨fun k hkn => ?_, fun k hkn => h.footprint (hk k hkn)⟩
  have he' := he (k / 4096) (by unfold pgSize at hkn; omega)
  rw [entry_page tab _ (va + k) (by unfold pgSize; omega)] at he'
  rw [h.translate (hk k hkn) (by rw [he']; exact present_or_attr (hal _)), he', frameOf_or_attr (hal _)]
  congr 2
  omega

theorem Mapped.window (h : Mapped tab n va f s s') (hd : KernelDir s.phys s.cr3 tab) (ha : va % 4096 = 0)
    (h1 : 0xc0000000 ≤ va) (h2 : va + n * pgSize ≤ 0xffc00000) :
    Window s'.phys s'.cr3 (walked s'.cr3) va (n * pgSize) fun k => (s.pool .kernel).frame (f (k / 4096)) + k % 4096 :=
  (h.dir hd h1 h2).window ha h1 h2 (fun i => (s.pool .kernel).frame_aligned (f i)) h.entries

/-- memset over the mapped pages clears their frames and nothing else. -/
theorem Mapped.memset (h : Mapped tab n va f s s') (hd : KernelDir s.phys s.cr3 tab) (ha : va % 4096 = 0)
    (h1 : 0xc0000000 ≤ va) (h2 : va + n * pgSize ≤ 0xffc00000) (hlow : usedMem ≤ (s.pool .kernel).phyAddrStart)
    (hout : ∀ i, i < n → (s.pool .kernel).frame (f i) ≠ s.cr3) :
    ∃ phys, memset s'.phys s'.cr3 va 0 (n * pgSize % 2 ^ 32) = .ok phys ∧
      (∀ i, i < n → ∀ x ∈ frame ((s.pool .kernel).frame (f i)), phys x = 0) ∧
      ∀ x, (∀ i, i < n → x ∉ frame ((s.pool .kernel).frame (f i))) → phys x = s'.phys x := by
  have hal := fun i => (s.pool .kernel).frame_aligned (f i)
  have hnot : ∀ k, k < n * pgSize → (s.pool .kernel).frame (f (k / 4096)) + k % 4096 ∉ walked s'.cr3 := by
    intro k hk hw
    have hin : (s.pool .kernel).frame (f (k / 4096)) + k % 4096 ∈ frame ((s.pool .kernel).frame (f (k / 4096))) :=
      Set.mem_Ico.mpr ⟨by omega, by omega⟩
    rcases hw with hw | hw
    · rw [h.kept.cr3] at hw
      exact frame_apart (hal _) hd.self.aligned (hout _ (by unfold pgSize at hk; omega)) hin hw
    · have := Set.mem_Iio.mp hw
      unfold Pool.frame at this
      omega
  rw [Nat.mod_eq_of_lt (by omega)]
  obtain ⟨phys, he, hin, hext⟩ := memset_spec 0 (h.window hd ha h1 h2) hnot (by omega) (by omega)
  refine ⟨phys, he, fun i hi x hx => ?_, fun x hx => hext x fun k hk e => ?_⟩
  · obtain ⟨hx1, hx2⟩ := Set.mem_Ico.mp hx
    have := hin (i * 4096 + (x - (s.pool .kernel).frame (f i))) (by unfold pgSize; omega)
    have hdiv : (i * 4096 + (x - (s.pool .kernel).frame (f i))) / 4096 = i := by omega
    have hmod : (i * 4096 + (x - (s.pool .kernel).frame (f i))) % 4096 = x - (s.pool .kernel).frame (f i) := by omega
    rw [hdiv, hmod, Nat.add_sub_cancel' hx1] at this
    exact this
  · refine hx (k / 4096) (by unfold pgSize at hk; omega) ?_
    rw [e]
    exact Set.mem_Ico.mpr ⟨by omega, by omega⟩

/-! ## get_kernel_pages -/

/-- The locks apart, what a call of the allocator keeps. -/
structure Stays (s s' : Mem) : Prop where
  bitmap : ∀ pf, (s'.pool pf).poolBitmap = (s.pool pf).poolBitmap
  start : ∀ pf, (s'.pool pf).phyAddrStart = (s.pool pf).phyAddrStart
  kernelVaddr : s'.kernelVaddr = s.kernelVaddr
  cr3 : s'.cr3 = s.cr3
  cur : s'.cur = s.cur
  grows : Grows s.data s'.data

theorem Kept.stays (h : Kept s s') : Stays s s' :=
  ⟨fun pf => by rw [h.pool], fun pf => by rw [h.pool], h.kernelVaddr, h.cr3, h.cur, h.grows⟩

theorem Stays.trans {s'' : Mem} (h : Stays s s') (h' : Stays s' s'') : Stays s s'' :=
  ⟨fun pf => (h'.bitmap pf).trans (h.bitmap pf), fun pf => (h'.start pf).trans (h.start pf),
    h'.kernelVaddr.trans h.kernelVaddr, h'.cr3.trans h.cr3, h'.cur.trans h.cur, h.grows.trans h'.grows⟩

theorem setLock_stays (s : Mem) (pf : PoolFlags) (l : PoolLock) : Stays s (s.setLock pf l) := by
  refine ⟨fun pf' => setLock_poolBitmap s pf pf' l, fun pf' => ?_, rfl, rfl, rfl, Grows.refl _⟩
  by_cases h : pf' = pf
  · subst h; simp [Mem.setLock]
  · rw [setLock_other s l h]

theorem Stays.frame (h : Stays s s') (pf : PoolFlags) (i : Nat) : (s'.pool pf).frame i = (s.pool pf).frame i := by
  unfold Pool.frame
  rw [h.start]

theorem Stays.frames (h : Stays s s') (pf : PoolFlags) : s'.frames pf = s.frames pf := by
  unfold Mem.frames
  rw [h.bitmap]

theorem Stays.taken (h : Stays s s') {pf : PoolFlags} {i : Nat} (ht : s.Taken pf i) : s'.Taken pf i := by
  unfold Mem.Taken
  rw [h.bitmap]
  exact h.grows.used ht

/-- A kernel directory is active, no free frame is that directory, and the heap lies in
the part of the address space that the kernel's tables map, its bit one past the end included. -/
structure KernelSpace (tab : Nat → Nat) (s : Mem) : Prop where
  dir : KernelDir s.phys s.cr3 tab
  low : usedMem ≤ (s.pool .kernel).phyAddrStart
  out : ∀ i, i < s.frames .kernel → ¬ s.Taken .kernel i → (s.pool .kernel).frame i ≠ s.cr3
  heapAligned : s.kernelVaddr.vaddrStart % 4096 = 0
  heapLow : 0xc0000000 ≤ s.kernelVaddr.vaddrStart
  heapHigh : s.kernelVaddr.vaddrStart + (8 * s.kernelVaddr.vaddrBitmap.btmpBytesLen + 1) * pgSize ≤ 0xffc00000

/-- The addresses of the heap's pages, as far as the scan can answer. -/
theorem KernelSpace.page (h : KernelSpace tab s) {b n : Nat} (hb : b + n ≤ 8 * s.kernelVaddr.vaddrBitmap.btmpBytesLen + 1) :
    0xc0000000 ≤ s.kernelVaddr.page b ∧ s.kernelVaddr.page b + n * pgSize ≤ 0xffc00000 ∧ s.kernelVaddr.page b % 4096 = 0 := by
  have hle : (b + n) * pgSize ≤ (8 * s.kernelVaddr.vaddrBitmap.btmpBytesLen + 1) * pgSize := Nat.mul_le_mul_right _ hb
  have hlow := h.heapLow
  have hhigh := h.heapHigh
  have hal := h.heapAligned
  rw [Nat.add_mul] at hle
  unfold VirtualAddr.page
  refine ⟨by omega, by omega, ?_⟩
  unfold pgSize
  omega

/-- What `get_kernel_pages` has done, where `m` is the kernel's data once the virtual pages
are reserved: `k` pages from `va` are mapped on frames that were free. -/
structure Granted (tab : Nat → Nat) (va k : Nat) (f : Nat → Nat) (m : Bytes) (s s' : Mem) : Prop where
  stays : Stays s s'
  above : 0xc0000000 ≤ va
  below : va + k * pgSize ≤ 0xffc00000
  aligned : va % 4096 = 0
  fits : ∀ i, i < k → f i < s.frames .kernel
  free : ∀ i, i < k → ¬ s.Taken .kernel (f i)
  least : ∀ i, i < k → ∀ c, c < f i → (s.pool .kernel).poolBitmap.Used m c ∨ ∃ j, j < i ∧ c = f j
  taken : ∀ c, s'.Taken .kernel c ↔ (s.pool .kernel).poolBitmap.Used m c ∨ ∃ i, i < k ∧ c = f i
  inj : ∀ i j, i < k → j < k → f i = f j → i = j
  entries : ∀ i, i < k → s'.phys.read32 (entry tab (va + i * pgSize)) = (s.pool .kernel).frame (f i) ||| pgAttr
  phys : ∀ x, (∀ i, i < k → x ∉ Bytes.word (entry tab (va + i * pgSize))) →
    (∀ i, i < k → x ∉ frame ((s.pool .kernel).frame (f i))) → s'.phys x = s.phys x
  data : ∀ x, x ∉ (s.pool .kernel).poolBitmap.area → s'.data x = m x

/-- The mapped pages, once their frames may have been cleared and the lock is released. -/
theorem Mapped.granted {m phys : Bytes} {sm : Mem} {l l' : PoolLock} {k : Nat} (hs : KernelSpace tab s) (hg : Grows s.data m)
    (h1 : 0xc0000000 ≤ va) (h2 : va + k * pgSize ≤ 0xffc00000) (ha : va % 4096 = 0)
    (h : Mapped tab k va f { s.setLock .kernel l with data := m } sm)
    (hp : ∀ x, (∀ i, i < k → x ∉ frame ((s.pool .kernel).frame (f i))) → phys x = sm.phys x) :
    Granted tab va k f m s ({ sm with phys := phys }.setLock .kernel l') := by
  have hbit := setLock_poolBitmap s .kernel .kernel l
  have hframe := (setLock_stays s .kernel l).frame .kernel
  have hfree : ∀ i, i < k → ¬ s.Taken .kernel (f i) := fun i hi ht => h.free i hi (by
    show ((s.setLock .kernel l).pool .kernel).poolBitmap.Used m (f i)
    rw [hbit]; exact hg.used ht)
  have hstart : usedMem ≤ (s.pool .kernel).phyAddrStart := hs.low
  refine ⟨?_, h1, h2, ha, fun i hi => ?_, hfree, fun i hi c hc => ?_, fun c => ?_, h.inj, fun i hi => ?_, fun x hx hx' => ?_,
    fun x hx => ?_⟩
  · exact (((setLock_stays s .kernel l).trans (kept_data (s := s.setLock .kernel l) hg).stays).trans h.kept.stays).trans
      ((kept_phys sm phys).stays.trans (setLock_stays _ _ _))
  · have := h.fits i hi
    unfold Mem.frames at *
    rwa [hbit] at this
  · have := h.least i hi c hc
    unfold Mem.Taken at this
    rwa [hbit] at this
  · have := h.taken c
    unfold Mem.Taken at this
    rw [hbit] at this
    unfold Mem.Taken
    rw [setLock_poolBitmap]
    exact this
  · -- the cleared frames lie above the tables
    have hlow := hs.dir.entry_low (kernelAddr_page h1 h2 hi)
    have hkeep : phys.read32 (entry tab (va + i * pgSize)) = sm.phys.read32 (entry tab (va + i * pgSize)) :=
      Bytes.read32_congr fun x hx => hp x fun j _ hx' => by
        have := Set.mem_Ico.mp hx
        have := Set.mem_Ico.mp hx'
        unfold Pool.frame at *
        omega
    show phys.read32 _ = _
    rw [hkeep, h.entries i hi]
    exact congrArg (· ||| pgAttr) (hframe (f i))
  · exact (hp x hx').trans (h.phys x hx)
  · refine h.data x ?_
    show x ∉ ((s.setLock .kernel l).pool .kernel).poolBitmap.area
    rw [hbit]; exact hx

theorem getKernelPages_cases {v : Nat} (hs : KernelSpace tab s) (h : getKernelPages n s = .ok (v, s')) :
    (bitmapScan s.data s.kernelVaddr.vaddrBitmap n = none ∧ v = 0 ∧ Stays s s' ∧ s'.phys = s.phys ∧ s'.data = s.data) ∨
      ∃ b m k f, bitmapScan s.data s.kernelVaddr.vaddrBitmap n = some b ∧
        setBits s.kernelVaddr.vaddrBitmap n b s.data = .ok m ∧ Granted tab (s.kernelVaddr.page b) k f m s s' ∧
        (v = 0 ∧ k < n ∧ (∀ i, i < s.frames .kernel → s'.Taken .kernel i) ∨
          v = s.kernelVaddr.page b ∧ 0 < v ∧ k = n ∧
            ∀ i, i < n → ∀ x ∈ frame ((s.pool .kernel).frame (f i)), s'.phys x = 0) := by
  obtain ⟨l, sm, phys, -, hm, hp, hr⟩ := getKernelPages_ok h
  obtain ⟨l', -, rfl⟩ := lockRelease_ok hr
  have hst := setLock_stays s .kernel l
  have hpos : 0 < n := by
    obtain ⟨u, hc, -⟩ := bind_ok_iff.mp hm
    exact (of_decide_eq_true (assert_ok.mp hc)).1
  rcases mallocPage_cases hm with ⟨hnone, hv, rfl⟩ | ⟨b, m, k, hsome, hset, hmap, hend⟩
  · rw [if_neg (by omega)] at hp
    cases hp
    exact .inl ⟨hnone, hv, hst.trans (setLock_stays _ _ _), rfl, rfl⟩
  · obtain ⟨-, hb, -⟩ := bitmapScan_some hpos hsome
    have hb : b + n ≤ 8 * s.kernelVaddr.vaddrBitmap.btmpBytesLen + 1 := hb
    obtain ⟨h1, h2, ha⟩ := hs.page (n := k) (b := b) (by omega)
    have hset' := setBits_kept (s := s.setLock .kernel l) hset
    have hg : Grows s.data m := hset'.grows
    obtain ⟨f, hf⟩ := mapPages_mapped (s := { s.setLock .kernel l with data := m }) hs.dir h1 h2 hmap
    have hgr : Granted tab (s.kernelVaddr.page b) k f m s ({ sm with phys := sm.phys }.setLock .kernel l') :=
      hf.granted hs hg h1 h2 ha fun _ _ => rfl
    refine .inr ⟨b, m, k, f, hsome, hset, ?_⟩
    rcases hend with ⟨hv, hlt, hfull⟩ | ⟨hv, hvpos, hk⟩
    · rw [if_neg (by omega)] at hp
      cases hp
      refine ⟨hgr, .inl ⟨hv, hlt, fun i hi => ?_⟩⟩
      unfold Mem.Taken
      rw [setLock_poolBitmap]
      have hframes : sm.frames .kernel = s.frames .kernel := ((hst.trans hset'.stays).trans (mapPages_kept hmap).stays).frames .kernel
      exact hfull i (by rw [hframes]; exact hi)
    · subst hk
      have hv : v = s.kernelVaddr.page b := hv
      rw [if_pos (by omega), hv] at hp
      have hout : ∀ i, i < k → (s.pool .kernel).frame (f i) ≠ s.cr3 := fun i hi =>
        hs.out (f i) (hgr.fits i hi) (hgr.free i hi)
      have hframe := hst.frame .kernel
      obtain ⟨phys', he, hin, hext⟩ := hf.memset hs.dir ha h1 h2 (by rw [hst.start]; exact hs.low)
        (fun i hi => by rw [hframe]; exact hout i hi)
      rw [he] at hp
      cases hp
      simp only [hframe] at hin hext
      exact ⟨hf.granted hs hg h1 h2 ha hext, .inr ⟨hv, hvpos, rfl, hin⟩⟩

/-- Nothing the kernel's walks read lies in a pool frame other than the directory's. -/
theorem KernelSpace.not_frame (hs : KernelSpace tab s) {c : Nat} (hc : (s.pool .kernel).frame c ≠ s.cr3) {x : Nat}
    (hx : x ∈ walked s.cr3) : x ∉ frame ((s.pool .kernel).frame c) := by
  intro hx'
  rcases hx with hx | hx
  · exact frame_apart ((s.pool .kernel).frame_aligned c) hs.dir.self.aligned hc hx' hx
  · have h1 := (Set.mem_Ico.mp hx').1
    have h2 := Set.mem_Iio.mp hx
    have := hs.low
    unfold Pool.frame at h1
    omega

/-- What no call of `get_kernel_pages` changes of the kernel's walks: the directory, and
the entries of other pages. -/
theorem Granted.unchanged {m : Bytes} {k : Nat} (h : Granted tab va k f m s s') (hs : KernelSpace tab s) {x : Nat}
    (hx : x ∈ walked s.cr3) (he : ∀ i, i < k → x ∉ Bytes.word (entry tab (va + i * pgSize))) : s'.phys x = s.phys x :=
  h.phys x he fun i hi => hs.not_frame (hs.out _ (h.fits i hi) (h.free i hi)) hx

theorem Granted.kernelAddr {m : Bytes} {k i : Nat} (h : Granted tab va k f m s s') (hi : i < k) :
    KernelAddr (va + i * pgSize) := kernelAddr_page h.above h.below hi

theorem Granted.first {m : Bytes} {k : Nat} (h : Granted tab va k f m s s') (hk : 0 < k) :
    KernelAddr va ∧ s'.phys.read32 (entry tab va) = (s.pool .kernel).frame (f 0) ||| pgAttr := by
  have haddr := h.kernelAddr hk
  have hentry := h.entries 0 hk
  rw [Nat.zero_mul, Nat.add_zero] at haddr hentry
  exact ⟨haddr, hentry⟩

theorem Granted.space {m : Bytes} {k : Nat} (h : Granted tab va k f m s s') (hs : KernelSpace tab s) : KernelSpace tab s' where
  dir := by
    rw [h.stays.cr3]
    exact hs.dir.congr fun x hx => h.unchanged hs (.inl hx) fun i hi hx' =>
      hs.dir.entry_not_dir (h.kernelAddr hi) hx' hx
  low := by rw [h.stays.start]; exact hs.low
  out i hi ht := by
    rw [h.stays.frame, h.stays.cr3]
    rw [h.stays.frames] at hi
    exact hs.out i hi fun ht' => ht (h.stays.taken ht')
  heapAligned := by rw [h.stays.kernelVaddr]; exact hs.heapAligned
  heapLow := by rw [h.stays.kernelVaddr]; exact hs.heapLow
  heapHigh := by rw [h.stays.kernelVaddr]; exact hs.heapHigh

/-- Where the call found no range, too. -/
theorem Stays.space (h : Stays s s') (hp : s'.phys = s.phys) (hs : KernelSpace tab s) : KernelSpace tab s' where
  dir := by rw [h.cr3, hp]; exact hs.dir
  low := by rw [h.start]; exact hs.low
  out i hi ht := by
    rw [h.frame, h.cr3]
    rw [h.frames] at hi
    exact hs.out i hi fun ht' => ht (h.taken ht')
  heapAligned := by rw [h.kernelVaddr]; exact hs.heapAligned
  heapLow := by rw [h.kernelVaddr]; exact hs.heapLow
  heapHigh := by rw [h.kernelVaddr]; exact hs.heapHigh

end TinyOs.Memory
