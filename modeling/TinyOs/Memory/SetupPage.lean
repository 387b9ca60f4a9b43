/-
  TinyOs.Memory.SetupPage — the directory that `setup_page` leaves (boot/loader.s).

  Entry 1023 is the self map, entries 768 to 1022 name the tables at 0x101000,
  0x102000, …, entry 0 shares the first of them, and the others are absent. Of the
  tables only the first megabyte's entries are written: what the rest of memory held
  stays, so a kernel address above it may be mapped to anything or nothing.
  - `setupPage_layout_iff`: the loader builds the address space it is meant to build
    exactly on memory whose words there have their P bit clear.
-/

import TinyOs.Memory.KernelPages

namespace TinyOs.Memory

open TinyOs.Kernel TinyOs.Lib TinyOs.Logic

/-- The table that entry `j` names, for `768 ≤ j < 1023`. -/
def kernelTable (j : Nat) : Nat := pageDirTablePos + 0x1000 + (j - 768) * 0x1000

theorem kernelTable_aligned (j : Nat) : kernelTable j % 4096 = 0 := by unfold kernelTable pageDirTablePos; omega

variable {m : Bytes}

theorem createPte_outside (ecx esi edx : Nat) (m : Bytes) {x : Nat}
    (hx : x < pageDirTablePos + 0x1000 + esi * 4 ∨ pageDirTablePos + 0x1000 + (esi + ecx) * 4 ≤ x) :
    createPte ecx esi edx m x = m x := by
  induction ecx generalizing esi edx m with
  | zero => rfl
  | succ ecx ih =>
    rw [createPte, ih _ _ _ (by omega)]
    exact Bytes.write32_of_notMem fun h => by have := Set.mem_Ico.mp h; omega

theorem createKernelPde_outside (ecx esi eax : Nat) (m : Bytes) {x : Nat}
    (hx : x < pageDirTablePos + esi * 4 ∨ pageDirTablePos + (esi + ecx) * 4 ≤ x) :
    createKernelPde ecx esi eax m x = m x := by
  induction ecx generalizing esi eax m with
  | zero => rfl
  | succ ecx ih =>
    rw [createKernelPde, ih _ _ _ (by omega)]
    exact Bytes.write32_of_notMem fun h => by have := Set.mem_Ico.mp h; omega

theorem createKernelPde_entry (ecx esi eax : Nat) (m : Bytes) {j : Nat} (h1 : esi ≤ j) (h2 : j < esi + ecx)
    (hlt : eax + ecx * 0x1000 < 2 ^ 32) :
    (createKernelPde ecx esi eax m).read32 (pageDirTablePos + j * 4) = eax + (j - esi) * 0x1000 := by
  induction ecx generalizing esi eax m with
  | zero => omega
  | succ ecx ih =>
    rw [createKernelPde]
    by_cases e : j = esi
    · subst e
      rw [Bytes.read32_congr fun x hx => createKernelPde_outside ecx _ _ _ (by have := Set.mem_Ico.mp hx; omega),
        Bytes.read32_write32 _ _ (by omega)]
      omega
    · rw [ih (esi + 1) (eax + 0x1000) _ (by omega) (by omega) (by omega)]
      omega

/-- The directory before the last loop: cleared, with its three entries. -/
def firstEntries (m : Bytes) : Bytes :=
  (((fill 0 4096 pageDirTablePos m).write32 (pageDirTablePos + 0x0) 0x101007).write32 (pageDirTablePos + 0xc00)
    0x101007).write32 (pageDirTablePos + 4092) 0x100007

theorem setupPage_eq (m : Bytes) :
    setupPage m = createKernelPde 254 769 0x102007 (createPte 256 0 pgAttr (firstEntries m)) := rfl

theorem firstEntries_outside {x : Nat} (hx : x < pageDirTablePos ∨ pageDirTablePos + 4096 ≤ x) :
    firstEntries m x = m x := by
  unfold firstEntries
  rw [Bytes.write32_of_notMem fun h => by have := Set.mem_Ico.mp h; omega,
    Bytes.write32_of_notMem fun h => by have := Set.mem_Ico.mp h; omega,
    Bytes.write32_of_notMem fun h => by have := Set.mem_Ico.mp h; omega, fill_apply, if_neg (by omega)]

theorem firstEntries_other {j : Nat} (h0 : 0 < j) (hj : j < 1023) (h768 : j ≠ 768) :
    (firstEntries m).read32 (pageDirTablePos + j * 4) = 0 := by
  unfold firstEntries
  rw [Bytes.read32_write32_of_disjoint (by omega), Bytes.read32_write32_of_disjoint (by omega),
    Bytes.read32_write32_of_disjoint (by omega)]
  refine Bytes.read32_of_zero fun x hx => ?_
  have := Set.mem_Ico.mp hx
  rw [fill_apply, if_pos (by omega)]

theorem setupPage_outside {x : Nat} (hx : x < pageDirTablePos ∨ pageDirTablePos + 0x1400 ≤ x) : setupPage m x = m x := by
  have hdir : x < pageDirTablePos ∨ pageDirTablePos + 4096 ≤ x := hx.imp_right (Nat.le_trans (by decide))
  have hpte : x < pageDirTablePos + 0x1000 + 0 * 4 ∨ pageDirTablePos + 0x1000 + (0 + 256) * 4 ≤ x :=
    hx.imp (fun h => Nat.lt_of_lt_of_le h (by decide)) id
  have hpde : x < pageDirTablePos + 769 * 4 ∨ pageDirTablePos + (769 + 254) * 4 ≤ x :=
    hx.imp (fun h => Nat.lt_of_lt_of_le h (by decide)) (Nat.le_trans (by decide))
  rw [setupPage_eq, createKernelPde_outside _ _ _ _ hpde, createPte_outside _ _ _ _ hpte, firstEntries_outside hdir]

theorem createPte_eq (ecx esi edx : Nat) {m m' : Bytes} {x : Nat} (h : ¬ (pageDirTablePos + 0x1000 + esi * 4 ≤ x ∧
    x < pageDirTablePos + 0x1000 + (esi + ecx) * 4) → m' x = m x) : createPte ecx esi edx m' x = createPte ecx esi edx m x := by
  induction ecx generalizing esi edx m m' with
  | zero => exact h (by omega)
  | succ ecx ih =>
    rw [createPte, createPte]
    refine ih (esi + 1) (edx + 4096) fun hx => Bytes.write32_eq fun hw => h fun hin => ?_
    have hword : ¬ (pageDirTablePos + 0x1000 + esi * 4 ≤ x ∧ x < pageDirTablePos + 0x1000 + esi * 4 + 4) :=
      fun hword => hw (Set.mem_Ico.mpr hword)
    omega

theorem createKernelPde_eq (ecx esi eax : Nat) {m m' : Bytes} {x : Nat} (h : m' x = m x) :
    createKernelPde ecx esi eax m' x = createKernelPde ecx esi eax m x := by
  induction ecx generalizing esi eax m m' with
  | zero => exact h
  | succ ecx ih =>
    rw [createKernelPde, createKernelPde]
    exact ih _ _ (Bytes.write32_eq fun _ => h)

/-- What it writes does not depend on what was there. -/
theorem setupPage_written {x : Nat} (h1 : 0x100000 ≤ x) (h2 : x < 0x101400) (m m' : Bytes) : setupPage m' x = setupPage m x := by
  rw [setupPage_eq, setupPage_eq]
  apply createKernelPde_eq
  apply createPte_eq
  intro hx
  unfold firstEntries
  iterate 3 refine Bytes.write32_eq fun _ => ?_
  unfold pageDirTablePos at hx
  rw [fill_apply, fill_apply, if_pos, if_pos] <;> unfold pageDirTablePos <;> omega

/-- Memory that holds what it writes stays as it is. -/
theorem setupPage_again {m' : Bytes} (h : Set.EqOn m' (setupPage m) (Set.Ico 0x100000 0x101400)) : setupPage m' = m' := by
  funext x
  by_cases hx : 0x100000 ≤ x ∧ x < 0x101400
  · exact (setupPage_written hx.1 hx.2 m m').trans (h (Set.mem_Ico.mpr hx)).symm
  · exact setupPage_outside (by unfold pageDirTablePos; omega)

/-- Entries that the loops do not write. -/
theorem setupPage_first {j : Nat} (hj : j < 769 ∨ j = 1023) :
    (setupPage m).read32 (pageDirTablePos + j * 4) = (firstEntries m).read32 (pageDirTablePos + j * 4) := by
  rw [setupPage_eq]
  refine Bytes.read32_congr fun x hx => ?_
  have := Set.mem_Ico.mp hx
  rw [createKernelPde_outside _ _ _ _ (by omega), createPte_outside _ _ _ _ (by omega)]

theorem setupPage_self : (setupPage m).read32 (pageDirTablePos + 1023 * 4) = pageDirTablePos ||| pgAttr := by
  rw [setupPage_first (.inr rfl)]
  exact Bytes.read32_write32 _ _ (by decide)

theorem setupPage_kernel {j : Nat} (h1 : 768 ≤ j) (h2 : j < 1023) :
    (setupPage m).read32 (pageDirTablePos + j * 4) = kernelTable j ||| pgAttr := by
  rw [or_attr (kernelTable_aligned j)]
  by_cases e : j = 768
  · subst e
    rw [setupPage_first (.inl (by omega))]
    unfold firstEntries
    rw [Bytes.read32_write32_of_disjoint (by omega)]
    exact Bytes.read32_write32 _ _ (by decide)
  · rw [setupPage_eq, createKernelPde_entry _ _ _ _ (by omega) (by omega) (by decide)]
    unfold kernelTable pageDirTablePos
    omega

/-- Below the kernel's entries only entry 0 is present, and it shares the first table. -/
theorem setupPage_user {j : Nat} (hj : j < 768) :
    (setupPage m).read32 (pageDirTablePos + j * 4) = if j = 0 then kernelTable 768 ||| pgAttr else 0 := by
  rw [setupPage_first (.inl (by omega))]
  split
  · next e =>
    subst e
    unfold firstEntries
    rw [Bytes.read32_write32_of_disjoint (by omega), Bytes.read32_write32_of_disjoint (by omega)]
    exact Bytes.read32_write32 _ _ (by decide)
  · exact firstEntries_other (by omega) (by omega) (by omega)

theorem setupPage_tables (m : Bytes) : KernelTables (setupPage m) pageDirTablePos kernelTable where
  self := by
    have hal : pageDirTablePos % 4096 = 0 := by decide
    refine ⟨?_, ?_⟩
    · rw [setupPage_self]; exact present_or_attr hal
    · rw [setupPage_self]; exact frameOf_or_attr hal
  present j h1 h2 := by
    rw [setupPage_kernel h1 h2]
    exact present_or_attr (kernelTable_aligned j)
  table j h1 h2 := by
    rw [setupPage_kernel h1 h2]
    exact frameOf_or_attr (kernelTable_aligned j)
  low j h1 h2 := by unfold kernelTable pageDirTablePos usedMem pgSize; omega
  inj i j h1 h2 h3 h4 h := by unfold kernelTable at h; omega

/-! ## The address space -/

/-- What the loader is to build: the first megabyte at 0 and at 0xc0000000, and nothing else
below the self map; kernel tables of their own, above the directory and below the pools. -/
structure BootLayout (m : Bytes) : Prop where
  low : ∀ v, v < 0x100000 → translate m pageDirTablePos v = some v
  high : ∀ v, 0xc0000000 ≤ v → v < 0xc0100000 → translate m pageDirTablePos v = some (v - 0xc0000000)
  nothing : ∀ v, v < 0xffc00000 → ¬ v < 0x100000 → ¬ (0xc0000000 ≤ v ∧ v < 0xc0100000) → translate m pageDirTablePos v = none
  present : ∀ j, 768 ≤ j → j < 1023 → Present (m.read32 (pageDirTablePos + j * 4))
  inside : ∀ j, 768 ≤ j → j < 1023 → 0x101000 ≤ frameOf (m.read32 (pageDirTablePos + j * 4)) ∧
    frameOf (m.read32 (pageDirTablePos + j * 4)) + pgSize ≤ 0x200000
  distinct : ∀ i j, 768 ≤ i → i < 1023 → 768 ≤ j → j < 1023 →
    frameOf (m.read32 (pageDirTablePos + i * 4)) = frameOf (m.read32 (pageDirTablePos + j * 4)) → i = j
  self : Present (m.read32 (pageDirTablePos + 1023 * 4)) ∧ frameOf (m.read32 (pageDirTablePos + 1023 * 4)) = pageDirTablePos

theorem createPte_entry (ecx esi edx : Nat) (m : Bytes) {j : Nat} (h1 : esi ≤ j) (h2 : j < esi + ecx)
    (hlt : edx + ecx * 4096 < 2 ^ 32) :
    (createPte ecx esi edx m).read32 (pageDirTablePos + 0x1000 + j * 4) = edx + (j - esi) * 4096 := by
  induction ecx generalizing esi edx m with
  | zero => omega
  | succ ecx ih =>
    rw [createPte]
    by_cases e : j = esi
    · subst e
      rw [Bytes.read32_congr fun x hx => createPte_outside ecx _ _ _ (by have := Set.mem_Ico.mp hx; omega),
        Bytes.read32_write32 _ _ (by omega)]
      omega
    · rw [ih (esi + 1) (edx + 4096) _ (by omega) (by omega) (by omega)]
      omega

/-- The entries of the first megabyte. -/
theorem setupPage_pte {i : Nat} (hi : i < 256) :
    (setupPage m).read32 (pageDirTablePos + 0x1000 + i * 4) = i * 4096 + 7 := by
  have hkeep : (setupPage m).read32 (pageDirTablePos + 0x1000 + i * 4) =
      (createPte 256 0 pgAttr (firstEntries m)).read32 (pageDirTablePos + 0x1000 + i * 4) := by
    rw [setupPage_eq]
    refine Bytes.read32_congr fun x hx => ?_
    have := Set.mem_Ico.mp hx
    exact createKernelPde_outside _ _ _ _ (.inr (by omega))
  rw [hkeep, createPte_entry _ _ _ _ (by omega) (by omega) (by decide)]
  unfold pgAttr
  omega

/-- Every other entry is a word that the memory held before. -/
theorem setupPage_leftover {a : Nat} (ha : 0x101400 ≤ a) : (setupPage m).read32 a = m.read32 a :=
  Bytes.read32_congr fun x hx => setupPage_outside (.inr (by
    have := Set.mem_Ico.mp hx
    unfold pageDirTablePos
    omega))

/-- The walk of `v` through the table that its directory entry names. -/
theorem setupPage_translate {v T : Nat} (hT : T % 4096 = 0)
    (hd : (setupPage m).read32 (pageDirTablePos + pdeIdx v * 4) = T ||| pgAttr) :
    translate (setupPage m) pageDirTablePos v =
      if Present ((setupPage m).read32 (T + pteIdx v * 4)) then
        some (frameOf ((setupPage m).read32 (T + pteIdx v * 4)) + v % 2 ^ 12)
      else none := by
  unfold translate
  simp only [hd, if_pos (present_or_attr hT), frameOf_or_attr hT]

/-- The first megabyte, seen through the table that entries 0 and 768 share. -/
theorem setupPage_megabyte {v : Nat} (hi : pteIdx v < 256)
    (hd : (setupPage m).read32 (pageDirTablePos + pdeIdx v * 4) = kernelTable 768 ||| pgAttr) :
    translate (setupPage m) pageDirTablePos v = some (pteIdx v * 4096 + v % 2 ^ 12) := by
  have hw : (setupPage m).read32 (kernelTable 768 + pteIdx v * 4) = pteIdx v * 4096 + 7 := setupPage_pte hi
  have hp : Present (pteIdx v * 4096 + 7) := by show (_ + 7) % 2 = 1; omega
  have hf : frameOf (pteIdx v * 4096 + 7) = pteIdx v * 4096 := by unfold frameOf; omega
  rw [setupPage_translate (kernelTable_aligned 768) hd, hw, if_pos hp, hf]

/-- The entry of an address below the self map: the table it lies in, if there is one. -/
theorem setupPage_pde {v : Nat} (hv : v < 0xffc00000) :
    (setupPage m).read32 (pageDirTablePos + pdeIdx v * 4) =
      if pdeIdx v = 0 then kernelTable 768 ||| pgAttr
      else if pdeIdx v < 768 then 0 else kernelTable (pdeIdx v) ||| pgAttr := by
  have hlt : pdeIdx v < 1023 := by unfold pdeIdx; omega
  by_cases h : pdeIdx v < 768
  · rw [setupPage_user h, if_pos h]
  · rw [if_neg (by omega), if_neg h]
    exact setupPage_kernel (by omega) hlt

/-- The words that the memory held in the tables, and that the loader does not write, are no present entries. -/
def CleanTables (m : Bytes) : Prop := ∀ a, 0x101400 ≤ a → a < 0x200000 → a % 4 = 0 → ¬ Present (m.read32 a)

theorem CleanTables.congr {m' : Bytes} (h : CleanTables m) (he : Set.EqOn m' m (Set.Ico 0x101400 0x200000)) :
    CleanTables m' := by
  intro a h1 h2 h4
  have hword : m'.read32 a = m.read32 a := by
    refine Bytes.read32_congr fun x hx => ?_
    obtain ⟨hx1, hx2⟩ := Set.mem_Ico.mp hx
    exact he (Set.mem_Ico.mpr ⟨by omega, by omega⟩)
  rw [hword]
  exact h a h1 h2 h4

theorem CleanTables.absent (h : CleanTables m) {v T : Nat} (hT : T % 4096 = 0) (h1 : 0x101400 ≤ T + pteIdx v * 4)
    (h2 : T + 4096 ≤ 0x200000) (hd : (setupPage m).read32 (pageDirTablePos + pdeIdx v * 4) = T ||| pgAttr) :
    translate (setupPage m) pageDirTablePos v = none := by
  have hlt := pteIdx_lt v
  rw [setupPage_translate hT hd, setupPage_leftover h1, if_neg (h _ h1 (by omega) (by omega))]

theorem CleanTables.nothing (h : CleanTables m) {v : Nat} (hv : v < 0xffc00000) (hlow : ¬ v < 0x100000)
    (hhigh : ¬ (0xc0000000 ≤ v ∧ v < 0xc0100000)) : translate (setupPage m) pageDirTablePos v = none := by
  have hd := setupPage_pde (m := m) hv
  by_cases h0 : pdeIdx v = 0
  · rw [if_pos h0] at hd
    refine h.absent (kernelTable_aligned 768) ?_ (by decide) hd
    unfold kernelTable pageDirTablePos pteIdx
    unfold pdeIdx at h0
    omega
  · by_cases h768 : pdeIdx v < 768
    · rw [if_neg h0, if_pos h768] at hd
      unfold translate
      simp only [hd]
      exact if_neg (by decide)
    · rw [if_neg h0, if_neg h768] at hd
      refine h.absent (kernelTable_aligned _) ?_ ?_ hd
      · unfold kernelTable pageDirTablePos pteIdx
        unfold pdeIdx at *
        omega
      · unfold kernelTable pageDirTablePos
        unfold pdeIdx at *
        omega

theorem CleanTables.layout (h : CleanTables m) : BootLayout (setupPage m) := by
  have ht := setupPage_tables m
  refine ⟨?_, ?_, ?_, ht.present, ?_, ?_, ht.self.present, ht.self.own⟩
  · intro v hv
    have h0 : pdeIdx v = 0 := by unfold pdeIdx; omega
    have hi : pteIdx v < 256 := by unfold pteIdx; omega
    have hd := setupPage_pde (m := m) (v := v) (by omega)
    rw [if_pos h0] at hd
    rw [setupPage_megabyte hi hd]
    unfold pteIdx
    exact congrArg some (by omega)
  · intro v h1 h2
    have h768 : pdeIdx v = 768 := by unfold pdeIdx; omega
    have hi : pteIdx v < 256 := by unfold pteIdx; omega
    have hd := setupPage_pde (m := m) (v := v) (by omega)
    rw [h768, if_neg (by omega), if_neg (by omega), ← h768] at hd
    rw [h768] at hd
    rw [setupPage_megabyte hi (by rw [h768]; exact hd)]
    unfold pteIdx
    exact congrArg some (by omega)
  · intro v hv hlow hhigh
    exact h.nothing hv hlow hhigh
  · intro j h1 h2
    rw [ht.table j h1 h2]
    unfold kernelTable pageDirTablePos pgSize
    omega
  · intro i j h1 h2 h3 h4 e
    rw [ht.table i h1 h2, ht.table j h3 h4] at e
    exact ht.inj i j h1 h2 h3 h4 e

/-- Each word of the tables beyond the first megabyte's is the entry of an address that is to be unmapped. -/
theorem leftover_addr {a : Nat} (h1 : 0x101400 ≤ a) (h2 : a < 0x200000) (h4 : a % 4 = 0) :
    ∃ v, 0xc0100000 ≤ v ∧ v < 0xffc00000 ∧ 768 ≤ pdeIdx v ∧ kernelTable (pdeIdx v) + pteIdx v * 4 = a := by
  refine ⟨0xc0000000 + (a - 0x101000) / 4096 * 2 ^ 22 + (a - 0x101000) % 4096 / 4 * 2 ^ 12, ?_, ?_, ?_, ?_⟩
  · omega
  · omega
  · unfold pdeIdx
    omega
  · unfold kernelTable pageDirTablePos pdeIdx pteIdx
    omega

theorem BootLayout.clean (h : BootLayout (setupPage m)) : CleanTables m := by
  intro a h1 h2 h4 hp
  obtain ⟨v, hv1, hv2, hj, ha⟩ := leftover_addr h1 h2 h4
  have hd := setupPage_pde (m := m) hv2
  rw [if_neg (by omega), if_neg (by omega)] at hd
  have hnone := h.nothing v hv2 (by omega) (by omega)
  rw [setupPage_translate (kernelTable_aligned _) hd, ha, setupPage_leftover h1, if_pos hp] at hnone
  cases hnone

/-- The loader builds what it is to build exactly on memory that held no present entry there. -/
theorem setupPage_layout_iff (m : Bytes) : BootLayout (setupPage m) ↔ CleanTables m := ⟨BootLayout.clean, CleanTables.layout⟩

/-- A word 1 left where the entry of 0xc0100000 lies. -/
def staleMem : Bytes := Bytes.write32 (fun _ => 0) 0x101400 1

theorem stale_not_layout : ¬ ∀ m, BootLayout (setupPage m) := by
  intro h
  exact (h staleMem).clean 0x101400 (by decide) (by decide) (by decide) (by decide)

end TinyOs.Memory
