/-
  TinyOs.Memory.Mapping — what `page_table_add` makes present.

  A page is mapped on a frame that was free. Where its directory entry is absent, a
  frame of kernel_pool becomes the table, and as long as there is one, everything that
  becomes present names a frame that `palloc` gave (`Adds`). Two pages of one range have
  two entries, because no two entries of a directory name one table: entry 0 of the boot
  directory apart, which shares the first table of the kernel.

  `mapPages_room` is the loop of `malloc_page` with frames enough for the pages and for
  the tables they lack: it maps them all, or stops at the ASSERT on a page that was
  mapped before.
-/

import Mathlib.Data.Finset.Image
import Mathlib.Data.Finset.Range
import Mathlib.Data.Finset.Card
import TinyOs.Memory.AddressSpaces
import TinyOs.Memory.Handouts

namespace TinyOs.Memory

open TinyOs.Kernel TinyOs.Lib TinyOs.Logic

/-- Frame `f` was free in `s`, and is taken in `s'`. -/
def Handed (s s' : Mem) (f : Nat) : Prop :=
  ∃ pf i, i < s.frames pf ∧ f = (s.pool pf).frame i ∧ ¬ s.Taken pf i ∧ s'.Taken pf i

/-- What became present in the directories, and in the tables they name, names frames handed out meanwhile. -/
structure Adds (dirs : List Nat) (s s' : Mem) : Prop where
  pdeKept : ∀ d ∈ dirs, ∀ j, j < 1024 → Present (s.phys.read32 (d + j * 4)) →
    s'.phys.read32 (d + j * 4) = s.phys.read32 (d + j * 4)
  pdeNew : ∀ d ∈ dirs, ∀ j, j < 1024 → ¬ Present (s.phys.read32 (d + j * 4)) → Present (s'.phys.read32 (d + j * 4)) →
    Handed s s' (frameOf (s'.phys.read32 (d + j * 4)))
  pteKept : ∀ d ∈ dirs, ∀ va pa, va < 0xffc00000 → translate s.phys d va = some pa → translate s'.phys d va = some pa
  pteNew : ∀ d ∈ dirs, ∀ va pa, va < 0xffc00000 → translate s.phys d va = none → translate s'.phys d va = some pa →
    Handed s s' (frameOf pa)

/-- The directories with the pools behind them: the pools and their maps are apart, and no
two entries of a directory name one table. -/
structure Healthy (s : Mem) (dirs : List Nat) : Prop extends SpaceInv s dirs where
  userLow : usedMem ≤ (s.pool .user).phyAddrStart
  order : ∀ i, i < s.frames .kernel → (s.pool .kernel).frame i + pgSize ≤ (s.pool .user).phyAddrStart
  maps : ∀ x ∈ (s.pool .kernel).poolBitmap.area, x ∉ (s.pool .user).poolBitmap.area
  tables : ∀ d ∈ dirs, ∀ i j, i < j → j < 1023 → ¬ (i = 0 ∧ j = 768) →
    Present (s.phys.read32 (d + i * 4)) → Present (s.phys.read32 (d + j * 4)) →
    frameOf (s.phys.read32 (d + i * 4)) ≠ frameOf (s.phys.read32 (d + j * 4))

variable {s s' s'' : Mem} {dirs : List Nat} {d f va vb pa i : Nat} {pf : PoolFlags} {m m' : Bytes}

/-! ## Handed out -/

theorem Handed.mono (h : Handed s s' f) (hst : Stays s' s'') : Handed s s'' f := by
  obtain ⟨pf, i, hi, he, hfree, ht⟩ := h
  exact ⟨pf, i, hi, he, hfree, hst.taken ht⟩

theorem Handed.before (h : Handed s' s'' f) (hst : Stays s s') : Handed s s'' f := by
  obtain ⟨pf, i, hi, he, hfree, ht⟩ := h
  refine ⟨pf, i, ?_, ?_, ?_, ht⟩
  · rwa [hst.frames] at hi
  · rwa [hst.frame] at he
  · intro ht'
    exact hfree (hst.taken ht')

theorem Adds.trans (h : Adds dirs s s') (h' : Adds dirs s' s'') (hst : Stays s s') (hst' : Stays s' s'') :
    Adds dirs s s'' := by
  refine ⟨?_, ?_, ?_, ?_⟩
  · intro d hd j hj hp
    have he := h.pdeKept d hd j hj hp
    rw [h'.pdeKept d hd j hj (by rw [he]; exact hp), he]
  · intro d hd j hj hp hp'
    by_cases hmid : Present (s'.phys.read32 (d + j * 4))
    · rw [h'.pdeKept d hd j hj hmid]
      exact (h.pdeNew d hd j hj hp hmid).mono hst'
    · exact (h'.pdeNew d hd j hj hmid hp').before hst
  · intro d hd va pa hv ht
    exact h'.pteKept d hd va pa hv (h.pteKept d hd va pa hv ht)
  · intro d hd va pa hv ht ht'
    cases hmid : translate s'.phys d va with
    | none => exact (h'.pteNew d hd va pa hv hmid ht').before hst
    | some pa' =>
      have he := h'.pteKept d hd va pa' hv hmid
      rw [he] at ht'
      cases ht'
      exact (h.pteNew d hd va pa hv ht hmid).mono hst'

/-- Where no walk changes, nothing is added. -/
theorem Adds.same (hp : ∀ d ∈ dirs, ∀ j, j < 1024 → s'.phys.read32 (d + j * 4) = s.phys.read32 (d + j * 4))
    (ht : ∀ d ∈ dirs, ∀ va, va < 0xffc00000 → translate s'.phys d va = translate s.phys d va) : Adds dirs s s' := by
  refine ⟨?_, ?_, ?_, ?_⟩
  · intro d hd j hj _
    exact hp d hd j hj
  · intro d hd j hj hno hyes
    rw [hp d hd j hj] at hyes
    exact absurd hyes hno
  · intro d hd va pa hv h
    rw [ht d hd va hv]
    exact h
  · intro d hd va pa hv hnone hsome
    rw [ht d hd va hv, hnone] at hsome
    cases hsome

/-! ## Walks -/

theorem translate_absent (h : ¬ Present (m.read32 (d + pdeIdx va * 4))) : translate m d va = none := by
  unfold translate
  exact if_neg h

theorem translate_table (h : Present (m.read32 (d + pdeIdx va * 4))) :
    translate m d va =
      if Present (m.read32 (pteAt m d va)) then some (frameOf (m.read32 (pteAt m d va)) + va % 2 ^ 12) else none := by
  unfold translate pteAt
  simp only [if_pos h]

theorem pteAt_congr (hd : m'.read32 (d + pdeIdx va * 4) = m.read32 (d + pdeIdx va * 4)) : pteAt m' d va = pteAt m d va := by
  unfold pteAt
  rw [hd]

/-- The walk reads the directory entry, and the table's where that is present. -/
theorem translate_same (hd : m'.read32 (d + pdeIdx va * 4) = m.read32 (d + pdeIdx va * 4))
    (ht : Present (m.read32 (d + pdeIdx va * 4)) → m'.read32 (pteAt m d va) = m.read32 (pteAt m d va)) :
    translate m' d va = translate m d va := by
  by_cases hp : Present (m.read32 (d + pdeIdx va * 4))
  · rw [translate_table hp, translate_table (by rw [hd]; exact hp), pteAt_congr hd, ht hp]
  · rw [translate_absent hp, translate_absent (by rw [hd]; exact hp)]

theorem pteAt_word (m : Bytes) (d va : Nat) :
    Bytes.word (pteAt m d va) ⊆ frame (frameOf (m.read32 (d + pdeIdx va * 4))) := by
  have := pteIdx_lt va
  unfold pteAt
  exact Set.Ico_subset_Ico (by omega) (by omega)

theorem pdeIdx_lt_window (hv : va < 0xffc00000) : pdeIdx va < 1023 := by
  unfold pdeIdx
  omega

/-- A known frame lies below the user pool. -/
theorem Healthy.below (h : Healthy s dirs) (hk : Known s f) : f + pgSize ≤ (s.pool .user).phyAddrStart := by
  rcases hk.2 with hlow | ⟨i, hi, rfl, -⟩
  · exact Nat.le_trans hlow h.userLow
  · exact h.order i hi

/-- What an entry below the self map names: a known frame that is no directory. -/
theorem SpaceInv.table (h : SpaceInv s dirs) (hd : d ∈ dirs) {j : Nat} (hj : j < 1023)
    (hp : Present (s.phys.read32 (d + j * 4))) :
    Known s (frameOf (s.phys.read32 (d + j * 4))) ∧ frameOf (s.phys.read32 (d + j * 4)) ∉ dirs := by
  by_cases hu : j < 768
  · exact h.user d hd j hu hp
  · have hal := kernelTable_aligned j
    rw [h.kernel d hd j (by omega) hj, frameOf_or_attr hal]
    refine ⟨⟨hal, .inl ?_⟩, ?_⟩
    · unfold kernelTable pageDirTablePos usedMem pgSize
      omega
    · intro hm
      exact h.apart _ hm j (by omega) hj rfl

/-! ## One entry written -/

/-- No directory lies in the table that is written through the directory `c`. -/
theorem write_pte_pde {c : Nat} (hd : d % 4096 = 0) (hne : frameOf (m.read32 (c + pdeIdx va * 4)) ≠ d) (v : Nat) {j : Nat}
    (hj : j < 1024) : (m.write32 (pteAt m c va) v).read32 (d + j * 4) = m.read32 (d + j * 4) :=
  Bytes.read32_congr fun _ hx => Bytes.write32_of_notMem fun hx' =>
    frame_apart hd (frameOf_mod _) hne.symm (pde_word_subset hj hx) (pteAt_word _ _ _ hx')

/-- The walks that do not read the entry. -/
theorem write_pte_other {c : Nat} (hd : d % 4096 = 0) (hne : frameOf (m.read32 (c + pdeIdx va * 4)) ≠ d) (v : Nat)
    (hvb : vb < 2 ^ 32) (hap : Present (m.read32 (d + pdeIdx vb * 4)) → pteAt m d vb ≠ pteAt m c va) :
    translate (m.write32 (pteAt m c va) v) d vb = translate m d vb := by
  refine translate_same (write_pte_pde hd hne v (pdeIdx_lt hvb)) ?_
  intro hpb
  have hap := hap hpb
  have h1 := frameOf_mod (m.read32 (d + pdeIdx vb * 4))
  have h2 := frameOf_mod (m.read32 (c + pdeIdx va * 4))
  unfold pteAt at hap ⊢
  exact Bytes.read32_write32_of_disjoint (by omega)

/-- And those that do. -/
theorem write_pte_same {c : Nat} (hd : d % 4096 = 0) (hne : frameOf (m.read32 (c + pdeIdx va * 4)) ≠ d) (hal : f % 4096 = 0)
    (hflt : f ||| pgAttr < 2 ^ 32) (hvb : vb < 2 ^ 32) (hpb : Present (m.read32 (d + pdeIdx vb * 4)))
    (he : pteAt m d vb = pteAt m c va) :
    translate (m.write32 (pteAt m c va) (f ||| pgAttr)) d vb = some (f + vb % 2 ^ 12) := by
  have hpde := write_pte_pde hd hne (f ||| pgAttr) (pdeIdx_lt hvb)
  rw [translate_table (by rw [hpde]; exact hpb), pteAt_congr hpde, he, Bytes.read32_write32 _ _ hflt,
    if_pos (present_or_attr hal), frameOf_or_attr hal]

/-- The table of an address below the self map is no directory. -/
theorem SpaceInv.table_ne (h : SpaceInv s dirs) (hd : s.cr3 ∈ dirs) (hv : va < 0xffc00000)
    (hp : Present (s.phys.read32 (s.cr3 + pdeIdx va * 4))) (hdm : d ∈ dirs) :
    frameOf (s.phys.read32 (s.cr3 + pdeIdx va * 4)) ≠ d := fun e => (h.table hd (pdeIdx_lt_window hv) hp).2 (e ▸ hdm)

/-! ## A table made -/

/-- Frame `f` has become the table of `va` in the active directory, with one entry that names frame `pa`. -/
structure Made (s : Mem) (va f pa : Nat) (m : Bytes) : Prop where
  inside : ∀ k, k < 1024 → m.read32 (f + k * 4) = if k = pteIdx va then pa ||| pgAttr else 0
  outside : ∀ x, x ∉ frame f → m x = s.phys.write32 (s.cr3 + pdeIdx va * 4) (f ||| pgAttr) x

theorem Made.of_store (hlt : pa ||| pgAttr < 2 ^ 32) (hzero : ∀ x ∈ frame f, m x = 0)
    (hout : ∀ x, x ∉ frame f → m x = s.phys.write32 (s.cr3 + pdeIdx va * 4) (f ||| pgAttr) x) :
    Made s va f pa (m.write32 (f + pteIdx va * 4) (pa ||| pgAttr)) := by
  have hi := pteIdx_lt va
  refine ⟨fun k hk => ?_, fun x hx => ?_⟩
  · split
    · next e => rw [e, Bytes.read32_write32 _ _ hlt]
    · next e =>
      rw [Bytes.read32_write32_of_disjoint (by omega)]
      exact Bytes.read32_of_zero fun x hx => hzero x (Set.Ico_subset_Ico (by omega) (by omega) hx)
  · rw [Bytes.write32_of_notMem fun hx' => hx (Set.Ico_subset_Ico (by omega) (by omega) hx'), hout x hx]

/-- The entries of a directory in another frame: one is new. -/
theorem Made.entry (hm : Made s va f pa m) (hc : s.cr3 % 4096 = 0) (hv : va < 2 ^ 32) (hal : f % 4096 = 0)
    (hflt : f ||| pgAttr < 2 ^ 32) (hd : d % 4096 = 0) (hne : f ≠ d) {k : Nat} (hk : k < 1024) :
    m.read32 (d + k * 4) = if d = s.cr3 ∧ k = pdeIdx va then f ||| pgAttr else s.phys.read32 (d + k * 4) :=
  newTable_entry hc hd hal hne hflt hm.outside (pdeIdx_lt hv) hk

/-- Walks through the new table. -/
theorem Made.here (hm : Made s va f pa m) (hc : s.cr3 % 4096 = 0) (hv : va < 2 ^ 32) (hal : f % 4096 = 0)
    (hflt : f ||| pgAttr < 2 ^ 32) (hne : f ≠ s.cr3) (hpa : pa % 4096 = 0) (he : pdeIdx vb = pdeIdx va) :
    translate m s.cr3 vb = if pteIdx vb = pteIdx va then some (pa + vb % 2 ^ 12) else none := by
  have hpde := hm.entry hc hv hal hflt hc hne (pdeIdx_lt hv)
  rw [if_pos ⟨rfl, rfl⟩, ← he] at hpde
  have hat : pteAt m s.cr3 vb = f + pteIdx vb * 4 := by
    unfold pteAt
    rw [hpde, frameOf_or_attr hal]
  rw [translate_table (by rw [hpde]; exact present_or_attr hal), hat, hm.inside _ (pteIdx_lt vb)]
  by_cases e : pteIdx vb = pteIdx va
  · rw [if_pos e, if_pos e, if_pos (present_or_attr hpa), frameOf_or_attr hpa]
  · rw [if_neg e, if_neg e]
    exact if_neg (by decide)

/-- A walk that reads neither the new entry nor the new table, which was no table of its directory before. -/
theorem Made.other (hm : Made s va f pa m) (hc : s.cr3 % 4096 = 0) (hv : va < 2 ^ 32) (hal : f % 4096 = 0)
    (hflt : f ||| pgAttr < 2 ^ 32) (hd : d % 4096 = 0) (hne : f ≠ d) (hvb : vb < 2 ^ 32)
    (hno : ¬ (d = s.cr3 ∧ pdeIdx vb = pdeIdx va))
    (htab : Present (s.phys.read32 (d + pdeIdx vb * 4)) →
      frameOf (s.phys.read32 (d + pdeIdx vb * 4)) ≠ f ∧ frameOf (s.phys.read32 (d + pdeIdx vb * 4)) ≠ s.cr3) :
    translate m d vb = translate s.phys d vb := by
  have hpde := hm.entry hc hv hal hflt hd hne (pdeIdx_lt hvb)
  rw [if_neg hno] at hpde
  refine translate_same hpde ?_
  intro hp
  obtain ⟨hf, hcr3⟩ := htab hp
  have htal := frameOf_mod (s.phys.read32 (d + pdeIdx vb * 4))
  refine Bytes.read32_congr fun x hx => ?_
  have hx := pteAt_word _ _ _ hx
  rw [hm.outside x (frame_apart htal hal hf hx)]
  exact Bytes.write32_of_notMem fun hx' => frame_apart htal hc hcr3 hx (pde_word_subset (pdeIdx_lt hv) hx')

/-! ## The invariant is kept -/

theorem Healthy.stays (h : Healthy s dirs) (hst : Stays s s') (he : ∀ d ∈ dirs, Set.EqOn s'.phys s.phys (frame d)) :
    Healthy s' dirs := by
  have hw : ∀ d ∈ dirs, ∀ j, j < 1024 → s'.phys.read32 (d + j * 4) = s.phys.read32 (d + j * 4) := fun d hd j hj =>
    Bytes.read32_congr ((he d hd).mono (pde_word_subset hj))
  refine ⟨h.toSpaceInv.stays hst he, ?_, ?_, ?_, ?_⟩
  · rw [hst.start]
    exact h.userLow
  · intro i hi
    rw [hst.frames] at hi
    rw [hst.frame, hst.start]
    exact h.order i hi
  · rw [hst.bitmap, hst.bitmap]
    exact h.maps
  · intro d hd i j hij hj hne
    rw [hw d hd i (by omega), hw d hd j (by omega)]
    exact h.tables d hd i j hij hj hne

/-- A frame that was not known before has become a table. -/
theorem Healthy.made (h : Healthy s dirs) (hd : s.cr3 ∈ dirs) (hv : va < 0xc0000000) (hst : Stays s s')
    (hphys : s'.phys = s.phys) (hk : Known s' f) (hfresh : ∀ g, Known s g → g ≠ f) (hflt : f ||| pgAttr < 2 ^ 32)
    (hm : Made s va f pa m) : Healthy { s' with phys := m } dirs := by
  have hne : f ∉ dirs := fun hm => hfresh f (h.known f hm) rfl
  have h' := h.stays hst fun d _ x _ => by rw [hphys]
  have hj : pdeIdx va < 768 := by unfold pdeIdx; omega
  have hinv : SpaceInv { s' with phys := m } dirs :=
    h'.toSpaceInv.newTable (by rw [hst.cr3]; exact hd) hj hk hne hflt fun x hx => by rw [hm.outside x hx, hphys, hst.cr3]
  refine ⟨hinv, h'.userLow, h'.order, h'.maps, ?_⟩
  intro d hdm i j hij hj1 hne2 hi hj2
  have hi : Present (m.read32 (d + i * 4)) := hi
  have hj2 : Present (m.read32 (d + j * 4)) := hj2
  show frameOf (m.read32 (d + i * 4)) ≠ frameOf (m.read32 (d + j * 4))
  have hpde : ∀ k, k < 1024 → m.read32 (d + k * 4) =
      if d = s.cr3 ∧ k = pdeIdx va then f ||| pgAttr else s.phys.read32 (d + k * 4) := fun k hlt =>
    hm.entry (h.known _ hd).1 (by omega) hk.1 hflt (h.known d hdm).1 (fun e => hne (e ▸ hdm)) hlt
  rw [hpde i (by omega)] at hi ⊢
  rw [hpde j (by omega)] at hj2 ⊢
  by_cases hi' : d = s.cr3 ∧ i = pdeIdx va
  · -- the other entry names a table that was known before
    have hj' : ¬ (d = s.cr3 ∧ j = pdeIdx va) := by omega
    rw [if_neg hj'] at hj2 ⊢
    rw [if_pos hi', frameOf_or_attr hk.1]
    exact (hfresh _ (h.table hdm hj1 hj2).1).symm
  · rw [if_neg hi'] at hi ⊢
    by_cases hj' : d = s.cr3 ∧ j = pdeIdx va
    · rw [if_pos hj', frameOf_or_attr hk.1]
      exact hfresh _ (h.table hdm (by omega) hi).1
    · rw [if_neg hj'] at hj2 ⊢
      exact h.tables d hdm i j hij hj1 hne2 hi hj2

/-! ## Frames and tables to spare -/

instance (s : Mem) (pf : PoolFlags) (i : Nat) : Decidable (s.Taken pf i) :=
  inferInstanceAs (Decidable ((s.pool pf).poolBitmap.Used s.data i))

/-- The frames a pool has left. -/
def Mem.free (s : Mem) (pf : PoolFlags) : Finset Nat := (Finset.range (s.frames pf)).filter fun i => ¬ s.Taken pf i

/-- The tables that `n` pages from `va` lack. -/
def Mem.lacking (s : Mem) (va n : Nat) : Finset Nat :=
  ((Finset.range n).image fun i => pdeIdx (va + i * pgSize)).filter fun j => ¬ Present (s.phys.read32 (s.cr3 + j * 4))

/-- Frames enough for `n` pages from `va`, and for their tables, which come from kernel_pool. -/
def Mem.Enough (s : Mem) (va n : Nat) : PoolFlags → Prop
  | .user => n ≤ (s.free .user).card ∧ (s.lacking va n).card ≤ (s.free .kernel).card
  | .kernel => n + (s.lacking va n).card ≤ (s.free .kernel).card

theorem mem_free : i ∈ s.free pf ↔ i < s.frames pf ∧ ¬ s.Taken pf i := by
  unfold Mem.free
  rw [Finset.mem_filter, Finset.mem_range]

theorem free_take (s : Mem) (pf : PoolFlags) (i : Nat) : (s.take pf i).free pf = (s.free pf).erase i := by
  ext j
  rw [Finset.mem_erase, mem_free, mem_free]
  have hu : (s.take pf i).Taken pf j ↔ s.Taken pf j ∨ j = i := used_mark
  have hf : (s.take pf i).frames pf = s.frames pf := rfl
  rw [hu, hf]
  tauto

/-- A frame taken from one pool leaves the other as it was. -/
theorem Healthy.free_take_other (h : Healthy s dirs) {pf q : PoolFlags} (hne : q ≠ pf) (hi : i < s.frames pf) :
    (s.take pf i).free q = s.free q := by
  have hd : ∀ x ∈ (s.pool pf).poolBitmap.area, x ∉ (s.pool q).poolBitmap.area := by
    cases pf <;> cases q
    · exact absurd rfl hne
    · exact h.maps
    · exact fun x hx hx' => h.maps x hx' hx
    · exact absurd rfl hne
  ext j
  rw [mem_free, mem_free]
  have hf : (s.take pf i).frames q = s.frames q := rfl
  rw [hf]
  refine and_congr_right fun hj => not_congr ?_
  exact used_congr (mark_eqOn s.data hi hd) hj

theorem card_free_take (h : i ∈ s.free pf) : ((s.take pf i).free pf).card + 1 = (s.free pf).card := by
  rw [free_take, Finset.card_erase_of_mem h]
  have := Finset.card_pos.mpr ⟨i, h⟩
  omega

theorem Healthy.count_take (h : Healthy s dirs) (hi : i < s.frames pf) (hfree : ¬ s.Taken pf i) (q : PoolFlags) :
    (s.free q).card = ((s.take pf i).free q).card + if q = pf then 1 else 0 := by
  by_cases e : q = pf
  · subst e
    rw [if_pos rfl]
    exact (card_free_take (mem_free.mpr ⟨hi, hfree⟩)).symm
  · rw [if_neg e, h.free_take_other e hi, Nat.add_zero]

/-! ## One page -/

/-- The page of `va`, mapped on frame `f` of a pool: from `s` to `s'`. -/
structure Paged (dirs : List Nat) (va f : Nat) (pf : PoolFlags) (s s' : Mem) : Prop where
  kept : Kept s s'
  healthy : Healthy s' dirs
  adds : Adds dirs s s'
  here : ∀ x, x / 4096 = va / 4096 → translate s'.phys s.cr3 x = some (f + x % 2 ^ 12)
  /-- Pages that can lie in one range with this one. -/
  other : ∀ x, x < 0xffc00000 → x / 4096 ≠ va / 4096 → x < va + 2 ^ 24 → va < x + 2 ^ 24 →
    translate s'.phys s.cr3 x = translate s.phys s.cr3 x
  dir : ∀ k, k < 1024 → (Present (s'.phys.read32 (s.cr3 + k * 4)) ↔
    Present (s.phys.read32 (s.cr3 + k * 4)) ∨ k = pdeIdx va)
  count : ∀ q, (s.free q).card = (s'.free q).card + (if q = pf then 1 else 0) +
    if q = .kernel ∧ ¬ Present (s.phys.read32 (s.cr3 + pdeIdx va * 4)) then 1 else 0

theorem frameOf_add (h : f % 4096 = 0) {o : Nat} (ho : o < 2 ^ 12) : frameOf (f + o) = f := by
  unfold frameOf
  omega

theorem same_page (h : va / 4096 = vb / 4096) : pdeIdx va = pdeIdx vb ∧ pteIdx va = pteIdx vb := by
  unfold pdeIdx pteIdx
  omega

theorem other_page (h : va / 4096 ≠ vb / 4096) (he : pdeIdx va = pdeIdx vb) : pteIdx va ≠ pteIdx vb := by
  unfold pdeIdx pteIdx at *
  omega

/-- Two pages of one range have two entries. -/
theorem Healthy.entry_ne (h : Healthy s dirs) (hd : d ∈ dirs) (ha : va < 0xffc00000) (hb : vb < 0xffc00000)
    (hne : va / 4096 ≠ vb / 4096) (h1 : va < vb + 2 ^ 24) (h2 : vb < va + 2 ^ 24)
    (hpa : Present (s.phys.read32 (d + pdeIdx va * 4))) (hpb : Present (s.phys.read32 (d + pdeIdx vb * 4))) :
    pteAt s.phys d va ≠ pteAt s.phys d vb := by
  have hma := frameOf_mod (s.phys.read32 (d + pdeIdx va * 4))
  have hmb := frameOf_mod (s.phys.read32 (d + pdeIdx vb * 4))
  have hia := pteIdx_lt va
  have hib := pteIdx_lt vb
  have hla := pdeIdx_lt_window ha
  have hlb := pdeIdx_lt_window hb
  by_cases e : pdeIdx va = pdeIdx vb
  · have := other_page hne e
    unfold pteAt
    rw [e]
    omega
  · have hfar : ¬ (pdeIdx va = 0 ∧ pdeIdx vb = 768) ∧ ¬ (pdeIdx vb = 0 ∧ pdeIdx va = 768) := by
      unfold pdeIdx
      omega
    have hframe : frameOf (s.phys.read32 (d + pdeIdx va * 4)) ≠ frameOf (s.phys.read32 (d + pdeIdx vb * 4)) := by
      rcases Nat.lt_or_gt_of_ne e with hlt | hlt
      · exact h.tables d hd _ _ hlt hlb hfar.1 hpa hpb
      · exact (h.tables d hd _ _ hlt hla hfar.2 hpb hpa).symm
    unfold pteAt
    omega

/-- The table exists: one entry of it is written. -/
theorem Healthy.page_present (h : Healthy s dirs) (hd : s.cr3 ∈ dirs) (hv : va < 0xffc00000) (hi : i < s.frames pf)
    (hfree : ¬ s.Taken pf i) (hp : Present (s.phys.read32 (s.cr3 + pdeIdx va * 4)))
    (habs : ¬ Present (s.phys.read32 (pteAt s.phys s.cr3 va))) :
    Paged dirs va ((s.pool pf).frame i) pf s
      { s.take pf i with phys := s.phys.write32 (pteAt s.phys s.cr3 va) ((s.pool pf).frame i ||| pgAttr) } := by
  have hal := (s.pool pf).frame_aligned i
  have hflt := or_attr_lt hal ((s.pool pf).frame_lt hi)
  have hk := (take_kept s pf i).trans (kept_phys (s.take pf i)
    (s.phys.write32 (pteAt s.phys s.cr3 va) ((s.pool pf).frame i ||| pgAttr)))
  have hinv := h.toSpaceInv
  have hpde : ∀ d ∈ dirs, ∀ j, j < 1024 → (s.phys.write32 (pteAt s.phys s.cr3 va) ((s.pool pf).frame i ||| pgAttr)).read32
      (d + j * 4) = s.phys.read32 (d + j * 4) := fun d hdm j hj =>
    write_pte_pde (h.known d hdm).1 (hinv.table_ne hd hv hp hdm) _ hj
  have hnone : ∀ {d x : Nat}, Present (s.phys.read32 (d + pdeIdx x * 4)) → pteAt s.phys d x = pteAt s.phys s.cr3 va →
      translate s.phys d x = none := fun hpx he => by
    rw [translate_table hpx, he]
    exact if_neg habs
  refine ⟨hk, h.stays hk.stays ?_, ⟨?_, ?_, ?_, ?_⟩, ?_, ?_, ?_, ?_⟩
  · intro d hdm x hx
    obtain ⟨hT, hnot⟩ := hinv.table hd (pdeIdx_lt_window hv) hp
    refine Bytes.write32_of_notMem fun hx' => ?_
    exact frame_apart (h.known d hdm).1 hT.1 (fun e => hnot (e ▸ hdm)) hx (pteAt_word _ _ _ hx')
  · intro d hdm j hj _
    exact hpde d hdm j hj
  · intro d hdm j hj hno hyes
    rw [show Mem.phys _ = _ from rfl, hpde d hdm j hj] at hyes
    exact absurd hyes hno
  · intro d hdm x pa hx ht
    refine (write_pte_other (h.known d hdm).1 (hinv.table_ne hd hv hp hdm) _ (by omega) ?_).trans ht
    intro hpx he
    rw [hnone hpx he] at ht
    cases ht
  · intro d hdm x pa hx ht ht'
    by_cases he : Present (s.phys.read32 (d + pdeIdx x * 4)) ∧ pteAt s.phys d x = pteAt s.phys s.cr3 va
    · have hsome := write_pte_same (h.known d hdm).1 (hinv.table_ne hd hv hp hdm) hal hflt (by omega) he.1 he.2
      rw [show Mem.phys _ = _ from rfl, hsome] at ht'
      cases ht'
      rw [frameOf_add hal (Nat.mod_lt _ (by omega))]
      exact ⟨pf, i, hi, rfl, hfree, used_mark.mpr (.inr rfl)⟩
    · have hsame := write_pte_other (h.known d hdm).1 (hinv.table_ne hd hv hp hdm) ((s.pool pf).frame i ||| pgAttr)
        (by omega) fun hpx e => he ⟨hpx, e⟩
      rw [show Mem.phys _ = _ from rfl, hsame, ht] at ht'
      cases ht'
  · intro x he
    obtain ⟨h1, h2⟩ := same_page he
    have hvx : x < 2 ^ 32 := by omega
    refine write_pte_same (h.known _ hd).1 (hinv.table_ne hd hv hp hd) hal hflt hvx (by rw [h1]; exact hp) ?_
    unfold pteAt
    rw [h1, h2]
  · intro x hx hne h1 h2
    exact write_pte_other (h.known _ hd).1 (hinv.table_ne hd hv hp hd) _ (by omega) fun hpx =>
      h.entry_ne hd hx hv hne h1 h2 hpx hp
  · intro k hlt
    rw [show Mem.phys _ = _ from rfl, hpde _ hd k hlt]
    constructor
    · exact .inl
    · intro hor
      rcases hor with h | rfl
      · exact h
      · exact hp
  · intro q
    rw [if_neg (show ¬ (q = .kernel ∧ ¬ Present (s.phys.read32 (s.cr3 + pdeIdx va * 4))) from fun e => e.2 hp), Nat.add_zero]
    exact h.count_take hi hfree q

/-! The table is made first, in a frame `c` of kernel_pool. -/

section Table

variable {c pa : Nat}

/-- A free frame is no directory and no table. -/
theorem Healthy.unknown (h : Healthy s dirs) (hfree : ¬ s.Taken .kernel c) {x : Nat} (hx : Known s x) :
    (s.pool .kernel).frame c ≠ x := (hx.ne_free h.pool hfree).symm

theorem Healthy.made_entry (h : Healthy s dirs) (hd : s.cr3 ∈ dirs) (hv : va < 2 ^ 32) (hc : c < s.frames .kernel)
    (hfree : ¬ s.Taken .kernel c) (hm : Made s va ((s.pool .kernel).frame c) pa m) {k : Nat} (hdm : d ∈ dirs) (hk : k < 1024) :
    m.read32 (d + k * 4) =
      if d = s.cr3 ∧ k = pdeIdx va then (s.pool .kernel).frame c ||| pgAttr else s.phys.read32 (d + k * 4) := by
  have hal := (s.pool .kernel).frame_aligned c
  have hlt := or_attr_lt hal ((s.pool .kernel).frame_lt hc)
  exact hm.entry (h.known _ hd).1 hv hal hlt (h.known d hdm).1 (h.unknown hfree (h.known d hdm)) hk

theorem Healthy.made_here (h : Healthy s dirs) (hd : s.cr3 ∈ dirs) (hv : va < 2 ^ 32) (hc : c < s.frames .kernel)
    (hfree : ¬ s.Taken .kernel c) (hm : Made s va ((s.pool .kernel).frame c) pa m) (hpa : pa % 4096 = 0) {x : Nat}
    (he : pdeIdx x = pdeIdx va) :
    translate m s.cr3 x = if pteIdx x = pteIdx va then some (pa + x % 2 ^ 12) else none := by
  have hal := (s.pool .kernel).frame_aligned c
  have hlt := or_attr_lt hal ((s.pool .kernel).frame_lt hc)
  exact hm.here (h.known _ hd).1 hv hal hlt (h.unknown hfree (h.known _ hd)) hpa he

theorem Healthy.made_other (h : Healthy s dirs) (hd : s.cr3 ∈ dirs) (hv : va < 2 ^ 32) (hc : c < s.frames .kernel)
    (hfree : ¬ s.Taken .kernel c) (hm : Made s va ((s.pool .kernel).frame c) pa m) {x : Nat} (hdm : d ∈ dirs)
    (hx : x < 0xffc00000) (hno : ¬ (d = s.cr3 ∧ pdeIdx x = pdeIdx va)) : translate m d x = translate s.phys d x := by
  have hal := (s.pool .kernel).frame_aligned c
  have hlt := or_attr_lt hal ((s.pool .kernel).frame_lt hc)
  refine hm.other (h.known _ hd).1 hv hal hlt (h.known d hdm).1 (h.unknown hfree (h.known d hdm)) (by omega) hno fun hpx => ?_
  obtain ⟨hT, hnot⟩ := h.toSpaceInv.table hdm (pdeIdx_lt_window hx) hpx
  exact ⟨(h.unknown hfree hT).symm, fun e => hnot (e ▸ hd)⟩

theorem Healthy.made_adds (h : Healthy s dirs) (hd : s.cr3 ∈ dirs) (hv : va < 2 ^ 32) (hi : i < s.frames pf)
    (hfree : ¬ s.Taken pf i) (hc : c < s.frames .kernel) (hcfree : ¬ s.Taken .kernel c)
    (hp : ¬ Present (s.phys.read32 (s.cr3 + pdeIdx va * 4)))
    (hm : Made s va ((s.pool .kernel).frame c) ((s.pool pf).frame i) m) :
    Adds dirs s { (s.take pf i).take .kernel c with phys := m } := by
  have hal := (s.pool pf).frame_aligned i
  have hcal := (s.pool .kernel).frame_aligned c
  refine ⟨?_, ?_, ?_, ?_⟩
  · intro d hdm j hj hyes
    refine (h.made_entry hd hv hc hcfree hm hdm hj).trans (if_neg ?_)
    intro e
    rw [e.1, e.2] at hyes
    exact hp hyes
  · intro d hdm j hj hno hyes
    have hyes : Present (m.read32 (d + j * 4)) := hyes
    show Handed _ _ (frameOf (m.read32 (d + j * 4)))
    rw [h.made_entry hd hv hc hcfree hm hdm hj] at hyes ⊢
    split at hyes
    · next e =>
      rw [if_pos e, frameOf_or_attr hcal]
      exact ⟨.kernel, c, hc, rfl, hcfree, used_mark.mpr (.inr rfl)⟩
    · exact absurd hyes hno
  · intro d hdm x pa hx ht
    by_cases e : d = s.cr3 ∧ pdeIdx x = pdeIdx va
    · rw [e.1, translate_absent (by rw [e.2]; exact hp)] at ht
      cases ht
    · exact (h.made_other hd hv hc hcfree hm hdm hx e).trans ht
  · intro d hdm x pa hx ht ht'
    have ht' : translate m d x = some pa := ht'
    by_cases e : d = s.cr3 ∧ pdeIdx x = pdeIdx va
    · rw [e.1, h.made_here hd hv hc hcfree hm hal e.2] at ht'
      split at ht'
      · cases ht'
        rw [frameOf_add hal (Nat.mod_lt _ (by omega))]
        exact ⟨pf, i, hi, rfl, hfree, (take_kept _ _ _).stays.taken (used_mark.mpr (.inr rfl))⟩
      · cases ht'
    · rw [h.made_other hd hv hc hcfree hm hdm hx e, ht] at ht'
      cases ht'

theorem Healthy.page_absent (h : Healthy s dirs) (hd : s.cr3 ∈ dirs) (hv : va < 0xc0000000) (hi : i < s.frames pf)
    (hfree : ¬ s.Taken pf i) (hc : c < s.frames .kernel) (hcfree : ¬ (s.take pf i).Taken .kernel c)
    (hp : ¬ Present (s.phys.read32 (s.cr3 + pdeIdx va * 4)))
    (hm : Made s va ((s.pool .kernel).frame c) ((s.pool pf).frame i) m) :
    Paged dirs va ((s.pool pf).frame i) pf s { (s.take pf i).take .kernel c with phys := m } := by
  have hal := (s.pool pf).frame_aligned i
  have hcal := (s.pool .kernel).frame_aligned c
  have hst := ((take_kept s pf i).trans (take_kept (s.take pf i) .kernel c)).stays
  have hk := ((take_kept s pf i).trans (take_kept (s.take pf i) .kernel c)).trans (kept_phys _ m)
  have hcfree0 : ¬ s.Taken .kernel c := fun ht => hcfree ((take_kept s pf i).stays.taken ht)
  have hknown : Known ((s.take pf i).take .kernel c) ((s.pool .kernel).frame c) :=
    ⟨hcal, .inr ⟨c, hc, rfl, used_mark.mpr (.inr rfl)⟩⟩
  have hlt := or_attr_lt hcal ((s.pool .kernel).frame_lt hc)
  have hv' : va < 2 ^ 32 := by omega
  have hnone : ∀ x, pdeIdx x = pdeIdx va → translate s.phys s.cr3 x = none := fun x he =>
    translate_absent (by rw [he]; exact hp)
  refine ⟨hk, h.made hd hv hst rfl hknown (fun _ hx => (h.unknown hcfree0 hx).symm) hlt hm,
    h.made_adds hd hv' hi hfree hc hcfree0 hp hm, ?_, ?_, ?_, ?_⟩
  · intro x he
    obtain ⟨h1, h2⟩ := same_page he
    exact (h.made_here hd hv' hc hcfree0 hm hal h1).trans (if_pos h2)
  · intro x hx hx' _ _
    by_cases e : pdeIdx x = pdeIdx va
    · exact ((h.made_here hd hv' hc hcfree0 hm hal e).trans (if_neg (other_page hx' e))).trans (hnone x e).symm
    · exact h.made_other hd hv' hc hcfree0 hm hd hx fun h => e h.2
  · intro k hlt
    show Present (m.read32 _) ↔ _
    rw [h.made_entry hd hv' hc hcfree0 hm hd hlt]
    by_cases e : k = pdeIdx va
    · rw [if_pos ⟨rfl, e⟩]
      exact iff_of_true (present_or_attr hcal) (.inr e)
    · rw [if_neg fun h => e h.2]
      simp only [e, or_false]
  · intro q
    have h1 := h.count_take hi hfree q
    have h2 := (h.stays (take_kept s pf i).stays fun d _ x _ => rfl).count_take hc hcfree q
    have hiff : (q = .kernel ∧ ¬ Present (s.phys.read32 (s.cr3 + pdeIdx va * 4))) ↔ q = .kernel := and_iff_left hp
    simp only [hiff]
    show (s.free q).card = (((s.take pf i).take .kernel c).free q).card + _ + _
    omega

end Table

/-- With a frame left for a table that is missing, `page_table_add` maps the page, or finds it mapped. -/
theorem Healthy.page (h : Healthy s dirs) (hd : s.cr3 ∈ dirs) (hv : va < 0xffc00000) (hi : i < s.frames pf)
    (hfree : ¬ s.Taken pf i)
    (hroom : ¬ Present (s.phys.read32 (s.cr3 + pdeIdx va * 4)) → ∃ c, c ∈ (s.take pf i).free .kernel) :
    translate s.phys s.cr3 va ≠ none ∧
        pageTableAdd va ((s.pool pf).frame i) (s.take pf i) = .error (.assert .tableAddPte) ∨
      ∃ s', pageTableAdd va ((s.pool pf).frame i) (s.take pf i) = .ok s' ∧
        Paged dirs va ((s.pool pf).frame i) pf s s' := by
  have hself := (h.dir hd).self
  by_cases hp : Present (s.phys.read32 (s.cr3 + pdeIdx va * 4))
  · have hadd := pageTableAdd_present (s := s.take pf i) ((s.pool pf).frame i) hself (by omega) hp
    have hadd : pageTableAdd va ((s.pool pf).frame i) (s.take pf i) = (do
        assert (¬ Present (s.phys.read32 (pteAt s.phys s.cr3 va))) .tableAddPte
        .ok { s.take pf i with phys := s.phys.write32 (pteAt s.phys s.cr3 va) ((s.pool pf).frame i ||| pgAttr) }) := hadd
    by_cases hpte : Present (s.phys.read32 (pteAt s.phys s.cr3 va))
    · refine .inl ⟨?_, ?_⟩
      · rw [translate_table hp, if_pos hpte]
        exact Option.some_ne_none _
      · rw [hadd, decide_eq_false (not_not.mpr hpte)]
        rfl
    · refine .inr ⟨_, ?_, h.page_present hd hv hi hfree hp hpte⟩
      rw [hadd, decide_eq_true hpte]
      rfl
  · -- only user tables can be missing
    have hlow : va < 0xc0000000 := by
      by_contra hge
      obtain ⟨h1, h2⟩ := KernelAddr.pdeIdx ⟨by omega, hv⟩
      rw [h.kernel _ hd _ h1 h2] at hp
      exact hp (present_or_attr (kernelTable_aligned _))
    rcases palloc_cases .kernel (s.take pf i) with ⟨-, hall⟩ | ⟨c, hc, hcfree, -, hpal⟩
    · obtain ⟨c, hc⟩ := hroom hp
      obtain ⟨hc, hcfree⟩ := mem_free.mp hc
      exact absurd (hall c hc) hcfree
    · have hcfree0 : ¬ s.Taken .kernel c := fun ht => hcfree ((take_kept s pf i).stays.taken ht)
      have hne : (s.pool .kernel).frame c ≠ s.cr3 := ((h.known _ hd).ne_free h.pool hcfree0).symm
      obtain ⟨m, hadd, hzero, hout⟩ := pageTableAdd_absent (s := s.take pf i) ((s.pool pf).frame i) hself hv hp hpal
        ((s.pool .kernel).frame_aligned c) hne (or_attr_lt ((s.pool .kernel).frame_aligned c) ((s.pool .kernel).frame_lt hc))
      have hmade : Made s va ((s.pool .kernel).frame c) ((s.pool pf).frame i) _ :=
        Made.of_store (or_attr_lt ((s.pool pf).frame_aligned i) ((s.pool pf).frame_lt hi)) hzero hout
      exact .inr ⟨_, hadd, h.page_absent hd hlow hi hfree hc hcfree hp hmade⟩

/-! ## The loop of malloc_page -/

theorem pages_succ (va n : Nat) : (Finset.range (n + 1)).image (fun i => pdeIdx (va + i * pgSize)) =
    insert (pdeIdx va) ((Finset.range n).image fun i => pdeIdx (va + pgSize + i * pgSize)) := by
  ext j
  simp only [Finset.mem_insert, Finset.mem_image, Finset.mem_range]
  constructor
  · intro hex
    obtain ⟨i, hi, rfl⟩ := hex
    cases i with
    | zero => exact .inl (by rw [Nat.zero_mul, Nat.add_zero])
    | succ i => exact .inr ⟨i, by omega, by rw [Nat.succ_mul]; congr 1; omega⟩
  · intro hor
    rcases hor with rfl | ⟨i, hi, rfl⟩
    · exact ⟨0, by omega, by rw [Nat.zero_mul, Nat.add_zero]⟩
    · exact ⟨i + 1, by omega, by rw [Nat.succ_mul]; congr 1; omega⟩

/-- The first page's table is no longer missing. -/
theorem Paged.lacking {n : Nat} (h : Paged dirs va f pf s s') (hend : va + (n + 1) * pgSize ≤ 0xffc00000) :
    (s.lacking va (n + 1)).card = (s'.lacking (va + pgSize) n).card +
      if ¬ Present (s.phys.read32 (s.cr3 + pdeIdx va * 4)) then 1 else 0 := by
  have hcr3 : s'.cr3 = s.cr3 := h.kept.cr3
  have hj : pdeIdx va < 1024 := pdeIdx_lt (by unfold pgSize at hend; omega)
  have hmem : ∀ j, j ∈ s'.lacking (va + pgSize) n ↔
      j ∈ ((Finset.range n).image fun i => pdeIdx (va + pgSize + i * pgSize)) ∧
        ¬ Present (s.phys.read32 (s.cr3 + j * 4)) ∧ j ≠ pdeIdx va := by
    intro j
    unfold Mem.lacking
    rw [Finset.mem_filter]
    refine and_congr_right fun hm => ?_
    obtain ⟨i, hi, rfl⟩ := Finset.mem_image.mp hm
    have hi := Finset.mem_range.mp hi
    rw [hcr3, h.dir _ (pdeIdx_lt (by unfold pgSize at *; omega)), not_or]
  by_cases hp : Present (s.phys.read32 (s.cr3 + pdeIdx va * 4))
  · have hsame : s.lacking va (n + 1) = s'.lacking (va + pgSize) n := by
      ext j
      rw [hmem]
      unfold Mem.lacking
      rw [Finset.mem_filter, pages_succ, Finset.mem_insert]
      constructor
      · intro hex
        obtain ⟨hj | hj, hno⟩ := hex
        · rw [hj] at hno
          exact absurd hp hno
        · exact ⟨hj, hno, fun e => hno (e ▸ hp)⟩
      · intro hex
        exact ⟨.inr hex.1, hex.2.1⟩
    rw [hsame, if_neg (not_not.mpr hp), Nat.add_zero]
  · have hnew : pdeIdx va ∉ s'.lacking (va + pgSize) n := fun hm => ((hmem _).mp hm).2.2 rfl
    have hone : s.lacking va (n + 1) = insert (pdeIdx va) (s'.lacking (va + pgSize) n) := by
      ext j
      rw [Finset.mem_insert, hmem]
      unfold Mem.lacking
      rw [Finset.mem_filter, pages_succ, Finset.mem_insert]
      constructor
      · intro hex
        by_cases e : j = pdeIdx va
        · exact .inl e
        · exact .inr ⟨hex.1.resolve_left e, hex.2, e⟩
      · intro hor
        rcases hor with rfl | hex
        · exact ⟨.inl rfl, hp⟩
        · exact ⟨.inr hex.1, hex.2.1⟩
    rw [hone, if_pos hp, Finset.card_insert_of_notMem hnew]

theorem Paged.enough {n : Nat} (h : Paged dirs va f pf s s') (hend : va + (n + 1) * pgSize ≤ 0xffc00000)
    (he : s.Enough va (n + 1) pf) : s'.Enough (va + pgSize) n pf := by
  have hl := h.lacking hend
  have hu := h.count .user
  have hk := h.count .kernel
  by_cases hp : Present (s.phys.read32 (s.cr3 + pdeIdx va * 4))
  · cases pf <;> simp [hp, Mem.Enough] at hl hu hk he ⊢ <;> omega
  · cases pf <;> simp [hp, Mem.Enough] at hl hu hk he ⊢ <;> omega

theorem Mem.Enough.frame {n : Nat} (he : s.Enough va (n + 1) pf) : ∃ i, i ∈ s.free pf := by
  have hpos : 0 < (s.free pf).card := by
    cases pf with
    | kernel => exact Nat.lt_of_lt_of_le (by omega) he
    | user => exact Nat.lt_of_lt_of_le (by omega) he.1
  exact Finset.card_pos.mp hpos

/-- A frame is left for the first page's table, after the page's own. -/
theorem Healthy.table_frame {n : Nat} (h : Healthy s dirs) (hi : i < s.frames pf) (hfree : ¬ s.Taken pf i)
    (he : s.Enough va (n + 1) pf) (hp : ¬ Present (s.phys.read32 (s.cr3 + pdeIdx va * 4))) :
    ∃ c, c ∈ (s.take pf i).free .kernel := by
  have hmem : pdeIdx va ∈ s.lacking va (n + 1) := by
    unfold Mem.lacking
    rw [Finset.mem_filter, pages_succ]
    exact ⟨Finset.mem_insert_self _ _, hp⟩
  have hpos := Finset.card_pos.mpr ⟨_, hmem⟩
  have hk := h.count_take hi hfree .kernel
  refine Finset.card_pos.mp ?_
  cases pf with
  | kernel =>
    rw [if_pos rfl] at hk
    have he : n + 1 + (s.lacking va (n + 1)).card ≤ (s.free .kernel).card := he
    omega
  | user =>
    rw [if_neg (by decide)] at hk
    have he := he.2
    omega

/-- `n` pages from `va`, mapped on frames `g 0`, `g 1`, … of a pool: from `s` to `s'`. -/
structure Filled (dirs : List Nat) (va n : Nat) (pf : PoolFlags) (g : Nat → Nat) (s s' : Mem) : Prop where
  kept : Kept s s'
  healthy : Healthy s' dirs
  adds : Adds dirs s s'
  fits : ∀ i, i < n → g i < s.frames pf
  free : ∀ i, i < n → ¬ s.Taken pf (g i)
  pages : ∀ i, i < n → ∀ x, x / 4096 = (va + i * pgSize) / 4096 →
    translate s'.phys s.cr3 x = some ((s.pool pf).frame (g i) + x % 2 ^ 12)

theorem Filled.nil (h : Healthy s dirs) (va : Nat) (pf : PoolFlags) (g : Nat → Nat) : Filled dirs va 0 pf g s s where
  kept := Kept.refl s
  healthy := h
  adds := Adds.same (fun _ _ _ _ => rfl) fun _ _ _ _ => rfl
  fits i hi := by omega
  free i hi := by omega
  pages i hi := by omega

theorem Filled.cons {n : Nat} {g : Nat → Nat} (hd : s.cr3 ∈ dirs) (hend : va + (n + 1) * pgSize ≤ 0xffc00000)
    (hi : i < s.frames pf) (hfree : ¬ s.Taken pf i) (hp : Paged dirs va ((s.pool pf).frame i) pf s s')
    (h : Filled dirs (va + pgSize) n pf g s' s'') : Filled dirs va (n + 1) pf (fun k => k.casesOn i g) s s'' := by
  have hst := hp.kept.stays
  refine ⟨hp.kept.trans h.kept, h.healthy, hp.adds.trans h.adds hst h.kept.stays, ?_, ?_, ?_⟩
  · exact forall_front (· < s.frames pf) hi fun k hk => (h.fits k hk).trans_eq (hst.frames pf)
  · exact forall_front (¬ s.Taken pf ·) hfree fun k hk ht => h.free k hk (hst.taken ht)
  · intro k hk x hx
    cases k with
    | zero =>
      rw [Nat.zero_mul, Nat.add_zero] at hx
      exact h.adds.pteKept _ hd x _ (by unfold pgSize at hend; omega) (hp.here x hx)
    | succ k =>
      have hpage := h.pages k (by omega) x (by rw [hx, Nat.succ_mul]; congr 1; omega)
      rw [hst.cr3, hst.frame] at hpage
      exact hpage

theorem mapPages_room {n : Nat} (h : Healthy s dirs) (hd : s.cr3 ∈ dirs) (hend : va + n * pgSize ≤ 0xffc00000)
    (hn : n ≤ 4096) (he : s.Enough va n pf) :
    (∃ i, i < n ∧ translate s.phys s.cr3 (va + i * pgSize) ≠ none) ∧
        mapPages pf n va s = .error (.assert .tableAddPte) ∨
      ∃ s' g, mapPages pf n va s = .ok (true, s') ∧ Filled dirs va n pf g s s' := by
  induction n generalizing va s with
  | zero => exact .inr ⟨s, id, rfl, Filled.nil h va pf id⟩
  | succ n ih =>
    rcases palloc_cases pf s with ⟨-, hall⟩ | ⟨i, hi, hfree, -, hpal⟩
    · obtain ⟨i, hi⟩ := he.frame
      obtain ⟨hi, hfree⟩ := mem_free.mp hi
      exact absurd (hall i hi) hfree
    · have hpos := (s.pool pf).frame_pos i
      have hva : va < 0xffc00000 := by unfold pgSize at hend; omega
      have hnext : (va + pgSize) % 2 ^ 32 = va + pgSize := Nat.mod_eq_of_lt (by unfold pgSize at *; omega)
      rw [mapPages, hpal, ok_bind]
      simp only
      rw [if_neg (by omega), hnext]
      rcases h.page hd hva hi hfree (h.table_frame hi hfree he) with ⟨hmap, hadd⟩ | ⟨s1, hadd, hp⟩
      · -- the first page is mapped already
        refine .inl ⟨⟨0, by omega, by rwa [Nat.zero_mul, Nat.add_zero]⟩, ?_⟩
        rw [hadd, error_bind]
      · have hcr3 : s1.cr3 = s.cr3 := hp.kept.cr3
        have hrest := ih hp.healthy (by rw [hcr3]; exact hd) (by unfold pgSize at *; omega) (by omega) (hp.enough hend he)
        rw [hadd, ok_bind]
        rcases hrest with ⟨⟨k, hk, hmap⟩, hstop⟩ | ⟨s2, g, hmap, hf⟩
        · refine .inl ⟨⟨k + 1, by omega, ?_⟩, hstop⟩
          have hpage : va + pgSize + k * pgSize = va + (k + 1) * pgSize := by rw [Nat.succ_mul]; omega
          rw [hcr3, hpage, hp.other _ (by unfold pgSize at *; omega) (by unfold pgSize; omega) (by unfold pgSize; omega)
            (by omega)] at hmap
          exact hmap
        · exact .inr ⟨s2, _, hmap, Filled.cons hd hend hi hfree hp hf⟩

end TinyOs.Memory
