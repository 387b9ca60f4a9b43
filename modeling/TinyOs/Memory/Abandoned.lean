/-
  TinyOs.Memory.Abandoned — what a failed `malloc_page` leaves behind.

  `malloc_page` has no way back. A call that answers NULL has found no range of virtual
  pages and changed nothing, or it leaves the whole range reserved, frames of the pool
  taken for the first pages, and no frame over (`failed_allocation`).

  The entries are then what `page_table_add` made of them, a page at a time:
  - in a directory that has the kernel's tables the entries of these pages name their
    frames, and nothing else in physical memory has changed;
  - in directories that are in order, and with frames of kernel_pool for the tables that
    are missing, these pages are mapped on their frames, what was mapped stays so, and
    what became present names a frame that was free.
  Without a frame for a table `page_table_add` enters frame 0 as one and clears it; of
  the entries nothing is said then.
-/

import TinyOs.Memory.Exhaustion

namespace TinyOs.Memory

open TinyOs.Kernel TinyOs.Lib TinyOs.Logic

/-- The bitmaps of the pools and of the ranges, and every entry, are as they were. -/
structure NoTrace (s s' : Mem) : Prop where
  taken : ∀ pf i, i < s.frames pf → (s'.Taken pf i ↔ s.Taken pf i)
  reserved : ∀ pf i, i < 8 * (s.vaddr pf).vaddrBitmap.btmpBytesLen → (s'.Reserved pf i ↔ s.Reserved pf i)
  entries : ∀ a, s'.phys.read32 a = s.phys.read32 a

/-- Frames `g 0` to `g (n - 1)` of a pool were free in `s`, and are taken in `s'`. -/
structure Taking (pf : PoolFlags) (n : Nat) (g : Nat → Nat) (s s' : Mem) : Prop where
  fits : ∀ i, i < n → g i < s.frames pf
  free : ∀ i, i < n → ¬ s.Taken pf (g i)
  inj : ∀ i j, i < n → j < n → g i = g j → i = j
  taken : ∀ i, i < n → s'.Taken pf (g i)

/-- Pages `b` to `b + pgCnt - 1` are reserved, frames `g 0` to `g (k - 1)` went to the first of them, and the pool is empty. -/
structure Abandoned (pf : PoolFlags) (pgCnt b k : Nat) (g : Nat → Nat) (s s' : Mem) : Prop where
  found : bitmapScan s.data (s.vaddr pf).vaddrBitmap pgCnt = some b
  fewer : k < pgCnt
  kept : Kept s s'
  reserved : ∀ i, b ≤ i → i < b + pgCnt → s'.Reserved pf i
  frames : Taking pf k g (s.reserve pf b pgCnt) s'
  empty : ∀ i, i < s'.frames pf → s'.Taken pf i
  kernelPages : pf = .kernel → ∀ tab, KernelDir s.phys s.cr3 tab → 0xc0000000 ≤ (s.vaddr pf).page b →
    (s.vaddr pf).page b + k * pgSize ≤ 0xffc00000 → Mapped tab k ((s.vaddr pf).page b) g (s.reserve pf b pgCnt) s'
  pages : ∀ dirs, Healthy s dirs → s.cr3 ∈ dirs → (s.vaddr pf).page b + k * pgSize ≤ 0xffc00000 →
    (s.reserve pf b pgCnt).Enough ((s.vaddr pf).page b) k pf →
      Filled dirs ((s.vaddr pf).page b) k pf g (s.reserve pf b pgCnt) s'

variable {pf : PoolFlags} {s s' s1 : Mem} {n i va : Nat} {g : Nat → Nat}

/-! ## The loop, as far as it got -/

theorem Taking.nil (pf : PoolFlags) (g : Nat → Nat) (s : Mem) : Taking pf 0 g s s where
  fits i hi := by omega
  free i hi := by omega
  inj i j hi := by omega
  taken i hi := by omega

theorem Taking.cons (hi : i < s.frames pf) (hfree : ¬ s.Taken pf i) (h1 : Kept (s.take pf i) s1)
    (h2 : Kept s1 s') (h : Taking pf n g s1 s') : Taking pf (n + 1) (fun k => k.casesOn i g) s s' := by
  have hst := ((take_kept s pf i).trans h1).stays
  have ht : s1.Taken pf i := h1.stays.taken (used_mark.mpr (.inr rfl))
  have hne : ∀ k, k < n → g k ≠ i := fun k hk e => h.free k hk (e ▸ ht)
  refine ⟨?_, ?_, ?_, ?_⟩
  · exact forall_front (· < s.frames pf) hi fun k hk => (h.fits k hk).trans_eq (hst.frames pf)
  · exact forall_front (¬ s.Taken pf ·) hfree fun k hk ht => h.free k hk (hst.taken ht)
  · exact inj_front hne h.inj
  · exact forall_front (s'.Taken pf ·) (h2.stays.taken ht) h.taken

/-- In any state; where the directories are in order, what became of the pages too. -/
theorem mapPages_taking (h : mapPages pf n va s = .ok (true, s')) : ∃ g, Taking pf n g s s' ∧
    (pf = .kernel → ∀ tab, KernelDir s.phys s.cr3 tab → 0xc0000000 ≤ va → va + n * pgSize ≤ 0xffc00000 → Mapped tab n va g s s') ∧
    ∀ dirs, Healthy s dirs → s.cr3 ∈ dirs → va + n * pgSize ≤ 0xffc00000 → s.Enough va n pf → Filled dirs va n pf g s s' := by
  induction n generalizing va s with
  | zero =>
    cases h
    exact ⟨id, Taking.nil pf id _, fun _ tab _ _ _ => Mapped.nil tab va id _, fun dirs h _ _ _ => Filled.nil h va pf id⟩
  | succ n ih =>
    rcases mapPages_succ h with ⟨e, -⟩ | ⟨i, s1, hi, hfree, hlow, hadd, h⟩
    · cases e
    · obtain ⟨g, htake, hkernel, hpages⟩ := ih h
      have hnext : va + (n + 1) * pgSize ≤ 0xffc00000 → (va + pgSize) % 2 ^ 32 = va + pgSize := fun hend =>
        Nat.mod_eq_of_lt (by unfold pgSize at *; omega)
      refine ⟨_, Taking.cons hi hfree (pageTableAdd_kept hadd) (mapPages_kept h) htake, ?_, ?_⟩
      · intro hpf tab hdir h1 hend
        subst hpf
        have hk : KernelAddr va := by unfold KernelAddr pgSize at *; omega
        obtain ⟨-, hs1⟩ := pageTableAdd_kernel_ok (s := s.take .kernel i) hdir hk hadd
        rw [hnext hend] at hkernel
        rw [hs1] at hkernel
        exact Mapped.cons hdir h1 hend hi hfree hlow
          (hkernel rfl tab (hdir.write_entry hk _) (by omega) (by unfold pgSize at *; omega))
      · intro dirs hh hd hend he
        have hva : va < 0xffc00000 := by unfold pgSize at hend; omega
        rcases hh.page hd hva hi hfree (hh.table_frame hi hfree he) with ⟨-, hstop⟩ | ⟨s2, hadd2, hp⟩
        · rw [hadd] at hstop
          cases hstop
        · rw [hadd] at hadd2
          cases hadd2
          have hcr3 : s1.cr3 = s.cr3 := hp.kept.cr3
          rw [hnext hend] at hpages
          exact Filled.cons hd hend hi hfree hp
            (hpages dirs hp.healthy (by rw [hcr3]; exact hd) (by unfold pgSize at *; omega) (hp.enough hend he))

/-! ## No way back -/

theorem failed_allocation {pgCnt : Nat} (h : mallocPage pf pgCnt s = .ok (0, s')) :
    (bitmapScan s.data (s.vaddr pf).vaddrBitmap pgCnt = none ∧ s' = s) ∨ ∃ b k g, Abandoned pf pgCnt b k g s s' := by
  have hk := mallocPage_kept h
  rcases mallocPage_cases h with ⟨hnone, -, hs⟩ | ⟨b, m, k, hsome, hset, hmap, ⟨-, hlt, hempty⟩ | ⟨-, hpos, -⟩⟩
  · exact .inl ⟨hnone, hs⟩
  · obtain ⟨m', hm, -, hu, -⟩ := setBits_spec (s.vaddr pf).vaddrBitmap pgCnt b s.data
    rw [hset] at hm
    cases hm
    rw [setBits_eq] at hset
    cases hset
    obtain ⟨g, htake, hkernel, hpages⟩ := mapPages_taking hmap
    have hst := (reserve_kept s pf b pgCnt).stays
    refine .inr ⟨b, k, g, hsome, hlt, hk, ?_, htake, hempty, hkernel, fun dirs hh => ?_⟩
    · intro i h1 h2
      have hrange : s'.vaddr pf = s.vaddr pf := by
        cases pf with
        | kernel => exact hk.kernelVaddr
        | user => exact congrArg Caller.userprogVaddr hk.cur
      show (s'.vaddr pf).vaddrBitmap.Used s'.data i
      rw [hrange]
      exact (mapPages_kept hmap).grows.used ((hu i).mpr (.inr ⟨h1, h2⟩))
    · exact hpages dirs (hh.stays hst fun d _ x _ => rfl)
  · omega

/-! ### Seven of eight frames taken -/

/-- The first `n` frames of kernel_pool have gone, to page tables of processes. -/
def Mem.spend (s : Mem) (n : Nat) : Mem := { s with data := markAll (s.pool .kernel).poolBitmap n 0 s.data }

theorem Healthy.spend {dirs : List Nat} (h : Healthy s dirs) (n : Nat) : Healthy (s.spend n) dirs :=
  h.stays (setBits_kept (setBits_eq _ n 0 _)).stays fun _ _ _ _ => rfl

def lastFrame : Mem := smallSpace.mem.spend 7

theorem lastFrame_spent : ∃ s', mallocPage .kernel 2 lastFrame = .ok (0, s') ∧ s'.Taken .kernel 7 ∧ s'.Reserved .kernel 1 ∧
    translate s'.phys s'.cr3 0xc0100000 = some 0x207000 := by
  have h : (mallocPage .kernel 2 lastFrame).toOption.any (fun r => r.1 = 0 ∧ (r.2.pool .kernel).poolBitmap.Used r.2.data 7 ∧
      r.2.kernelVaddr.vaddrBitmap.Used r.2.data 1 ∧ translate r.2.phys r.2.cr3 0xc0100000 = some 0x207000) = true := by
    decide +kernel
  obtain ⟨⟨v, s'⟩, he, hr⟩ := ok_of_any h
  obtain ⟨hv, h1, h2, h3⟩ := of_decide_eq_true hr
  cases hv
  exact ⟨s', he, h1, h2, h3⟩

theorem failed_allocation_leaves_trace : ¬ ∀ (pf : PoolFlags) (pgCnt : Nat) (s s' : Mem), 0 < pgCnt → pgCnt < 3840 →
    mallocPage pf pgCnt s = .ok (0, s') → NoTrace s s' := by
  intro h
  obtain ⟨s', he, htaken, -, -⟩ := lastFrame_spent
  have := (h .kernel 2 lastFrame s' (by decide) (by decide) he).taken .kernel 7 (by decide +kernel)
  exact absurd (this.mp htaken) (by decide +kernel)

/-- One of the two pages is mapped, in the directory of the boot. -/
theorem lastFrame_abandoned : ∃ s' b k g, mallocPage .kernel 2 lastFrame = .ok (0, s') ∧ Abandoned .kernel 2 b k g lastFrame s' ∧
    translate s'.phys s'.cr3 0xc0100000 = some 0x207000 ∧ Healthy lastFrame [pageDirTablePos] := by
  obtain ⟨s', he, -, -, hpage⟩ := lastFrame_spent
  have hh : Healthy lastFrame [pageDirTablePos] := (Sound.first smallSpace_start).healthy.spend 7
  rcases failed_allocation he with ⟨hnone, -⟩ | ⟨b, k, g, h⟩
  · exact absurd hnone (by decide +kernel)
  · exact ⟨s', b, k, g, he, h, hpage, hh⟩

end TinyOs.Memory
