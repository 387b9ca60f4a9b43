/-
  TinyOs.Memory.OnePage — `page_table_add` maps one page.

  `pageTableAdd_one` asks nothing of the other directories, and of the active one only
  that entry 1023 names it, that its other entries name other frames, and that the table
  of `vaddr` has one entry in it. The page and nothing else becomes present, and
  kernel_pool gives a frame exactly when the table was missing.
-/

import TinyOs.Memory.Mapping

namespace TinyOs.Memory

open TinyOs.Kernel TinyOs.Lib TinyOs.Logic

/-- Page `va` can be mapped on frame `pa`. -/
structure Addable (s : Mem) (va pa : Nat) : Prop where
  self : SelfMap s.phys s.cr3
  tables : ∀ j, j < 1023 → Present (s.phys.read32 (s.cr3 + j * 4)) → frameOf (s.phys.read32 (s.cr3 + j * 4)) ≠ s.cr3
  page : va % pgSize = 0
  low : va < 0xffc00000
  absent : translate s.phys s.cr3 va = none
  alone : Present (s.phys.read32 (s.cr3 + pdeIdx va * 4)) → ∀ j, j < 1024 → j ≠ pdeIdx va →
    Present (s.phys.read32 (s.cr3 + j * 4)) →
    frameOf (s.phys.read32 (s.cr3 + j * 4)) ≠ frameOf (s.phys.read32 (s.cr3 + pdeIdx va * 4))
  aligned : pa % pgSize = 0
  fits : pa < 2 ^ 32
  room : ∃ i, i < s.frames .kernel ∧ ¬ s.Taken .kernel i
  free : ∀ i, i < s.frames .kernel → ¬ s.Taken .kernel i → (s.pool .kernel).frame i ≠ s.cr3 ∧
    ∀ j, j < 1024 → Present (s.phys.read32 (s.cr3 + j * 4)) →
      frameOf (s.phys.read32 (s.cr3 + j * 4)) ≠ (s.pool .kernel).frame i

/-- Page `va` has been mapped on frame `pa`, and no other page: from `s` to `s'`. -/
structure OnePage (va pa : Nat) (s s' : Mem) : Prop where
  kept : Kept s s'
  here : ∀ off, off < pgSize → translate s'.phys s'.cr3 (va + off) = some (pa + off)
  v2p : ∀ off, off < pgSize → addrV2p (va + off) s' = .ok (pa + off)
  other : ∀ vb, vb < 0xffc00000 → vb / pgSize ≠ va / pgSize → translate s'.phys s'.cr3 vb = translate s.phys s.cr3 vb
  noFrame : Present (s.phys.read32 (s.cr3 + pdeIdx va * 4)) → ∀ i, s'.Taken .kernel i ↔ s.Taken .kernel i
  oneFrame : ¬ Present (s.phys.read32 (s.cr3 + pdeIdx va * 4)) → ∃ c, c < s.frames .kernel ∧ ¬ s.Taken .kernel c ∧
    ∀ i, s'.Taken .kernel i ↔ s.Taken .kernel i ∨ i = c

variable {s s' : Mem} {va vb pa : Nat}

/-- What `addr_v2p` answers is what the processor's walk finds. -/
theorem SelfMap.addrV2p (h : SelfMap s.phys s.cr3) (hv : va < 2 ^ 32) (ht : translate s.phys s.cr3 va = some pa) :
    Memory.addrV2p va s = .ok pa := by
  have hp : Present (s.phys.read32 (s.cr3 + pdeIdx va * 4)) := by
    by_contra hno
    rw [translate_absent hno] at ht
    cases ht
  rw [translate_table hp] at ht
  unfold Memory.addrV2p
  rw [h.load32_ptePtr hv hp]
  split at ht
  · cases ht
    rfl
  · cases ht

theorem page_off {off : Nat} (hva : va % pgSize = 0) (hoff : off < pgSize) :
    pdeIdx (va + off) = pdeIdx va ∧ pteIdx (va + off) = pteIdx va ∧ (va + off) % 2 ^ 12 = off := by
  unfold pgSize at *
  unfold pdeIdx pteIdx
  omega

namespace Addable

theorem frame_lt (h : Addable s va pa) : pa ||| pgAttr < 2 ^ 32 := by
  have ha := h.aligned
  have hf := h.fits
  unfold pgSize at ha
  exact or_attr_lt ha (by omega)

/-- The table exists: its entry for the page is written. -/
theorem present (h : Addable s va pa) (hp : Present (s.phys.read32 (s.cr3 + pdeIdx va * 4))) :
    ∃ s', pageTableAdd va pa s = .ok s' ∧ OnePage va pa s s' := by
  have hlow := h.low
  have hcr3 := h.self.aligned
  have hne := h.tables _ (pdeIdx_lt_window hlow) hp
  have habs : ¬ Present (s.phys.read32 (pteAt s.phys s.cr3 va)) := by
    intro hpte
    have ht := h.absent
    rw [translate_table hp, if_pos hpte] at ht
    cases ht
  have hadd := pageTableAdd_present pa h.self (by omega) hp
  rw [decide_eq_true habs] at hadd
  have hself : SelfMap (s.phys.write32 (pteAt s.phys s.cr3 va) (pa ||| pgAttr)) s.cr3 := by
    have hown : (s.phys.write32 (pteAt s.phys s.cr3 va) (pa ||| pgAttr)).read32 (s.cr3 + 1023 * 4) =
        s.phys.read32 (s.cr3 + 1023 * 4) := write_pte_pde hcr3 hne _ (by omega)
    exact ⟨by rw [hown]; exact h.self.present, by rw [hown]; exact h.self.own⟩
  have hhere : ∀ off, off < pgSize →
      translate (s.phys.write32 (pteAt s.phys s.cr3 va) (pa ||| pgAttr)) s.cr3 (va + off) = some (pa + off) := by
    intro off hoff
    obtain ⟨h1, h2, h3⟩ := page_off h.page hoff
    have hat : pteAt s.phys s.cr3 (va + off) = pteAt s.phys s.cr3 va := by
      unfold pteAt
      rw [h1, h2]
    have hv : va + off < 2 ^ 32 := by unfold pgSize at hoff; omega
    rw [write_pte_same hcr3 hne h.aligned h.frame_lt hv (by rw [h1]; exact hp) hat, h3]
  refine ⟨_, hadd, kept_phys s _, hhere, ?_, ?_, fun _ _ => Iff.rfl, fun hno => absurd hp hno⟩
  · intro off hoff
    exact SelfMap.addrV2p hself (by unfold pgSize at hoff; omega) (hhere off hoff)
  · intro vb hvb hvne
    apply write_pte_other hcr3 hne _ (by omega)
    intro hpb he
    have h1 := frameOf_mod (s.phys.read32 (s.cr3 + pdeIdx vb * 4))
    have h2 := frameOf_mod (s.phys.read32 (s.cr3 + pdeIdx va * 4))
    have h3 := pteIdx_lt va
    have h4 := pteIdx_lt vb
    unfold pteAt at he
    by_cases e : pdeIdx vb = pdeIdx va
    · have := other_page hvne e
      omega
    · have := h.alone hp _ (pdeIdx_lt (by omega)) e hpb
      omega

/-- The table is made first. -/
theorem missing (h : Addable s va pa) (hp : ¬ Present (s.phys.read32 (s.cr3 + pdeIdx va * 4))) :
    ∃ s', pageTableAdd va pa s = .ok s' ∧ OnePage va pa s s' := by
  rcases palloc_cases .kernel s with ⟨-, hall⟩ | ⟨c, hc, hfree, -, hpal⟩
  · obtain ⟨i, hi, hfree⟩ := h.room
    exact absurd (hall i hi) hfree
  · have hlow := h.low
    have hcr3 := h.self.aligned
    have hal := (s.pool .kernel).frame_aligned c
    have hflt := or_attr_lt hal ((s.pool .kernel).frame_lt hc)
    obtain ⟨hne, hold⟩ := h.free c hc hfree
    obtain ⟨m, hadd, hzero, hout⟩ := pageTableAdd_absent pa h.self hlow hp hpal hal hne hflt
    have hm := Made.of_store h.frame_lt hzero hout
    have hv : va < 2 ^ 32 := by omega
    have hself : SelfMap (m.write32 ((s.pool .kernel).frame c + pteIdx va * 4) (pa ||| pgAttr)) s.cr3 := by
      have hown := hm.entry hcr3 hv hal hflt hcr3 hne (show 1023 < 1024 by omega)
      rw [if_neg fun e => absurd e.2.symm (Nat.ne_of_lt (pdeIdx_lt_window hlow))] at hown
      exact ⟨by rw [hown]; exact h.self.present, by rw [hown]; exact h.self.own⟩
    have hhere : ∀ off, off < pgSize →
        translate (m.write32 ((s.pool .kernel).frame c + pteIdx va * 4) (pa ||| pgAttr)) s.cr3 (va + off) = some (pa + off) := by
      intro off hoff
      obtain ⟨h1, h2, h3⟩ := page_off h.page hoff
      rw [hm.here hcr3 hv hal hflt hne h.aligned h1, if_pos h2, h3]
    have hkept := (take_kept s .kernel c).trans (kept_phys _ (m.write32 ((s.pool .kernel).frame c + pteIdx va * 4) (pa ||| pgAttr)))
    refine ⟨_, hadd, hkept, hhere, ?_, ?_, fun hyes => absurd hyes hp, fun _ => ⟨c, hc, hfree, fun i => used_mark⟩⟩
    · intro off hoff
      exact SelfMap.addrV2p hself (by unfold pgSize at hoff; omega) (hhere off hoff)
    · intro vb hvb hvne
      by_cases e : pdeIdx vb = pdeIdx va
      · -- the new table's other entries are 0
        have hnone : translate s.phys s.cr3 vb = none := translate_absent (by rw [e]; exact hp)
        exact (hm.here hcr3 hv hal hflt hne h.aligned e).trans ((if_neg (other_page hvne e)).trans hnone.symm)
      · apply hm.other hcr3 hv hal hflt hcr3 hne (by omega) (fun hno => e hno.2)
        intro hpb
        exact ⟨hold _ (pdeIdx_lt (by omega)) hpb, h.tables _ (pdeIdx_lt_window hvb) hpb⟩

end Addable

theorem pageTableAdd_one (h : Addable s va pa) : ∃ s', pageTableAdd va pa s = .ok s' ∧ OnePage va pa s s' := by
  by_cases hp : Present (s.phys.read32 (s.cr3 + pdeIdx va * 4))
  · exact h.present hp
  · exact h.missing hp

/-- After mem_pool_init, a page of a user program. -/
theorem bootSpace_addable : Addable bootSpace.mem 0x8048000 0x1200000 := by
  have hinv : SpaceInv bootSpace.mem [pageDirTablePos] :=
    .first (S := bootSpace) ⟨⟨0x2000000, bootMem, fun _ => 0, by simp only [bootMem], memPoolInit_eq _ _⟩, rfl⟩
  have hphys : bootSpace.mem.phys = setupPage fun _ => 0 := (poolsInit_phys _ _).trans (by simp only [bootMem])
  have hcr3 : bootSpace.mem.cr3 = pageDirTablePos := (poolsInit_cr3 _ _).trans (by simp only [bootMem])
  have hd : bootSpace.mem.cr3 ∈ [pageDirTablePos] := List.mem_singleton.mpr hcr3
  have hidx : pdeIdx 0x8048000 = 32 := by decide
  have hp : ¬ Present (bootSpace.mem.phys.read32 (bootSpace.mem.cr3 + pdeIdx 0x8048000 * 4)) := by
    rw [hphys, hcr3, hidx, setupPage_user (by omega)]
    decide
  refine ⟨(hinv.dir hd).self, ?_, by decide, by decide, translate_absent hp, fun h => absurd h hp, by decide, by decide,
    ⟨0, by decide +kernel, by decide +kernel⟩, ?_⟩
  · intro j hj hpj e
    have hnot := (hinv.table hd hj hpj).2
    rw [e] at hnot
    exact hnot hd
  · intro i hi hfree
    refine ⟨((hinv.known _ hd).ne_free hinv.pool hfree).symm, ?_⟩
    intro j hj hpj
    by_cases hj' : j < 1023
    · exact (hinv.table hd hj' hpj).1.ne_free hinv.pool hfree
    · have hself : j = 1023 := by omega
      rw [hself, (hinv.dir hd).self.own]
      exact (hinv.known _ hd).ne_free hinv.pool hfree

theorem bootSpace_one_page : ∃ s', pageTableAdd 0x8048000 0x1200000 bootSpace.mem = .ok s' ∧
    OnePage 0x8048000 0x1200000 bootSpace.mem s' := pageTableAdd_one bootSpace_addable

end TinyOs.Memory
