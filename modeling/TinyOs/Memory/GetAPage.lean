/-
  TinyOs.Memory.GetAPage — the bit get_a_page sets for a page.

  The bit's index is an unsigned difference, and all that is asserted of it is that it is
  not 0. In the range of the task's bitmap it is the page's own bit, and no later
  vaddr_get gives the page out (`InRange.recorded`). An address below the start wraps to
  an index far behind the bitmap, one beyond the end goes just behind it, and the bit is
  set there, in whatever lies behind (`mark_outside`).

  A process has no bitmap at all: `create_user_vaddr_bitmap` is empty, so what
  `init_thread` cleared is what get_a_page uses, and no page is ever in range
  (`noRange_empty`). The first one is start_process's own stack page.
-/

import TinyOs.Memory.Failures

namespace TinyOs.Memory

open TinyOs.Kernel TinyOs.Lib TinyOs.Logic

/-- Page `vaddr` is one of those the bitmap has bits for. -/
def InRange (va : VirtualAddr) (vaddr : Nat) : Prop :=
  va.vaddrStart ≤ vaddr ∧ vaddr < va.vaddrStart + 8 * va.vaddrBitmap.btmpBytesLen * pgSize

/-- Later states: any calls of the allocator by any tasks, and anything else that leaves the bitmap's bytes alone. -/
inductive After (va : VirtualAddr) (s : Mem) : Mem → Prop
  | refl : After va s s
  | call {s1 s2 : Mem} {r : Nat} (cur : Caller) (c : Call) : After va s s1 → Call.run { s1 with cur := cur } c = .ok (r, s2) →
      After va s s2
  | other {s1 : Mem} (s2 : Mem) : After va s s1 → Set.EqOn s2.data s1.data va.vaddrBitmap.area → After va s s2

/-- The page's own bit was set, in the bitmap, and nothing else; no later `vaddr_get` on the bitmap returns the page. -/
structure Recorded (pf : PoolFlags) (vaddr : Nat) (s s' : Mem) : Prop where
  inside : vaddrIdx (s.vaddr pf) vaddr < 8 * (s.vaddr pf).vaddrBitmap.btmpBytesLen
  bits : ∀ i, (s.vaddr pf).vaddrBitmap.Used s'.data i ↔
    (s.vaddr pf).vaddrBitmap.Used s.data i ∨ i = vaddrIdx (s.vaddr pf) vaddr
  outside : ∀ x, x ∉ (s.vaddr pf).vaddrBitmap.area → s'.data x = s.data x
  rest : s' = { s with data := s'.data }
  later : ∀ s2 s3 pf' n v, After (s.vaddr pf) s' s2 → s2.vaddr pf' = s.vaddr pf → 0 < n →
    vaddrGet pf' n s2 = .ok (v, s3) → v ≠ 0 → ¬ (v ≤ vaddr ∧ vaddr < v + n * pgSize)

variable {pf : PoolFlags} {s s' s2 : Mem} {va : VirtualAddr} {vaddr : Nat}

/-! ## The index -/

/-- Below the start the difference wraps, and the range ends before it does. -/
theorem idx_inside_iff (hv : vaddr < 2 ^ 32) : vaddrIdx va vaddr < 8 * va.vaddrBitmap.btmpBytesLen ↔ InRange va vaddr := by
  have hfits := va.fits
  unfold vaddrIdx InRange
  unfold pgSize at *
  by_cases h : va.vaddrStart ≤ vaddr
  · have hmod : (vaddr + 2 ^ 32 - va.vaddrStart) % 2 ^ 32 = vaddr - va.vaddrStart := by omega
    rw [hmod]
    omega
  · have hmod : (vaddr + 2 ^ 32 - va.vaddrStart) % 2 ^ 32 = vaddr + 2 ^ 32 - va.vaddrStart := by omega
    rw [hmod]
    omega

theorem noRange_empty (vaddr : Nat) : ¬ InRange noRange vaddr := by
  rintro ⟨h0, h⟩
  have hlen : 8 * noRange.vaddrBitmap.btmpBytesLen * pgSize = 0 := rfl
  omega

/-- In range, the page is where its index says. -/
theorem InRange.idx (h : InRange va vaddr) : vaddrIdx va vaddr = (vaddr - va.vaddrStart) / pgSize := by
  have hfits := va.fits
  obtain ⟨h1, h2⟩ := h
  unfold vaddrIdx
  have hmod : (vaddr + 2 ^ 32 - va.vaddrStart) % 2 ^ 32 = vaddr - va.vaddrStart := by omega
  rw [hmod]

/-! ## Later states -/

theorem call_grows {r : Nat} {c : Call} (h : Call.run s c = .ok (r, s')) : Grows s.data s'.data := by
  cases c with
  | getKernelPages n =>
    obtain ⟨l, sm, phys, -, hm, -, hr⟩ := getKernelPages_ok h
    obtain ⟨l', -, rfl⟩ := lockRelease_ok hr
    exact (mallocPage_kept hm).grows
  | getUserPages n =>
    obtain ⟨l, sm, phys, -, hm, -, hr⟩ := getUserPages_ok h
    obtain ⟨l', -, rfl⟩ := lockRelease_ok hr
    exact (mallocPage_kept hm).grows
  | getAPage pf vaddr =>
    obtain ⟨l, sm, f, sp, -, hm, hp, hend⟩ := getAPage_ok h
    have hg : Grows s.data sp.data := (markVaddr_kept hm).grows.trans (palloc_kept hp).grows
    rcases hend with ⟨-, rfl⟩ | ⟨-, sadd, hadd, hr⟩
    · exact hg
    · obtain ⟨l', -, rfl⟩ := lockRelease_ok hr
      exact hg.trans (pageTableAdd_kept hadd).grows

/-- A bit of the bitmap that is set stays set. -/
theorem After.used (h : After va s s2) {i : Nat} (hi : i < 8 * va.vaddrBitmap.btmpBytesLen) (hu : va.vaddrBitmap.Used s.data i) :
    va.vaddrBitmap.Used s2.data i := by
  induction h with
  | refl => exact hu
  | call cur c _ hrun ih => exact (call_grows hrun).used ih
  | other s2 _ heq ih => exact (used_congr heq hi).mpr ih

/-- `vaddr_get` answers a range of clear bits. -/
theorem vaddrGet_clear {n v : Nat} {s3 : Mem} (hn : 0 < n) (h : vaddrGet pf n s = .ok (v, s3)) (hv : v ≠ 0) :
    ∃ b, v = (s.vaddr pf).page b ∧ ∀ i, b ≤ i → i < b + n → ¬ s.Reserved pf i := by
  rcases vaddrGet_cases hn h with ⟨-, h0, -⟩ | ⟨b, hscan, he, -⟩
  · exact absurd h0 hv
  · obtain ⟨hclear, -⟩ := bitmapScan_some hn hscan
    exact ⟨b, he, fun i h1 h2 => hclear i h1 h2⟩

/-! ## One page -/

theorem InRange.recorded (h : markVaddr pf vaddr s = .ok s') (hr : InRange (s.vaddr pf) vaddr) : Recorded pf vaddr s s' := by
  have hfits := (s.vaddr pf).fits
  have hv : vaddr < 2 ^ 32 := by
    have h2 := hr.2
    omega
  have hidx := (idx_inside_iff hv).mpr hr
  obtain rfl := markVaddr_ok h
  refine ⟨hidx, fun i => used_mark, fun x hx => mark_of_ne ?_, rfl, ?_⟩
  · rintro rfl
    exact hx (Set.mem_Ico.mpr ⟨by omega, by omega⟩)
  · intro s2 s3 pf' n v hafter hva hn hget hv0 hin
    obtain ⟨b, hb, hclear⟩ := vaddrGet_clear hn hget hv0
    rw [hva] at hb
    have hset := hafter.used hidx (used_mark.mpr (.inr rfl))
    apply hclear (vaddrIdx (s.vaddr pf) vaddr)
    · rw [hr.idx]
      unfold VirtualAddr.page pgSize at *
      omega
    · rw [hr.idx]
      unfold VirtualAddr.page pgSize at *
      omega
    · unfold Mem.Reserved
      rw [hva]
      exact hset

/-- Beyond the bitmap a bit that is clear is set all the same. -/
theorem mark_outside {i : Nat} (hi : 8 * va.vaddrBitmap.btmpBytesLen ≤ i) (hclear : ¬ va.vaddrBitmap.Used s.data i) :
    ∃ x, x ∉ va.vaddrBitmap.area ∧ va.vaddrBitmap.mark s.data i x ≠ s.data x := by
  refine ⟨va.vaddrBitmap.bits + i / 8, ?_, ?_⟩
  · intro hx
    have hlt := (Set.mem_Ico.mp hx).2
    omega
  · intro he
    apply hclear
    have hset : va.vaddrBitmap.Used (va.vaddrBitmap.mark s.data i) i := used_mark.mpr (.inr rfl)
    unfold Bitmap.Used at hset ⊢
    rwa [he] at hset

/-- A task that `get_a_page` serves, with any address whose index is not 0. -/
theorem page_recorded_iff (h : markVaddr pf vaddr s = .ok s') (hv : vaddr < 2 ^ 32) :
    (Recorded pf vaddr s s' ↔ InRange (s.vaddr pf) vaddr) ∧
      (pf = .user → s.cur.userprogVaddr = noRange → ¬ Recorded pf vaddr s s') := by
  have hiff : Recorded pf vaddr s s' ↔ InRange (s.vaddr pf) vaddr :=
    ⟨fun hrec => (idx_inside_iff hv).mp hrec.inside, fun hr => hr.recorded h⟩
  refine ⟨hiff, ?_⟩
  rintro rfl hno hrec
  have hr := hiff.mp hrec
  rw [show s.vaddr .user = noRange from hno] at hr
  exact noRange_empty vaddr hr

theorem markVaddr_kernel (hp : s.cur.pgdir = 0) (h : 0 < vaddrIdx s.kernelVaddr vaddr) :
    ∃ s', markVaddr .kernel vaddr s = .ok s' := by
  unfold markVaddr
  rw [if_neg fun hn => hn.1 hp, if_pos ⟨hp, rfl⟩]
  simp only [decide_eq_true h, assert_true, ok_bind, bitmapSet_one]
  exact ⟨_, rfl⟩

/-- The second page of a heap of eight. -/
theorem heap_page_recorded : ∃ s', markVaddr .kernel (kHeapStart + pgSize) smallMem = .ok s' ∧
    Recorded .kernel (kHeapStart + pgSize) smallMem s' := by
  obtain ⟨s', h⟩ : ∃ s', markVaddr .kernel (kHeapStart + pgSize) smallMem = .ok s' := markVaddr_kernel rfl (by decide)
  exact ⟨s', h, (page_recorded_iff h (by decide)).1.mpr ⟨by decide, by decide⟩⟩

/-- A process as `process_execute` makes it. -/
def processMem : Mem := { smallMem with cur := ⟨2, 0xc0105000, noRange⟩ }

/-- start_process's stack page: the bit is set at an address below 1 MB where no bitmap is. A kernel thread's page below
    the heap: the bit is set far behind the heap's bitmap. -/
theorem page_not_recorded :
    (∃ s', markVaddr .user (0xc0000000 - pgSize) processMem = .ok s' ∧ ¬ Recorded .user (0xc0000000 - pgSize) processMem s' ∧
      s'.data 0x17fff ≠ processMem.data 0x17fff) ∧
    ∃ s', markVaddr .kernel 0x400000 smallMem = .ok s' ∧ ¬ Recorded .kernel 0x400000 smallMem s' ∧
      ∃ x, x ∉ smallMem.kernelVaddr.vaddrBitmap.area ∧ s'.data x ≠ smallMem.data x := by
  refine ⟨⟨_, rfl, ?_, ?_⟩, ?_⟩
  · intro h
    exact absurd h.inside (by decide)
  · decide
  · obtain ⟨s', h⟩ : ∃ s', markVaddr .kernel 0x400000 smallMem = .ok s' := markVaddr_kernel rfl (by decide)
    have hfar : 8 * smallMem.kernelVaddr.vaddrBitmap.btmpBytesLen ≤ vaddrIdx smallMem.kernelVaddr 0x400000 := by decide
    refine ⟨s', h, fun hrec => absurd hrec.inside (Nat.not_lt.mpr hfar), ?_⟩
    obtain rfl := markVaddr_ok h
    exact mark_outside hfar (by unfold Bitmap.Used; decide)

end TinyOs.Memory
