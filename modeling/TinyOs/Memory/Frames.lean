/-
  TinyOs.Memory.Frames — what the allocator's functions do, in every state.

  `Kept` is what no step of an allocation changes: the pools with their locks, the
  ranges, cr3 and the caller; and no bit of the kernel's data is cleared.
  `palloc_cases` and `vaddrGet_cases` give both outcomes of the two scans,
  `mallocPage_cases` the three of `malloc_page`.
-/

import TinyOs.Memory.Alloc

namespace TinyOs.Memory

open TinyOs.Kernel TinyOs.Lib TinyOs.Logic

variable {pf : PoolFlags} {s s' s'' : Mem}

theorem assert_ok {c : Bool} {site : Site} {u : Unit} : assert c site = .ok u ↔ c = true := by
  cases c <;> simp

structure Kept (s s' : Mem) : Prop where
  pool : s'.pool = s.pool
  kernelVaddr : s'.kernelVaddr = s.kernelVaddr
  cr3 : s'.cr3 = s.cr3
  cur : s'.cur = s.cur
  grows : Grows s.data s'.data

theorem Kept.refl (s : Mem) : Kept s s := ⟨rfl, rfl, rfl, rfl, Grows.refl _⟩

theorem Kept.trans (h : Kept s s') (h' : Kept s' s'') : Kept s s'' :=
  ⟨h'.pool.trans h.pool, h'.kernelVaddr.trans h.kernelVaddr, h'.cr3.trans h.cr3, h'.cur.trans h.cur,
    h.grows.trans h'.grows⟩

theorem kept_phys (s : Mem) (m : Bytes) : Kept s { s with phys := m } := ⟨rfl, rfl, rfl, rfl, Grows.refl _⟩

theorem kept_data {m : Bytes} (h : Grows s.data m) : Kept s { s with data := m } := ⟨rfl, rfl, rfl, rfl, h⟩

/-! ## mem_pool_init -/

/-- What `mem_pool_init` makes of a memory: all bitmaps zero, both locks free. -/
def poolsInit (allMem : Nat) (s : Mem) : Mem :=
  { s with
    data := fill 0 (kbmLength allMem) (kernelVaddrBitmap allMem).bits
      (fill 0 (ubmLength allMem) (userBitmap allMem).bits (fill 0 (kbmLength allMem) (kernelBitmap allMem).bits s.data))
    pool := fun
      | .kernel => kernelPool allMem (lockInit (s.pool .kernel).lock)
      | .user => userPool allMem (lockInit (s.pool .user).lock)
    kernelVaddr := kernelHeap allMem }

theorem memPoolInit_eq (allMem : Nat) (s : Mem) : memPoolInit allMem s = .ok (poolsInit allMem s) := by
  have hb : memBitmapBase ≠ 0 := by decide
  unfold memPoolInit
  rw [bitmapInit_eq hb, ok_bind, bitmapInit_eq (by show memBitmapBase + kbmLength allMem ≠ 0; omega), ok_bind,
    bitmapInit_eq (by show memBitmapBase + kbmLength allMem + ubmLength allMem ≠ 0; omega), ok_bind]
  rfl

/-- A field of a record that is built, kept apart so that `poolsInit` and its argument are
not compared field by field. -/
theorem mk_phys (phys data : Bytes) (pool : PoolFlags → Pool) (va : VirtualAddr) (cr3 : Nat) (cur : Caller) :
    (Mem.mk phys data pool va cr3 cur).phys = phys := rfl

theorem mk_cr3 (phys data : Bytes) (pool : PoolFlags → Pool) (va : VirtualAddr) (cr3 : Nat) (cur : Caller) :
    (Mem.mk phys data pool va cr3 cur).cr3 = cr3 := rfl

theorem poolsInit_phys (allMem : Nat) (s : Mem) : (poolsInit allMem s).phys = s.phys := mk_phys s.phys _ _ _ _ _

theorem poolsInit_cr3 (allMem : Nat) (s : Mem) : (poolsInit allMem s).cr3 = s.cr3 := mk_cr3 _ _ _ _ s.cr3 _

/-! ## Bits -/

theorem setBits_spec (btmp : Bitmap) (cnt i : Nat) (m : Bytes) :
    ∃ m', setBits btmp cnt i m = .ok m' ∧ Grows m m' ∧
      (∀ j, btmp.Used m' j ↔ btmp.Used m j ∨ i ≤ j ∧ j < i + cnt) ∧
      ∀ x, (∀ j, i ≤ j → j < i + cnt → x ≠ btmp.bits + j / 8) → m' x = m x := by
  induction cnt generalizing i m with
  | zero => exact ⟨m, rfl, Grows.refl m, fun j => by simp, fun _ _ => rfl⟩
  | succ cnt ih =>
    obtain ⟨m', he, hg, hu, hx⟩ := ih (i + 1) (btmp.mark m i)
    refine ⟨m', ?_, (grows_mark m btmp i).trans hg, fun j => ?_, fun x h => ?_⟩
    · rw [setBits, bitmapSet_one]; exact he
    · rw [hu, used_mark, or_assoc]
      exact or_congr_right (by omega)
    · rw [hx x fun j h1 h2 => h j (by omega) (by omega)]
      exact mark_of_ne (h i (Nat.le_refl i) (by omega))

/-! ## Frames -/

theorem Pool.frame_lt (p : Pool) {i : Nat} (hi : i < 8 * p.poolBitmap.btmpBytesLen) : p.frame i + pgSize ≤ 2 ^ 32 := by
  have := p.fits
  unfold Pool.frame pgSize at *
  omega

theorem Pool.frame_pos (p : Pool) (i : Nat) : 0 < p.frame i := by
  have := p.above
  unfold Pool.frame
  omega

theorem Pool.frame_aligned (p : Pool) (i : Nat) : p.frame i % 4096 = 0 := by
  have := p.aligned
  unfold Pool.frame pgSize at *
  omega

theorem Pool.frame_inj (p : Pool) {i j : Nat} (h : p.frame i = p.frame j) : i = j := by
  unfold Pool.frame pgSize at h
  omega

/-- Bit `i` of a pool's bitmap is set. -/
def Mem.Taken (s : Mem) (pf : PoolFlags) (i : Nat) : Prop := (s.pool pf).poolBitmap.Used s.data i

/-- The pool's number of frames. -/
def Mem.frames (s : Mem) (pf : PoolFlags) : Nat := 8 * (s.pool pf).poolBitmap.btmpBytesLen

/-- `s` with bit `i` of a pool's bitmap set. -/
def Mem.take (s : Mem) (pf : PoolFlags) (i : Nat) : Mem := { s with data := (s.pool pf).poolBitmap.mark s.data i }

theorem palloc_cases (pf : PoolFlags) (s : Mem) :
    palloc pf s = .ok (0, s) ∧ (∀ i, i < s.frames pf → s.Taken pf i) ∨
      ∃ i, i < s.frames pf ∧ ¬ s.Taken pf i ∧ (∀ j, j < i → s.Taken pf j) ∧
        palloc pf s = .ok ((s.pool pf).frame i, s.take pf i) := by
  have hf := bitmapScan_one s.data (s.pool pf).poolBitmap
  cases hs : bitmapScan s.data (s.pool pf).poolBitmap 1 with
  | none =>
    refine .inl ⟨?_, bitmapScan_one_none.mp hs⟩
    unfold palloc
    rw [hs]
  | some i =>
    rw [hs] at hf
    obtain ⟨hcl, hle, hmin⟩ := hf
    have hlt : i < 8 * (s.pool pf).poolBitmap.btmpBytesLen := by omega
    refine .inr ⟨i, hlt, clear_one.mp hcl, fun j hj => ?_, ?_⟩
    · by_contra hu
      have := hmin j (clear_one.mpr hu) (by omega)
      omega
    · have := (s.pool pf).frame_lt hlt
      unfold palloc
      rw [hs]
      simp only [bitmapSet_one, Pool.frame] at this ⊢
      rw [Nat.mod_eq_of_lt (by unfold pgSize at *; omega)]
      rfl

theorem take_kept (s : Mem) (pf : PoolFlags) (i : Nat) : Kept s (s.take pf i) := kept_data (grows_mark _ _ _)

theorem palloc_kept {r : Nat} (h : palloc pf s = .ok (r, s')) : Kept s s' := by
  rcases palloc_cases pf s with ⟨he, -⟩ | ⟨i, -, -, -, he⟩
  · rw [h] at he; cases he; exact Kept.refl s
  · rw [h] at he; cases he; exact take_kept s pf i

theorem palloc_phys {pf : PoolFlags} {r : Nat} (h : palloc pf s = .ok (r, s')) : s'.phys = s.phys := by
  rcases palloc_cases pf s with ⟨he, -⟩ | ⟨i, -, -, -, he⟩
  · rw [h] at he; cases he; rfl
  · rw [h] at he; cases he; rfl

/-- `palloc` answers NULL exactly on an empty pool. -/
theorem palloc_null {r : Nat} (h : palloc pf s = .ok (r, s')) : r = 0 ↔ ∀ i, i < s.frames pf → s.Taken pf i := by
  rcases palloc_cases pf s with ⟨he, hall⟩ | ⟨i, hi, hfree, -, he⟩
  · rw [h] at he; cases he; exact ⟨fun _ => hall, fun _ => rfl⟩
  · rw [h] at he; cases he
    have := (s.pool pf).frame_pos i
    exact ⟨fun e => by omega, fun hall => absurd (hall i hi) hfree⟩

/-! ## Mapping -/

theorem pageTableAdd_kept {vaddr pa : Nat} (h : pageTableAdd vaddr pa s = .ok s') : Kept s s' := by
  obtain ⟨pde, -, h⟩ := bind_ok_iff.mp h
  split at h
  · obtain ⟨pte, -, h⟩ := bind_ok_iff.mp h
    obtain ⟨-, -, h⟩ := bind_ok_iff.mp h
    obtain ⟨phys, -, h⟩ := bind_ok_iff.mp h
    cases h; exact kept_phys s phys
  · obtain ⟨⟨f, s1⟩, hp, h⟩ := bind_ok_iff.mp h
    obtain ⟨m1, -, h⟩ := bind_ok_iff.mp h
    obtain ⟨m2, -, h⟩ := bind_ok_iff.mp h
    obtain ⟨pte, -, h⟩ := bind_ok_iff.mp h
    obtain ⟨-, -, h⟩ := bind_ok_iff.mp h
    obtain ⟨phys, -, h⟩ := bind_ok_iff.mp h
    cases h; exact (palloc_kept hp).trans (kept_phys s1 phys)

theorem mapPages_succ {cnt vaddr : Nat} {r : Bool × Mem} (h : mapPages pf (cnt + 1) vaddr s = .ok r) :
    (r = (false, s) ∧ ∀ i, i < s.frames pf → s.Taken pf i) ∨
      ∃ i s1, i < s.frames pf ∧ ¬ s.Taken pf i ∧ (∀ j, j < i → s.Taken pf j) ∧
        pageTableAdd vaddr ((s.pool pf).frame i) (s.take pf i) = .ok s1 ∧
        mapPages pf cnt ((vaddr + pgSize) % 2 ^ 32) s1 = .ok r := by
  rw [mapPages] at h
  rcases palloc_cases pf s with ⟨he, hall⟩ | ⟨i, hi, hfree, hlow, he⟩
  · rw [he] at h
    cases h; exact .inl ⟨rfl, hall⟩
  · have := (s.pool pf).frame_pos i
    rw [he] at h
    simp only [ok_bind] at h
    rw [if_neg (by omega)] at h
    obtain ⟨s1, hadd, h⟩ := bind_ok_iff.mp h
    exact .inr ⟨i, s1, hi, hfree, hlow, hadd, h⟩

theorem mapPages_kept {cnt vaddr : Nat} {b : Bool} (h : mapPages pf cnt vaddr s = .ok (b, s')) : Kept s s' := by
  induction cnt generalizing vaddr s with
  | zero => cases h; exact Kept.refl _
  | succ cnt ih =>
    rcases mapPages_succ h with ⟨e, -⟩ | ⟨i, s1, -, -, -, hadd, h⟩
    · cases e; exact Kept.refl _
    · exact ((take_kept s pf i).trans (pageTableAdd_kept hadd)).trans (ih h)

/-- Where the loop gives up, it has mapped some of the pages and the pool is empty. -/
theorem mapPages_false {cnt vaddr : Nat} (h : mapPages pf cnt vaddr s = .ok (false, s')) :
    ∃ k, k < cnt ∧ mapPages pf k vaddr s = .ok (true, s') ∧ ∀ i, i < s'.frames pf → s'.Taken pf i := by
  induction cnt generalizing vaddr s with
  | zero => cases h
  | succ cnt ih =>
    rcases mapPages_succ h with ⟨e, hall⟩ | ⟨i, s1, hi, hfree, hlow, hadd, h⟩
    · cases e; exact ⟨0, by omega, rfl, hall⟩
    · obtain ⟨k, hk, hmap, hall⟩ := ih h
      refine ⟨k + 1, by omega, ?_, hall⟩
      have he : palloc pf s = .ok ((s.pool pf).frame i, s.take pf i) := by
        rcases palloc_cases pf s with ⟨-, hall'⟩ | ⟨i', hi', hfree', hlow', he'⟩
        · exact absurd (hall' i hi) hfree
        · have : i' = i := by
            rcases Nat.lt_trichotomy i' i with hlt | e | hlt
            · exact absurd (hlow i' hlt) hfree'
            · exact e
            · exact absurd (hlow' i hlt) hfree
          rw [← this]; exact he'
      have := (s.pool pf).frame_pos i
      rw [mapPages, he]
      simp only [ok_bind]
      rw [if_neg (by omega), hadd]
      exact hmap

/-! ## Reserving -/

/-- Bit `i` of the range's bitmap is set. -/
def Mem.Reserved (s : Mem) (pf : PoolFlags) (i : Nat) : Prop := (s.vaddr pf).vaddrBitmap.Used s.data i

/-- The address of page `b` of a range. -/
def VirtualAddr.page (va : VirtualAddr) (b : Nat) : Nat := va.vaddrStart + b * pgSize

theorem VirtualAddr.page_lt (va : VirtualAddr) {b : Nat} (hb : b < 8 * va.vaddrBitmap.btmpBytesLen) :
    va.page b < 2 ^ 32 ∧ 0 < va.page b := by
  have hf := va.fits
  have hle : b * pgSize ≤ 8 * va.vaddrBitmap.btmpBytesLen * pgSize := Nat.mul_le_mul_right _ (by omega)
  unfold page
  refine ⟨Nat.lt_of_le_of_lt (Nat.add_le_add_left hle _) hf, ?_⟩
  rcases va.above with h | h
  · omega
  · omega

theorem vaddrGet_cases {pgCnt r : Nat} (hc : 0 < pgCnt) (h : vaddrGet pf pgCnt s = .ok (r, s')) :
    (bitmapScan s.data (s.vaddr pf).vaddrBitmap pgCnt = none ∧ r = 0 ∧ s' = s) ∨
      ∃ b, bitmapScan s.data (s.vaddr pf).vaddrBitmap pgCnt = some b ∧
        r = (s.vaddr pf).page b ∧ 0 < r ∧
        setBits (s.vaddr pf).vaddrBitmap pgCnt b s.data = .ok s'.data ∧ s' = { s with data := s'.data } := by
  unfold vaddrGet at h
  cases hs : bitmapScan s.data (s.vaddr pf).vaddrBitmap pgCnt with
  | none => rw [hs] at h; cases h; exact .inl ⟨rfl, rfl, rfl⟩
  | some b =>
    rw [hs] at h
    obtain ⟨data, hset, h⟩ := bind_ok_iff.mp h
    obtain ⟨-, -, h⟩ := bind_ok_iff.mp h
    obtain ⟨-, -, hb⟩ := bitmapScan_some hc hs
    obtain ⟨hlt, hpos⟩ := (s.vaddr pf).page_lt hb
    have hmod : ((s.vaddr pf).vaddrStart + b * pgSize) % 2 ^ 32 = (s.vaddr pf).page b := Nat.mod_eq_of_lt hlt
    rw [hmod] at h
    cases h
    exact .inr ⟨b, rfl, rfl, hpos, hset, rfl⟩

/-- The ways for `malloc_page` to return: nothing found; some pages mapped, then no frame; all mapped. -/
theorem mallocPage_cases {pgCnt v : Nat} (h : mallocPage pf pgCnt s = .ok (v, s')) :
    (bitmapScan s.data (s.vaddr pf).vaddrBitmap pgCnt = none ∧ v = 0 ∧ s' = s) ∨
      ∃ b m k, bitmapScan s.data (s.vaddr pf).vaddrBitmap pgCnt = some b ∧
        setBits (s.vaddr pf).vaddrBitmap pgCnt b s.data = .ok m ∧
        mapPages pf k ((s.vaddr pf).page b) { s with data := m } = .ok (true, s') ∧
        (v = 0 ∧ k < pgCnt ∧ (∀ i, i < s'.frames pf → s'.Taken pf i) ∨ v = (s.vaddr pf).page b ∧ 0 < v ∧ k = pgCnt) := by
  obtain ⟨u, hc, h⟩ := bind_ok_iff.mp h
  have hpos : 0 < pgCnt := (of_decide_eq_true (assert_ok.mp hc)).1
  obtain ⟨⟨v1, s1⟩, hv, h⟩ := bind_ok_iff.mp h
  simp only at h
  rcases vaddrGet_cases hpos hv with ⟨hnone, hv0, hs1⟩ | ⟨b, hsome, hvb, hlt, hset, hs1⟩
  · rw [if_pos hv0] at h
    cases h; exact .inl ⟨hnone, rfl, hs1⟩
  · rw [if_neg (by omega)] at h
    obtain ⟨⟨all, s2⟩, hmap, h⟩ := bind_ok_iff.mp h
    rw [hs1, hvb] at hmap
    cases all with
    | true =>
      cases h
      exact .inr ⟨b, s1.data, pgCnt, hsome, hset, hmap, .inr ⟨hvb, hlt, rfl⟩⟩
    | false =>
      cases h
      obtain ⟨k, hk, hmapk, hempty⟩ := mapPages_false hmap
      exact .inr ⟨b, s1.data, k, hsome, hset, hmapk, .inl ⟨rfl, hk, hempty⟩⟩

theorem setBits_kept {btmp : Bitmap} {cnt i : Nat} {m : Bytes} (h : setBits btmp cnt i s.data = .ok m) :
    Kept s { s with data := m } := by
  obtain ⟨m', hm, hg, -, -⟩ := setBits_spec btmp cnt i s.data
  rw [hm] at h
  cases h; exact kept_data hg

/-- `n` bits from `i` on are set. -/
def markAll (btmp : Bitmap) : Nat → Nat → Bytes → Bytes
  | 0, _, m => m
  | n + 1, i, m => markAll btmp n (i + 1) (btmp.mark m i)

/-- Pages `b` to `b + n - 1` of a range are reserved. -/
def Mem.reserve (s : Mem) (pf : PoolFlags) (b n : Nat) : Mem := { s with data := markAll (s.vaddr pf).vaddrBitmap n b s.data }

theorem setBits_eq (btmp : Bitmap) (n i : Nat) (m : Bytes) : setBits btmp n i m = .ok (markAll btmp n i m) := by
  induction n generalizing i m with
  | zero => rfl
  | succ n ih =>
    rw [setBits, bitmapSet_one, ok_bind, ih]
    rfl

theorem reserve_kept (s : Mem) (pf : PoolFlags) (b n : Nat) : Kept s (s.reserve pf b n) :=
  setBits_kept (setBits_eq _ n b s.data)

theorem mallocPage_kept {pgCnt r : Nat} (h : mallocPage pf pgCnt s = .ok (r, s')) : Kept s s' := by
  rcases mallocPage_cases h with ⟨-, -, rfl⟩ | ⟨b, m, k, -, hset, hmap, -⟩
  · exact Kept.refl _
  · exact (setBits_kept hset).trans (mapPages_kept hmap)

theorem markVaddr_kept {vaddr : Nat} (h : markVaddr pf vaddr s = .ok s') : Kept s s' := by
  unfold markVaddr at h
  split at h
  · obtain ⟨-, -, h⟩ := bind_ok_iff.mp h
    cases h; exact kept_data (grows_mark _ _ _)
  · split at h
    · obtain ⟨-, -, h⟩ := bind_ok_iff.mp h
      cases h; exact kept_data (grows_mark _ _ _)
    · cases h

/-! ## After mem_pool_init -/

/-- What is cleared behind a pool's map leaves its zeros alone. -/
theorem poolsInit_free (allMem : Nat) (s : Mem) (pf : PoolFlags) {i : Nat} (hi : i < (poolsInit allMem s).frames pf) :
    ¬ (poolsInit allMem s).Taken pf i := by
  cases pf with
  | kernel =>
    change i < 8 * kbmLength allMem at hi
    refine not_used_of_zero (fill_zero (fill_zero (fill_in ?_ ?_)))
    · show memBitmapBase ≤ memBitmapBase + i / 8; omega
    · show memBitmapBase + i / 8 < memBitmapBase + kbmLength allMem; omega
  | user =>
    change i < 8 * ubmLength allMem at hi
    refine not_used_of_zero (fill_zero (fill_in ?_ ?_))
    · exact Nat.le_add_right _ _
    · exact Nat.add_lt_add_left (by omega) _

theorem poolsInit_unreserved (allMem : Nat) (s : Mem) {i : Nat} (hi : i < 8 * kbmLength allMem) :
    ¬ (poolsInit allMem s).Reserved .kernel i := by
  refine not_used_of_zero (fill_in ?_ ?_)
  · exact Nat.le_add_right _ _
  · exact Nat.add_lt_add_left (by omega) _

end TinyOs.Memory
