/-
  TinyOs.Memory.Failures — what a call does to the pool locks.

  `get_kernel_pages` and `get_user_pages` release the lock they have taken on both
  outcomes. `get_a_page` returns past its `lock_release` when the pool is empty
  (`getAPage_cases`): the lock is left as the call has taken it. Locks stay free or held
  either way (`run_ok`).
-/

import TinyOs.Memory.Frames

namespace TinyOs.Memory

open TinyOs.Kernel TinyOs.Lib TinyOs.Logic

def noLock : PoolLock := ⟨none, 0, 1, some []⟩

def noRange : VirtualAddr := ⟨⟨0, 0, by decide⟩, 0, by decide, .inr rfl⟩

/-- A machine with eight frames in each pool, before mem_pool_init. -/
def smallMem : Mem where
  phys := (Bytes.write32 (fun _ => 0) (0x100000 + 768 * 4) 0x101007).write32 (0x100000 + 1023 * 4) 0x100007
  data _ := 0
  pool
    | .kernel => kernelPool 0x210000 noLock
    | .user => userPool 0x210000 noLock
  kernelVaddr := kernelHeap 0x210000
  cr3 := 0x100000
  cur := ⟨1, 0, noRange⟩

/-! ## The three calls -/

inductive Call where
  | getKernelPages (pgCnt : Nat)
  | getUserPages (pgCnt : Nat)
  | getAPage (pf : PoolFlags) (vaddr : Nat)

def Call.run (s : Mem) : Call → Except Stop (Nat × Mem)
  | .getKernelPages pgCnt => Memory.getKernelPages pgCnt s
  | .getUserPages pgCnt => Memory.getUserPages pgCnt s
  | .getAPage pf vaddr => Memory.getAPage pf vaddr s

/-- The pool whose lock the call takes. -/
def Call.pool : Call → PoolFlags
  | .getKernelPages _ => .kernel
  | .getUserPages _ => .user
  | .getAPage pf _ => pf

/-- A lock nobody holds has value 1, a held one value 0 and a nesting depth. -/
def PoolLock.Ok (l : PoolLock) : Prop :=
  l.holder = none ∧ l.holderRepeatNr = 0 ∧ l.value = 1 ∨ l.holder ≠ none ∧ (0 < l.holderRepeatNr ∧ l.holderRepeatNr < 2 ^ 32) ∧ l.value = 0

/-- The same holder, holder_repeat_nr and value of the semaphore. -/
def PoolLock.Same (l l' : PoolLock) : Prop :=
  l'.holder = l.holder ∧ l'.holderRepeatNr = l.holderRepeatNr ∧ l'.value = l.value

def Balanced (s s' : Mem) : Prop := ∀ pf, (s.pool pf).lock.Same (s'.pool pf).lock

/-- A frame is left for the call: one that is free, and whose bit is not the very bit
that `get_a_page` sets for the page. -/
def FrameLeft (s : Mem) : Call → Prop
  | .getAPage pf vaddr => ∃ i, i < s.frames pf ∧ ¬ s.Taken pf i ∧
      ¬ ((s.vaddr pf).vaddrBitmap.bits + vaddrIdx (s.vaddr pf) vaddr / 8 = (s.pool pf).poolBitmap.bits + i / 8 ∧
        vaddrIdx (s.vaddr pf) vaddr % 8 = i % 8)
  | _ => True

/-! ## One lock -/

variable {l l' l1 : PoolLock} {t : Tid}

theorem PoolLock.Same.refl (l : PoolLock) : l.Same l := ⟨rfl, rfl, rfl⟩

theorem PoolLock.Ok.acquire (h : l.Ok) (ha : l.acquire t = .ok l') :
    l'.holder = some t ∧ l'.value = 0 ∧
      (l.holder = none ∧ l'.holderRepeatNr = 1 ∨
        l.holder = some t ∧ l'.holderRepeatNr = (l.holderRepeatNr + 1) % 2 ^ 32) := by
  unfold PoolLock.acquire at ha
  split at ha
  · next hne =>
    rcases h with ⟨hn, hnr, hv⟩ | ⟨hn, hnr, hv⟩
    · simp only [semaDown, hv, hnr] at ha
      cases ha
      exact ⟨rfl, rfl, .inl ⟨hn, rfl⟩⟩
    · -- held by another thread: it would have to wait
      simp only [semaDown, hv] at ha
      cases ha
  · next he =>
    have he : l.holder = some t := not_not.mp he
    rcases h with ⟨hn, -, -⟩ | ⟨-, -, hv⟩
    · rw [hn] at he; cases he
    · cases ha; exact ⟨he, hv, .inr ⟨he, rfl⟩⟩

theorem PoolLock.release_cases (ha : l.release t = .ok l') :
    l.holder = some t ∧
      (1 < l.holderRepeatNr ∧ l' = { l with holderRepeatNr := l.holderRepeatNr - 1 } ∨
        l.holderRepeatNr = 1 ∧ l.value = 0 ∧ l'.holder = none ∧ l'.holderRepeatNr = 0 ∧ l'.value = 1) := by
  obtain ⟨u, hh, ha⟩ := bind_ok_iff.mp ha
  have hh := of_decide_eq_true (assert_ok.mp hh)
  refine ⟨hh, ?_⟩
  split at ha
  · next h1 => cases ha; exact .inl ⟨h1, rfl⟩
  · obtain ⟨u, h1, ha⟩ := bind_ok_iff.mp ha
    have h1 := of_decide_eq_true (assert_ok.mp h1)
    obtain ⟨u, hv, ha⟩ := bind_ok_iff.mp ha
    have hv := of_decide_eq_true (assert_ok.mp hv)
    cases hw : l.waiters with
    | none => simp only [hw] at ha; cases ha
    | some ts =>
      simp only [hw] at ha
      obtain ⟨u, h2, ha⟩ := bind_ok_iff.mp ha
      have h2 := of_decide_eq_true (assert_ok.mp h2)
      cases ha
      exact .inr ⟨h1, hv, rfl, rfl, h2⟩

/-- A release undoes an acquire. -/
theorem PoolLock.Ok.acquire_release (h : l.Ok) (ha : l.acquire t = .ok l1) (hr : l1.release t = .ok l') : l.Same l' := by
  obtain ⟨hh, hv, hn⟩ := h.acquire ha
  obtain ⟨-, ⟨h1, e⟩ | ⟨h1, -, hh', hnr', hv'⟩⟩ := release_cases hr
  · rcases hn with ⟨-, hn⟩ | ⟨hl, hn⟩
    · omega
    · rcases h with ⟨hnone, -, -⟩ | ⟨-, hpos, hv0⟩
      · rw [hnone] at hl; cases hl
      · subst e
        refine ⟨hh.trans hl.symm, ?_, hv.trans hv0.symm⟩
        show l1.holderRepeatNr - 1 = l.holderRepeatNr
        omega
  · rcases hn with ⟨hl, -⟩ | ⟨hl, hn⟩
    · rcases h with ⟨-, hnr, hv1⟩ | ⟨hne, -, -⟩
      · exact ⟨hh'.trans hl.symm, hnr'.trans hnr.symm, hv'.trans hv1.symm⟩
      · exact absurd hl hne
    · rcases h with ⟨hnone, -, -⟩ | ⟨-, hpos, -⟩
      · rw [hnone] at hl; cases hl
      · omega

theorem PoolLock.Ok.acquired (h : l.Ok) (hb : l.holderRepeatNr + 1 < 2 ^ 32) (ha : l.acquire t = .ok l') : l'.Ok := by
  obtain ⟨hh, hv, hn⟩ := h.acquire ha
  refine .inr ⟨by rw [hh]; exact Option.some_ne_none t, ?_, hv⟩
  rcases hn with ⟨-, hn⟩ | ⟨-, hn⟩ <;> omega

theorem PoolLock.Ok.released (h : l.Ok) (hr : l.release t = .ok l') : l'.Ok := by
  obtain ⟨hh, ⟨h1, e⟩ | ⟨-, -, hh', hnr', hv'⟩⟩ := release_cases hr
  · rcases h with ⟨hnone, -, -⟩ | ⟨hne, hnr, hv⟩
    · rw [hnone] at hh; cases hh
    · subst e
      refine .inr ⟨hne, ?_, hv⟩
      show 0 < l.holderRepeatNr - 1 ∧ l.holderRepeatNr - 1 < 2 ^ 32
      omega
  · exact .inl ⟨hh', hnr', hv'⟩

theorem PoolLock.Same.ok (hs : l.Same l') (h : l.Ok) : l'.Ok := by
  obtain ⟨h1, h2, h3⟩ := hs
  unfold PoolLock.Ok
  rw [h1, h2, h3]
  exact h

/-! ## One call -/

variable {s s' s1 : Mem} {pf : PoolFlags}

@[simp] theorem setLock_lock (s : Mem) (pf : PoolFlags) (l : PoolLock) : ((s.setLock pf l).pool pf).lock = l := by
  simp [Mem.setLock]

theorem setLock_other (s : Mem) (l : PoolLock) {pf pf' : PoolFlags} (h : pf' ≠ pf) :
    (s.setLock pf l).pool pf' = s.pool pf' := by simp [Mem.setLock, h]

@[simp] theorem setLock_setLock (s : Mem) (pf : PoolFlags) (l l' : PoolLock) :
    (s.setLock pf l).setLock pf l' = s.setLock pf l' := by
  simp [Mem.setLock]

theorem setLock_back (s : Mem) (pf : PoolFlags) (l : PoolLock) : (s.setLock pf l).setLock pf (s.pool pf).lock = s := by
  rw [setLock_setLock]
  simp [Mem.setLock]

@[simp] theorem setLock_poolBitmap (s : Mem) (pf pf' : PoolFlags) (l : PoolLock) :
    ((s.setLock pf l).pool pf').poolBitmap = (s.pool pf').poolBitmap := by
  by_cases h : pf' = pf
  · subst h; simp [Mem.setLock]
  · rw [setLock_other s l h]

theorem lockAcquire_ok (h : lockAcquire pf s = .ok s') :
    ∃ l, (s.pool pf).lock.acquire s.cur.tid = .ok l ∧ s' = s.setLock pf l := by
  obtain ⟨l, hl, h⟩ := bind_ok_iff.mp h
  cases h; exact ⟨l, hl, rfl⟩

theorem lockRelease_ok (h : lockRelease pf s = .ok s') :
    ∃ l, (s.pool pf).lock.release s.cur.tid = .ok l ∧ s' = s.setLock pf l := by
  obtain ⟨l, hl, h⟩ := bind_ok_iff.mp h
  cases h; exact ⟨l, hl, rfl⟩

/-- The lock, `malloc_page`, memset where it answered an address, the lock. -/
theorem getKernelPages_ok {pgCnt r : Nat} (h : getKernelPages pgCnt s = .ok (r, s')) :
    ∃ l sm phys, (s.pool .kernel).lock.acquire s.cur.tid = .ok l ∧ mallocPage .kernel pgCnt (s.setLock .kernel l) = .ok (r, sm) ∧
      (if r ≠ 0 then memset sm.phys sm.cr3 r 0 (pgCnt * pgSize % 2 ^ 32) else .ok sm.phys) = .ok phys ∧
      lockRelease .kernel { sm with phys := phys } = .ok s' := by
  obtain ⟨sa, ha, h⟩ := bind_ok_iff.mp h
  obtain ⟨l, hl, rfl⟩ := lockAcquire_ok ha
  obtain ⟨⟨v, sm⟩, hm, h⟩ := bind_ok_iff.mp h
  obtain ⟨phys, hp, h⟩ := bind_ok_iff.mp h
  obtain ⟨sr, hr, h⟩ := bind_ok_iff.mp h
  cases h
  exact ⟨l, sm, phys, hl, hm, hp, hr⟩

/-- The same without the test. -/
theorem getUserPages_ok {pgCnt r : Nat} (h : getUserPages pgCnt s = .ok (r, s')) :
    ∃ l sm phys, (s.pool .user).lock.acquire s.cur.tid = .ok l ∧ mallocPage .user pgCnt (s.setLock .user l) = .ok (r, sm) ∧
      memset sm.phys sm.cr3 r 0 (pgCnt * pgSize % 2 ^ 32) = .ok phys ∧
      lockRelease .user { sm with phys := phys } = .ok s' := by
  obtain ⟨sa, ha, h⟩ := bind_ok_iff.mp h
  obtain ⟨l, hl, rfl⟩ := lockAcquire_ok ha
  obtain ⟨⟨v, sm⟩, hm, h⟩ := bind_ok_iff.mp h
  obtain ⟨phys, hp, h⟩ := bind_ok_iff.mp h
  obtain ⟨sr, hr, h⟩ := bind_ok_iff.mp h
  cases h
  exact ⟨l, sm, phys, hl, hm, hp, hr⟩

/-- The lock, the bit, a frame; where there is one, the mapping and the lock. -/
theorem getAPage_ok {vaddr r : Nat} (h : getAPage pf vaddr s = .ok (r, s')) :
    ∃ l sm f sp, (s.pool pf).lock.acquire s.cur.tid = .ok l ∧ markVaddr pf vaddr (s.setLock pf l) = .ok sm ∧
      palloc pf sm = .ok (f, sp) ∧
      (f = 0 ∧ s' = sp ∨ f ≠ 0 ∧ ∃ sadd, pageTableAdd vaddr f sp = .ok sadd ∧ lockRelease pf sadd = .ok s') := by
  obtain ⟨sa, ha, h⟩ := bind_ok_iff.mp h
  obtain ⟨l, hl, rfl⟩ := lockAcquire_ok ha
  obtain ⟨sm, hm, h⟩ := bind_ok_iff.mp h
  obtain ⟨⟨f, sp⟩, hp, h⟩ := bind_ok_iff.mp h
  refine ⟨l, sm, f, sp, hl, hm, hp, ?_⟩
  simp only at h
  split at h
  · next h0 =>
    cases h
    exact .inl ⟨h0, rfl⟩
  · next h0 =>
    obtain ⟨sadd, hadd, h⟩ := bind_ok_iff.mp h
    obtain ⟨sr, hr, h⟩ := bind_ok_iff.mp h
    cases h
    exact .inr ⟨h0, sadd, hadd, hr⟩

/-- What lies between an acquire and a release does not touch the pools. -/
theorem bracket_balanced {sb : Mem} {la : PoolLock} (h : (s.pool pf).lock.Ok) (hla : (s.pool pf).lock.acquire s.cur.tid = .ok la)
    (hk : Kept (s.setLock pf la) sb) (hr : lockRelease pf sb = .ok s') : Balanced s s' := by
  obtain ⟨lb, hlb, rfl⟩ := lockRelease_ok hr
  have hcur : sb.cur = s.cur := hk.cur
  rw [hk.pool, hcur, setLock_lock] at hlb
  intro pf'
  by_cases e : pf' = pf
  · subst e
    rw [setLock_lock]
    exact h.acquire_release hla hlb
  · rw [setLock_other _ _ e, hk.pool, setLock_other _ _ e]
    exact PoolLock.Same.refl _

theorem getKernelPages_balanced {pgCnt r : Nat} (hl : (s.pool .kernel).lock.Ok)
    (h : getKernelPages pgCnt s = .ok (r, s')) : Balanced s s' := by
  obtain ⟨la, sm, phys, ha, hm, -, hr⟩ := getKernelPages_ok h
  exact bracket_balanced hl ha ((mallocPage_kept hm).trans (kept_phys sm phys)) hr

theorem getUserPages_balanced {pgCnt r : Nat} (hl : (s.pool .user).lock.Ok)
    (h : getUserPages pgCnt s = .ok (r, s')) : Balanced s s' := by
  obtain ⟨la, sm, phys, ha, hm, -, hr⟩ := getUserPages_ok h
  exact bracket_balanced hl ha ((mallocPage_kept hm).trans (kept_phys sm phys)) hr

/-- The state in which `get_a_page` asks for a frame: the page's bit is set. -/
theorem markVaddr_ok {vaddr : Nat} (h : markVaddr pf vaddr s = .ok s') :
    s' = { s with data := (s.vaddr pf).vaddrBitmap.mark s.data (vaddrIdx (s.vaddr pf) vaddr) } := by
  unfold markVaddr at h
  split at h
  · next hp =>
    obtain ⟨-, -, h⟩ := bind_ok_iff.mp h
    cases h
    rw [hp.2]; rfl
  · split at h
    · next hp =>
      obtain ⟨-, -, h⟩ := bind_ok_iff.mp h
      cases h
      rw [hp.2]; rfl
    · cases h

/-- A bit of one bitmap, seen after a bit of another was set. -/
theorem used_mark_other {a b : Bitmap} {m : Bytes} {i j : Nat} :
    b.Used (a.mark m i) j ↔ b.Used m j ∨ a.bits + i / 8 = b.bits + j / 8 ∧ i % 8 = j % 8 := by
  unfold Bitmap.Used Bitmap.mark Bytes.write8
  by_cases h : b.bits + j / 8 = a.bits + i / 8
  · rw [if_pos h, h, or_mask _ (Nat.mod_lt _ (by omega)) (Nat.mod_lt _ (by omega))]
    exact or_congr_right ⟨fun e => ⟨rfl, e.symm⟩, fun e => e.2.symm⟩
  · rw [if_neg h]
    exact ⟨.inl, fun e => e.elim id fun e => absurd e.1.symm h⟩

/-- No frame is left exactly when every bit of the pool is set once the page is marked. -/
theorem marked_full {vaddr : Nat} {l : PoolLock} (hm : markVaddr pf vaddr (s.setLock pf l) = .ok s1) :
    (∀ i, i < s1.frames pf → s1.Taken pf i) ↔ ¬ FrameLeft s (.getAPage pf vaddr) := by
  rw [markVaddr_ok hm]
  have hrange : (s.setLock pf l).vaddr pf = s.vaddr pf := by cases pf <;> rfl
  simp only [FrameLeft, Mem.Taken, Mem.frames, setLock_poolBitmap, hrange, used_mark_other]
  constructor
  · intro h hex
    obtain ⟨i, hi, hfree, hne⟩ := hex
    exact hne ((h i hi).resolve_left hfree)
  · intro h i hi
    by_contra hc
    exact h ⟨i, hi, fun hu => hc (.inl hu), fun e => hc (.inr e)⟩

/-- Both ways for `get_a_page` to return: through `lock_release`, or past it. -/
theorem getAPage_cases {vaddr r : Nat} (hl : (s.pool pf).lock.Ok) (h : getAPage pf vaddr s = .ok (r, s')) :
    FrameLeft s (.getAPage pf vaddr) ∧ Balanced s s' ∨
      ¬ FrameLeft s (.getAPage pf vaddr) ∧
        ∃ l, (s.pool pf).lock.acquire s.cur.tid = .ok l ∧ s'.pool = (s.setLock pf l).pool := by
  obtain ⟨l, sm, f, sp, hla, hm, hp, hend⟩ := getAPage_ok h
  have hmark := markVaddr_kept hm
  have hleft : f = 0 ↔ ¬ FrameLeft s (.getAPage pf vaddr) := (palloc_null hp).trans (marked_full hm)
  rcases hend with ⟨h0, rfl⟩ | ⟨h0, sadd, hadd, hr⟩
  · exact .inr ⟨hleft.mp h0, l, hla, (palloc_kept hp).pool.trans hmark.pool⟩
  · have hk : Kept (s.setLock pf l) sadd := (hmark.trans (palloc_kept hp)).trans (pageTableAdd_kept hadd)
    exact .inl ⟨by_contra fun hn => h0 (hleft.mpr hn), bracket_balanced hl hla hk hr⟩

/-! ## Free or held -/

variable {c : Call} {r : Nat}

theorem setLock_ok {l : PoolLock} (h : ∀ pf, (s.pool pf).lock.Ok) (hl : l.Ok) :
    ∀ pf', ((s.setLock pf l).pool pf').lock.Ok := by
  intro pf'
  by_cases e : pf' = pf
  · subst e; rw [setLock_lock]; exact hl
  · rw [setLock_other _ _ e]; exact h pf'

/-- Where a call does not leave a lock as it was, it leaves it acquired. -/
theorem run_ok (hl : ∀ pf, (s.pool pf).lock.Ok) (hb : (s.pool c.pool).lock.holderRepeatNr + 1 < 2 ^ 32)
    (h : Call.run s c = .ok (r, s')) : ∀ pf, (s'.pool pf).lock.Ok := by
  have ofBalanced (hbal : Balanced s s') : ∀ pf, (s'.pool pf).lock.Ok := fun pf => (hbal pf).ok (hl pf)
  cases c with
  | getKernelPages pgCnt =>
    have h : getKernelPages pgCnt s = .ok (r, s') := h
    exact ofBalanced (getKernelPages_balanced (hl _) h)
  | getUserPages pgCnt =>
    have h : getUserPages pgCnt s = .ok (r, s') := h
    exact ofBalanced (getUserPages_balanced (hl _) h)
  | getAPage pf vaddr =>
    have h : getAPage pf vaddr s = .ok (r, s') := h
    rcases getAPage_cases (hl pf) h with ⟨-, hbal⟩ | ⟨-, l, hla, hpool⟩
    · exact ofBalanced hbal
    · rw [hpool]; exact setLock_ok hl ((hl pf).acquired hb hla)

theorem poolsInit_locks (allMem : Nat) (s : Mem) : ∀ pf, ((poolsInit allMem s).pool pf).lock.Ok := by
  intro pf
  cases pf <;> exact .inl ⟨rfl, rfl, rfl⟩

def kernelThread : Caller := ⟨1, 0, noRange⟩

end TinyOs.Memory
