/-
  TinyOs.Memory.PoolRecords — the pool locks over runs, with the pools' records in memory.

  `get_a_page` sets a bit without looking whether the caller's bitmap has it. A process
  has no bitmap: its `bits` is NULL, and the bit lies in the byte `vaddr >> 15` of low
  memory, where the directory of the boot maps the kernel's image. What is there may be
  `struct pool`: `getAPageAt` is `get_a_page` where such a bit changes the lock's fields.
  A bit that lies in the description of a pool (its bitmap, its first frame) or in the
  links of a waiters list is not described; bits in the rest of the image, code and stack
  included, are taken to change nothing here.

  `balanced_iff`: in runs of any threads, with pool locks taken and released by their own
  code too, and anything happening to the rest of memory, a call that returns leaves the
  pool locks as they were exactly when a frame is left for it and its bit changes no lock.
-/

import TinyOs.Memory.Failures

namespace TinyOs.Memory

open TinyOs.Kernel TinyOs.Lib TinyOs.Logic

/-! ## The records in memory -/

/-- The physical addresses of `kernel_pool` and `user_pool`, which the linker chooses. -/
abbrev RecordMap := PoolFlags → Nat

/-- Where a byte of the first megabyte lies: the directory of the boot, the only one ever active, maps it at 0 and at
0xc0000000. -/
def lowAddr (a : Nat) : Option Nat :=
  if a < 0x100000 then some a else if 0xc0000000 ≤ a ∧ a < 0xc0100000 then some (a - 0xc0000000) else none

def sizeofPool : Nat := 44

/-- The offset in a pool's record at which the byte `a` lies. -/
def RecordMap.offset (l : RecordMap) (pf : PoolFlags) (a : Nat) : Option Nat :=
  match lowAddr a with
  | none => none
  | some p => if l pf ≤ p ∧ p < l pf + sizeofPool then some (p - l pf) else none

/-- `|= 1 << bit` on the byte at offset `o` of `struct pool`: holder is at 16, value at 20, holder_repeat_nr at 40. -/
def PoolLock.setBit (l : PoolLock) (o bit : Nat) : PoolLock :=
  if 16 ≤ o ∧ o < 20 then { l with holder := some (l.holder.getD 0 ||| 2 ^ (8 * (o - 16) + bit)) }
  else if o = 20 then { l with value := l.value ||| 2 ^ bit }
  else if 40 ≤ o then { l with holderRepeatNr := l.holderRepeatNr ||| 2 ^ (8 * (o - 40) + bit) }
  else l

/-- pool_bitmap, phy_addr_start and pool_size, and the four links of the waiters list. -/
def Described (o : Nat) : Prop := o < 16 ∨ 24 ≤ o ∧ o < 40

/-- What bit `bit` of the byte `a` does to the lock of a pool. -/
def RecordMap.strike (l : RecordMap) (pf : PoolFlags) (a bit : Nat) (lock : PoolLock) : PoolLock :=
  match l.offset pf a with
  | none => lock
  | some o => lock.setBit o bit

def Mem.strike (s : Mem) (l : RecordMap) (a bit : Nat) : Mem :=
  { s with pool := fun pf => { s.pool pf with lock := l.strike pf a bit (s.pool pf).lock } }

/-- The byte that `get_a_page` writes for a page. -/
def bitByte (va : VirtualAddr) (vaddr : Nat) : Nat := va.vaddrBitmap.bits + vaddrIdx va vaddr / 8

/-- `getAPage` with the records in memory. -/
def getAPageAt (l : RecordMap) (pf : PoolFlags) (vaddr : Nat) (s : Mem) : Except Stop (Nat × Mem) := do
  let va := s.vaddr pf
  let s ← lockAcquire pf s
  let s ← markVaddr pf vaddr s
  let (pagePhyaddr, s) ← palloc pf (s.strike l (bitByte va vaddr) (vaddrIdx va vaddr % 8))
  if pagePhyaddr = 0 then .ok (0, s)
  else
    let s ← pageTableAdd vaddr pagePhyaddr s
    let s ← lockRelease pf s
    .ok (vaddr, s)

def Call.runAt (l : RecordMap) (s : Mem) : Call → Except Stop (Nat × Mem)
  | .getAPage pf vaddr => getAPageAt l pf vaddr s
  | c => c.run s

/-- The bit of the call lies in no record. -/
def Call.Off (l : RecordMap) (s : Mem) : Call → Prop
  | .getAPage pf vaddr => ∀ q, l.offset q (bitByte (s.vaddr pf) vaddr) = none
  | _ => True

/-- Or in none of its words that are not described. -/
def Call.Plain (l : RecordMap) (s : Mem) : Call → Prop
  | .getAPage pf vaddr => ∀ q o, l.offset q (bitByte (s.vaddr pf) vaddr) = some o → ¬ Described o
  | _ => True

/-! ## Runs -/

inductive Event where
  | call (cur : Caller) (c : Call)
  | acquire (cur : Caller) (pf : PoolFlags)
  | release (cur : Caller) (pf : PoolFlags)
  /-- Anything that happens outside the pools' records. -/
  | other (s : Mem)

/-- A thread nests a pool lock less than 2^32 deep, and releases it only where it holds it; no record has been written to. -/
def LegalEvent (l : RecordMap) (s : Mem) : Event → Prop
  | .call cur c => (s.pool c.pool).lock.holderRepeatNr + 1 < 2 ^ 32 ∧ c.Off l { s with cur := cur }
  | .acquire _ pf => (s.pool pf).lock.holderRepeatNr + 1 < 2 ^ 32
  | .release cur pf => (s.pool pf).lock.holder = some cur.tid
  | .other _ => True

def event (l : RecordMap) (s : Mem) : Event → Except Stop Mem
  | .call cur c => do
    let (_, s) ← c.runAt l { s with cur := cur }
    .ok s
  | .acquire cur pf => lockAcquire pf { s with cur := cur }
  | .release cur pf => lockRelease pf { s with cur := cur }
  | .other s' => .ok { s' with pool := s.pool }

/-- The states after mem_pool_init, whatever threads do with the pools. -/
def MemRuns (l : RecordMap) : Mem → Prop :=
  Reach (fun s => ∃ allMem s0, memPoolInit allMem s0 = .ok s) (LegalEvent l) (event l)

/-- The locks while `get_a_page` marks the page: the caller has taken its pool's. -/
def Mem.during (s : Mem) (pf q : PoolFlags) : PoolLock :=
  if q = pf then
    { (s.pool pf).lock with holder := some s.cur.tid, holderRepeatNr := ((s.pool pf).lock.holderRepeatNr + 1) % 2 ^ 32, value := 0 }
  else (s.pool q).lock

/-- The bit lies in no field of a lock, or is set there already. -/
def Untouched (l : RecordMap) (s : Mem) : Call → Prop
  | .getAPage pf vaddr => ∀ q, (s.during pf q).Same
      (l.strike q (bitByte (s.vaddr pf) vaddr) (vaddrIdx (s.vaddr pf) vaddr % 8) (s.during pf q))
  | _ => True

variable {l : RecordMap} {lock lock' la la' : PoolLock} {t : Tid} {s s' s1 : Mem} {pf q : PoolFlags} {a bit o r vaddr : Nat}
  {c : Call}

/-! ## A bit in a record -/

theorem strike_off (h : ∀ q, l.offset q a = none) (s : Mem) (bit : Nat) : s.strike l a bit = s := by
  have hlock : ∀ q, l.strike q a bit (s.pool q).lock = (s.pool q).lock := fun q => by
    unfold RecordMap.strike
    rw [h q]
  unfold Mem.strike
  simp only [hlock]

theorem getAPageAt_off (h : ∀ q, l.offset q (bitByte (s.vaddr pf) vaddr) = none) :
    getAPageAt l pf vaddr s = getAPage pf vaddr s := by
  unfold getAPageAt getAPage
  simp only [strike_off h]

theorem Call.runAt_off (h : c.Off l s) : c.runAt l s = c.run s := by
  cases c with
  | getAPage pf vaddr => exact getAPageAt_off h
  | getKernelPages n => rfl
  | getUserPages n => rfl

/-- Bits are set, not cleared. -/
theorem setBit_grows (lock : PoolLock) (ho : o < sizeofPool) (hb : bit < 8) :
    (lock.setBit o bit).waiters = lock.waiters ∧ lock.value ≤ (lock.setBit o bit).value ∧
      lock.holderRepeatNr ≤ (lock.setBit o bit).holderRepeatNr ∧
      (lock.holderRepeatNr = 0 → (lock.setBit o bit).holderRepeatNr < 2 ^ 32 - 1) := by
  unfold PoolLock.setBit
  split
  · exact ⟨rfl, Nat.le_refl _, Nat.le_refl _, fun h => by rw [h]; decide⟩
  · split
    · exact ⟨rfl, Nat.left_le_or, Nat.le_refl _, fun h => by rw [h]; decide⟩
    · split
      · refine ⟨rfl, Nat.le_refl _, Nat.left_le_or, fun h => ?_⟩
        have hpow : 2 ^ (8 * (o - 40) + bit) ≤ 2 ^ 31 := Nat.pow_le_pow_right (by decide) (by unfold sizeofPool at ho; omega)
        show lock.holderRepeatNr ||| 2 ^ (8 * (o - 40) + bit) < 2 ^ 32 - 1
        rw [h, Nat.zero_or]
        omega
      · exact ⟨rfl, Nat.le_refl _, Nat.le_refl _, fun h => by rw [h]; decide⟩

theorem offset_lt (h : l.offset q a = some o) : o < sizeofPool := by
  unfold RecordMap.offset at h
  split at h
  · cases h
  · next p _ =>
    split at h
    · cases h
      omega
    · cases h

theorem strike_grows (lock : PoolLock) (hb : bit < 8) :
    (l.strike q a bit lock).waiters = lock.waiters ∧ lock.value ≤ (l.strike q a bit lock).value ∧
      lock.holderRepeatNr ≤ (l.strike q a bit lock).holderRepeatNr ∧
      (lock.holderRepeatNr = 0 → (l.strike q a bit lock).holderRepeatNr < 2 ^ 32 - 1) := by
  unfold RecordMap.strike
  cases h : l.offset q a with
  | none => exact ⟨rfl, Nat.le_refl _, Nat.le_refl _, fun h => by rw [h]; decide⟩
  | some o => exact setBit_grows lock (offset_lt h) hb

/-! ## The lock that the call has taken -/

theorem PoolLock.Ok.acquire_eq (h : lock.Ok) (ha : lock.acquire t = .ok la) :
    la = { lock with holder := some t, holderRepeatNr := (lock.holderRepeatNr + 1) % 2 ^ 32, value := 0 } := by
  unfold PoolLock.acquire at ha
  split at ha
  · rcases h with ⟨-, hnr, hv⟩ | ⟨-, -, hv⟩
    · simp only [semaDown, hv, hnr] at ha
      cases ha
      rw [hnr]
      rfl
    · simp only [semaDown, hv] at ha
      cases ha
  · next he =>
    have he : lock.holder = some t := not_not.mp he
    rcases h with ⟨hnone, -, -⟩ | ⟨-, -, hv⟩
    · rw [hnone] at he
      cases he
    · cases ha
      rw [← he, ← hv]

/-- Kept, with whatever bits set: its depth is not the one before. -/
theorem PoolLock.Ok.acquire_ne (h : lock.Ok) (ha : lock.acquire t = .ok la) (hle : la.holderRepeatNr ≤ la'.holderRepeatNr)
    (hmax : la.holderRepeatNr = 0 → la'.holderRepeatNr < 2 ^ 32 - 1) : ¬ lock.Same la' := by
  intro hsame
  obtain ⟨-, hnr, -⟩ := hsame
  have hdepth := congrArg PoolLock.holderRepeatNr (h.acquire_eq ha)
  have hlt : lock.holderRepeatNr < 2 ^ 32 := by
    rcases h with ⟨-, h0, -⟩ | ⟨-, hpos, -⟩ <;> omega
  simp only at hdepth
  omega

/-- Released, it is as it was before exactly when no bit has been set meanwhile. -/
theorem PoolLock.Ok.release_iff (h : lock.Ok) (ha : lock.acquire t = .ok la) (hle : la.holderRepeatNr ≤ la'.holderRepeatNr)
    (hmax : la.holderRepeatNr = 0 → la'.holderRepeatNr < 2 ^ 32 - 1) (hr : la'.release t = .ok lock') :
    lock.Same lock' ↔ la.Same la' := by
  obtain ⟨hh, hv, hn⟩ := h.acquire ha
  have hla : la.holderRepeatNr = (lock.holderRepeatNr + 1) % 2 ^ 32 := congrArg PoolLock.holderRepeatNr (h.acquire_eq ha)
  obtain ⟨hh', ⟨h1, he⟩ | ⟨h1, hv', hrh, hrn, hrv⟩⟩ := PoolLock.release_cases hr
  · -- the caller had the lock before
    subst he
    unfold PoolLock.Same
    simp only
    rcases h with ⟨hnone, h0, h1v⟩ | ⟨hne, hpos, h0v⟩
    · rw [h0] at hla
      rw [hh', hnone, hh, h0, hla, h1v, hv]
      constructor
      · intro hsame
        cases hsame.1
      · intro hsame
        omega
    · have hl : lock.holder = some t := by
        rcases hn with ⟨hl, -⟩ | ⟨hl, -⟩
        · exact absurd hl hne
        · exact hl
      rw [hh', hl, hh, h0v, hv]
      constructor
      · intro hsame
        exact ⟨rfl, by omega, hsame.2.2⟩
      · intro hsame
        exact ⟨rfl, by omega, hsame.2.2⟩
  · -- it was free
    unfold PoolLock.Same
    rw [hrh, hrn, hrv, hh', hh, h1, hv', hv]
    rcases h with ⟨hnone, h0, h1v⟩ | ⟨hne, hpos, h0v⟩
    · rw [h0] at hla
      rw [hnone, h0, h1v, hla]
      exact iff_of_true ⟨rfl, rfl, rfl⟩ ⟨rfl, rfl, rfl⟩
    · constructor
      · intro hsame
        exact absurd hsame.1.symm hne
      · intro hsame
        omega

/-! ## One call -/

theorem strike_cur (s : Mem) (l : RecordMap) (a bit : Nat) : (s.strike l a bit).cur = s.cur := rfl

theorem strike_full (s : Mem) (l : RecordMap) (a bit : Nat) (pf : PoolFlags) :
    (∀ i, i < (s.strike l a bit).frames pf → (s.strike l a bit).Taken pf i) ↔ ∀ i, i < s.frames pf → s.Taken pf i := Iff.rfl

/-- The lock, the bit, a frame; where there is one, the mapping and the lock. -/
theorem getAPageAt_ok (h : getAPageAt l pf vaddr s = .ok (r, s')) :
    ∃ la sm f sp, (s.pool pf).lock.acquire s.cur.tid = .ok la ∧ markVaddr pf vaddr (s.setLock pf la) = .ok sm ∧
      palloc pf (sm.strike l (bitByte (s.vaddr pf) vaddr) (vaddrIdx (s.vaddr pf) vaddr % 8)) = .ok (f, sp) ∧
      (f = 0 ∧ s' = sp ∨ f ≠ 0 ∧ ∃ sadd, pageTableAdd vaddr f sp = .ok sadd ∧ lockRelease pf sadd = .ok s') := by
  obtain ⟨sa, ha, h⟩ := bind_ok_iff.mp h
  obtain ⟨la, hla, rfl⟩ := lockAcquire_ok ha
  obtain ⟨sm, hm, h⟩ := bind_ok_iff.mp h
  obtain ⟨⟨f, sp⟩, hp, h⟩ := bind_ok_iff.mp h
  refine ⟨la, sm, f, sp, hla, hm, hp, ?_⟩
  simp only at h
  split at h
  · next h0 =>
    cases h
    exact .inl ⟨h0, rfl⟩
  · next h0 =>
    obtain ⟨sadd, hadd, h⟩ := bind_ok_iff.mp h
    obtain ⟨sr, hr, h⟩ := bind_ok_iff.mp h
    cases h
    exact .inr ⟨h0, sadd, hadd, hr⟩

theorem Mem.during_self (h : (s.pool pf).lock.Ok) (ha : (s.pool pf).lock.acquire s.cur.tid = .ok la) : s.during pf pf = la := by
  rw [h.acquire_eq ha]
  exact if_pos rfl

theorem Mem.during_other (hne : q ≠ pf) : s.during pf q = (s.pool q).lock := if_neg hne

/-- The locks when the bit has been set. -/
theorem struck_lock {sm : Mem} {a bit : Nat} (h : (s.pool pf).lock.Ok) (ha : (s.pool pf).lock.acquire s.cur.tid = .ok la)
    (hm : markVaddr pf vaddr (s.setLock pf la) = .ok sm) (q : PoolFlags) :
    ((sm.strike l a bit).pool q).lock = l.strike q a bit (s.during pf q) := by
  have hpool : (sm.pool q).lock = s.during pf q := by
    rw [(markVaddr_kept hm).pool]
    by_cases hq : q = pf
    · subst hq
      rw [setLock_lock, Mem.during_self h ha]
    · rw [setLock_other _ _ hq, Mem.during_other hq]
  show l.strike q a bit (sm.pool q).lock = _
  rw [hpool]

theorem getAPageAt_balanced (hl : (s.pool pf).lock.Ok) (h : getAPageAt l pf vaddr s = .ok (r, s')) :
    Balanced s s' ↔ FrameLeft s (.getAPage pf vaddr) ∧ Untouched l s (.getAPage pf vaddr) := by
  obtain ⟨la, sm, f, sp, hla, hm, hp, hend⟩ := getAPageAt_ok h
  have hb : vaddrIdx (s.vaddr pf) vaddr % 8 < 8 := Nat.mod_lt _ (by decide)
  have hfull := palloc_null hp
  rw [strike_full, marked_full hm] at hfull
  have hstruck : ∀ q, ((sm.strike l (bitByte (s.vaddr pf) vaddr) (vaddrIdx (s.vaddr pf) vaddr % 8)).pool q).lock =
      l.strike q (bitByte (s.vaddr pf) vaddr) (vaddrIdx (s.vaddr pf) vaddr % 8) (s.during pf q) := struck_lock hl hla hm
  have hcur : (sm.strike l (bitByte (s.vaddr pf) vaddr) (vaddrIdx (s.vaddr pf) vaddr % 8)).cur = s.cur :=
    (strike_cur ..).trans (markVaddr_kept hm).cur
  have hk := palloc_kept hp
  obtain ⟨-, -, hle, hmax⟩ := strike_grows (l := l) (q := pf) (a := bitByte (s.vaddr pf) vaddr) la hb
  generalize sm.strike l (bitByte (s.vaddr pf) vaddr) (vaddrIdx (s.vaddr pf) vaddr % 8) = st at hp hstruck hk hcur
  rcases hend with ⟨h0, rfl⟩ | ⟨h0, sadd, hadd, hr⟩
  · refine iff_of_false (fun hbal => ?_) fun hleft => hfull.mp h0 hleft.1
    have hsame := hbal pf
    rw [hk.pool, hstruck, Mem.during_self hl hla] at hsame
    exact hl.acquire_ne hla hle hmax hsame
  · have hleft : FrameLeft s (.getAPage pf vaddr) := by_contra fun hn => h0 (hfull.mpr hn)
    obtain ⟨lr, hrel, rfl⟩ := lockRelease_ok hr
    have hka := hk.trans (pageTableAdd_kept hadd)
    rw [hka.pool, hstruck, Mem.during_self hl hla, hka.cur, hcur] at hrel
    have hown := hl.release_iff hla hle hmax hrel
    have hother : ∀ q, q ≠ pf → ((sadd.setLock pf lr).pool q).lock =
        l.strike q (bitByte (s.vaddr pf) vaddr) (vaddrIdx (s.vaddr pf) vaddr % 8) (s.during pf q) := fun q hq => by
      rw [setLock_other _ _ hq, hka.pool, hstruck]
    constructor
    · intro hbal
      refine ⟨hleft, fun q => ?_⟩
      have hsame := hbal q
      by_cases hq : q = pf
      · subst hq
        rw [setLock_lock] at hsame
        rw [Mem.during_self hl hla]
        exact hown.mp hsame
      · rw [hother q hq] at hsame
        rw [Mem.during_other hq] at hsame ⊢
        exact hsame
    · rintro ⟨-, hun⟩ q
      have hsame := hun q
      by_cases hq : q = pf
      · subst hq
        rw [Mem.during_self hl hla] at hsame
        rw [setLock_lock]
        exact hown.mpr hsame
      · rw [hother q hq]
        rw [Mem.during_other hq] at hsame ⊢
        exact hsame

/-! ## Every run -/

theorem MemRuns.locks (h : MemRuns l s) : ∀ pf, (s.pool pf).lock.Ok := by
  apply h.invariant (P := fun s => ∀ pf, (s.pool pf).lock.Ok)
  · intro s hex
    obtain ⟨allMem, s0, hs⟩ := hex
    rw [memPoolInit_eq] at hs
    cases hs; exact poolsInit_locks allMem s0
  · intro s s' ev hP hl he
    cases ev with
    | call cur c =>
      obtain ⟨⟨r, s1⟩, hr, he⟩ := bind_ok_iff.mp he
      rw [Call.runAt_off hl.2] at hr
      cases he; exact run_ok (s := { s with cur := cur }) hP hl.1 hr
    | acquire cur pf =>
      obtain ⟨la, hla, rfl⟩ := lockAcquire_ok he
      exact setLock_ok (s := { s with cur := cur }) hP ((hP pf).acquired hl hla)
    | release cur pf =>
      obtain ⟨la, hla, rfl⟩ := lockRelease_ok he
      exact setLock_ok (s := { s with cur := cur }) hP ((hP pf).released hla)
    | other s1 => cases he; exact hP

/-- A call that returns leaves the pool locks as they were exactly when a frame is left for it and its bit changes no lock. -/
theorem balanced_iff (hs : MemRuns l s) (hp : c.Plain l s) (h : c.runAt l s = .ok (r, s')) :
    Balanced s s' ↔ FrameLeft s c ∧ Untouched l s c := by
  cases c with
  | getKernelPages pgCnt =>
    have h : getKernelPages pgCnt s = .ok (r, s') := h
    exact iff_of_true (getKernelPages_balanced (hs.locks _) h) ⟨trivial, trivial⟩
  | getUserPages pgCnt =>
    have h : getUserPages pgCnt s = .ok (r, s') := h
    exact iff_of_true (getUserPages_balanced (hs.locks _) h) ⟨trivial, trivial⟩
  | getAPage pf vaddr => exact getAPageAt_balanced (hs.locks pf) h

/-! ### Eight frames, nine pages; and a process whose page's bit is one of holder_repeat_nr -/

theorem PoolFlags.forall_iff {P : PoolFlags → Prop} : (∀ q, P q) ↔ P .kernel ∧ P .user :=
  ⟨fun h => ⟨h .kernel, h .user⟩, fun h q => by cases q with | kernel => exact h.1 | user => exact h.2⟩

instance (l : RecordMap) (s : Mem) (c : Call) : Decidable (c.Off l s) :=
  match c with
  | .getAPage pf vaddr => decidable_of_iff' _ (PoolFlags.forall_iff (P := fun q => l.offset q (bitByte (s.vaddr pf) vaddr) = none))
  | .getKernelPages _ => inferInstanceAs (Decidable True)
  | .getUserPages _ => inferInstanceAs (Decidable True)

instance (l : RecordMap) (s : Mem) (ev : Event) : Decidable (LegalEvent l s ev) :=
  match ev with
  | .call cur c => inferInstanceAs (Decidable ((s.pool c.pool).lock.holderRepeatNr + 1 < 2 ^ 32 ∧ c.Off l { s with cur := cur }))
  | .acquire _ pf => inferInstanceAs (Decidable ((s.pool pf).lock.holderRepeatNr + 1 < 2 ^ 32))
  | .release cur pf => inferInstanceAs (Decidable ((s.pool pf).lock.holder = some cur.tid))
  | .other _ => inferInstanceAs (Decidable True)

/-- The records at 0xc0005000 and 0xc0005040. -/
def records : RecordMap
  | .kernel => 0x5000
  | .user => 0x5040

/-- Page `i` above the first of the kernel heap. -/
def nthPage (i : Nat) : Call := .getAPage .kernel (kHeapStart + (i + 1) * pgSize)

/-- The kernel thread has taken all eight frames, a page at a time. -/
def drained : Mem :=
  ((List.range 8).map fun i => Event.call kernelThread (nthPage i)).foldl (next (event records)) (poolsInit 0x210000 smallMem)

theorem drained_runs : MemRuns records drained :=
  Reach.script (.first ⟨0x210000, smallMem, memPoolInit_eq _ _⟩) (by decide +kernel)

theorem drained_null : ∃ s', (nthPage 8).runAt records drained = .ok (0, s') := by
  have h : ((nthPage 8).runAt records drained).toOption.any (fun r => r.1 = 0) = true := by decide +kernel
  obtain ⟨⟨v, s'⟩, he, hr⟩ := ok_of_any h
  cases of_decide_eq_true hr
  exact ⟨s', he⟩

theorem drained_full : ¬ FrameLeft drained (nthPage 8) := by
  have h : ∀ i, i < 8 → (drained.pool .kernel).poolBitmap.Used drained.data i := by decide +kernel
  intro hex
  obtain ⟨i, hi, hfree, -⟩ := hex
  exact hfree (h i hi)

/-- The ninth call answers NULL and returns with the lock taken. -/
theorem getAPage_keeps_lock : ¬ ∀ (l : RecordMap) (s : Mem) (c : Call) (r : Nat) (s' : Mem), MemRuns l s →
    c.runAt l s = .ok (r, s') → Balanced s s' := by
  intro h
  obtain ⟨s', he⟩ := drained_null
  have hl : (drained.pool .kernel).lock.Ok := drained_runs.locks .kernel
  exact drained_full ((getAPageAt_balanced hl he).mp (h records drained (nthPage 8) 0 s' drained_runs he)).1

/-- A process after mem_pool_init, with a page table for 0x28000000 to 0x283fffff. -/
def strayed : Mem :=
  poolsInit 0x210000 { smallMem with
    phys := smallMem.phys.write32 (0x100000 + 0xa0 * 4) 0x102007
    cur := ⟨0xc0105000, 0xc0106000, noRange⟩ }

/-- The bit of this page is bit 1 of user_pool.lock.holder_repeat_nr: 1 becomes 3 under way. -/
def strayPage : Call := .getAPage .user 0x28341000

theorem strayed_held : ∃ s', strayPage.runAt records strayed = .ok (0x28341000, s') ∧ (s'.pool .user).lock.holderRepeatNr = 2 := by
  have h : (strayPage.runAt records strayed).toOption.any (fun r => r.1 = 0x28341000 ∧
      (r.2.pool .user).lock.holderRepeatNr = 2) = true := by decide +kernel
  obtain ⟨⟨v, s'⟩, he, hr⟩ := ok_of_any h
  obtain ⟨hv, hnr⟩ := of_decide_eq_true hr
  cases hv
  exact ⟨s', he, hnr⟩

theorem Call.Off.plain (h : c.Off l s) : c.Plain l s := by
  cases c with
  | getAPage pf vaddr =>
    intro q o he
    rw [h q] at he
    cases he
  | getKernelPages n => trivial
  | getUserPages n => trivial

theorem strayPage_plain : strayPage.Plain records strayed := by
  intro q o he
  have hoff : ∀ q, records.offset q (bitByte (strayed.vaddr .user) 0x28341000) = if q = .user then some 40 else none :=
    PoolFlags.forall_iff.mpr (by decide +kernel)
  rw [hoff] at he
  cases q with
  | kernel => cases he
  | user =>
    cases he
    unfold Described
    decide

theorem drained_unbalanced :
    (∃ s', (nthPage 8).runAt records drained = .ok (0, s') ∧
      (Balanced drained s' ↔ FrameLeft drained (nthPage 8) ∧ Untouched records drained (nthPage 8))) ∧
    ∃ s', strayPage.runAt records strayed = .ok (0x28341000, s') ∧ ¬ Balanced strayed s' ∧
      (Balanced strayed s' ↔ FrameLeft strayed strayPage ∧ Untouched records strayed strayPage) := by
  obtain ⟨s1, h1⟩ := drained_null
  obtain ⟨s2, h2, hnr⟩ := strayed_held
  refine ⟨⟨s1, h1, balanced_iff drained_runs (Call.Off.plain (by decide +kernel)) h1⟩, s2, h2, fun hbal => ?_, ?_⟩
  · have hsame := (hbal .user).2.1
    rw [hnr] at hsame
    exact absurd hsame (by decide)
  · exact balanced_iff (.first ⟨0x210000, _, memPoolInit_eq _ _⟩) strayPage_plain h2

end TinyOs.Memory
