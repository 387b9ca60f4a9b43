/-
  TinyOs.Memory.Exhaustion — `get_user_pages`, `get_a_page` and `thread_start` when
  memory runs out.

  Any threads make these requests, allocate kernel pages, create directories and write
  to memory, under any directory that exists. A request is `Reported` when it returns,
  and everything it made present names a frame that `palloc` gave it; or when it stops
  for another reason than exhaustion: the lock is held by another thread, or has no
  waiters list, or what `vaddr_get` found is mapped already or is the user stack.

  Three NULLs are not tested for: `get_user_pages` clears what `malloc_page` answered,
  `init_thread` what `get_kernel_pages` answered, and `page_table_add` enters what
  `palloc` answered as a table. `HasRoom` is that none of them comes up: pages enough in
  the range, frames enough for them, and frames of kernel_pool enough for their tables.
  - `exhaustion_reported`: in runs whose requests have room, every request is reported.
  - `getUserPages_crashes`: the first of the three, in the state after booting.
-/

import TinyOs.Memory.NewThread

namespace TinyOs.Memory

open TinyOs.Kernel TinyOs.Lib TinyOs.Logic

inductive Req where
  | getUserPages (pgCnt : Nat)
  | getAPage (pf : PoolFlags) (vaddr : Nat)
  | threadStart (a : ThreadArgs)

namespace Req

def run (s : Mem) : Req → Except Stop (Nat × Mem)
  | .getUserPages pgCnt => Memory.getUserPages pgCnt s
  | .getAPage pf vaddr => Memory.getAPage pf vaddr s
  | .threadStart a => Memory.threadStart a s

/-- The pool that the pages' frames come from. -/
def pool : Req → PoolFlags
  | .getUserPages _ => .user
  | .getAPage pf _ => pf
  | .threadStart _ => .kernel

def count : Req → Nat
  | .getUserPages pgCnt => pgCnt
  | .getAPage _ _ | .threadStart _ => 1

/-- The first bit that is set in the range's bitmap. -/
def bit (s : Mem) : Req → Option Nat
  | .getUserPages pgCnt => bitmapScan s.data s.cur.userprogVaddr.vaddrBitmap pgCnt
  | .getAPage pf vaddr => some (vaddrIdx (s.vaddr pf) vaddr)
  | .threadStart _ => bitmapScan s.data s.kernelVaddr.vaddrBitmap 1

/-- The first page that is mapped, when that bit is `b`. -/
def page (s : Mem) (b : Nat) : Req → Nat
  | .getUserPages _ => s.cur.userprogVaddr.page b
  | .getAPage _ vaddr => vaddr
  | .threadStart _ => s.kernelVaddr.page b

end Req

/-- The state in which the request asks for frames. -/
def Req.reserved (s : Mem) (r : Req) : Mem :=
  match r.bit s with
  | none => s
  | some b => s.reserve r.pool b r.count

/-- The request finds its pages, their frames, and frames for the tables they lack;
`get_a_page` may find its pool empty instead. -/
def Req.HasRoom (s : Mem) (r : Req) : Prop :=
  (∃ b, r.bit s = some b ∧ (r.reserved s).Enough (r.page s b) r.count r.pool) ∨
    ∃ pf vaddr, r = .getAPage pf vaddr ∧ (r.reserved s).free pf = ∅

/-- The ways to stop that are no exhaustion. -/
inductive Req.OtherCause (s : Mem) (r : Req) : Stop → Prop
  | waits (t : Tid) : t ≠ s.cur.tid → (s.pool r.pool).lock.holder = some t → OtherCause s r .blocked
  | waiters : (s.pool r.pool).lock.waiters = none → OtherCause s r .fault
  | mapped (b i : Nat) : r.bit s = some b → i < r.count → translate s.phys s.cr3 (r.page s b + i * pgSize) ≠ none →
      OtherCause s r (.assert .tableAddPte)
  | stack (pgCnt b : Nat) : r = .getUserPages pgCnt → r.bit s = some b → 0xc0000000 - pgSize ≤ r.page s b →
      OtherCause s r (.assert .vaddrGetUser)

/-- The request returns, a page or NULL, with only frames handed out made present; or it stops for another cause. -/
structure Reported (dirs : List Nat) (s : Mem) (r : Req) : Prop where
  returns : ∀ v s', r.run s = .ok (v, s') → Adds dirs (r.reserved s) s'
  stops : ∀ e, r.run s = .error e → r.OtherCause s e

/-! ## Runs -/

inductive SysOp where
  | request (dir : Nat) (cur : Caller) (r : Req)
  | getKernelPages (dir : Nat) (cur : Caller) (pgCnt : Nat)
  | createPageDir (dir : Nat) (cur : Caller)
  | write (a : Nat) (b : BitVec 8)

def sysStep (S : Space) : SysOp → Except Stop Space
  | .request dir cur r => do
    let (_, s) ← r.run (S.mem.activate dir cur)
    .ok ⟨s, S.dirs⟩
  | .getKernelPages dir cur pgCnt => spaceStep S (.getKernelPages dir cur pgCnt)
  | .createPageDir dir cur => spaceStep S (.createPageDir dir cur)
  | .write a b => .ok ⟨{ S.mem with phys := S.mem.phys.write8 a b }, S.dirs⟩

/-- A process asks for user memory, a kernel thread for kernel memory, page 0 of the range
and the window on the tables apart, at an address that is not mapped. -/
structure Permitted (s : Mem) (pf : PoolFlags) (vaddr : Nat) : Prop where
  task : s.cur.pgdir ≠ 0 ∧ pf = .user ∨ s.cur.pgdir = 0 ∧ pf = .kernel
  idx : 0 < vaddrIdx (s.vaddr pf) vaddr
  below : vaddr < 0xffc00000
  unmapped : translate s.phys s.cr3 vaddr = none

/-- A range starts at a page. -/
def Req.Legal (s : Mem) : Req → Prop
  | .getUserPages pgCnt => 1 ≤ pgCnt ∧ pgCnt < 3840 ∧ s.cur.userprogVaddr.vaddrStart % pgSize = 0
  | .getAPage pf vaddr => Permitted s pf vaddr
  | .threadStart a => a.Fits

/-- A directory that exists is active, and a pool lock is nested less than 2^32 deep.
Nobody writes to a directory. -/
def SysLegal (S : Space) : SysOp → Prop
  | .request dir cur r => dir ∈ S.dirs ∧ (S.mem.pool r.pool).lock.holderRepeatNr + 1 < 2 ^ 32 ∧ r.Legal (S.mem.activate dir cur)
  | .getKernelPages dir _ _ | .createPageDir dir _ => dir ∈ S.dirs ∧ (S.mem.pool .kernel).lock.holderRepeatNr + 1 < 2 ^ 32
  | .write a _ => ∀ d ∈ S.dirs, a ∉ frame d

/-- The requests have room. -/
def Roomy (S : Space) : SysOp → Prop
  | .request dir cur r => r.HasRoom (S.mem.activate dir cur)
  | _ => True

def SysRuns : Space → Prop := Reach SpaceStart SysLegal sysStep

def RoomyRuns : Space → Prop := Reach SpaceStart (fun S op => SysLegal S op ∧ Roomy S op) sysStep

variable {s s' s'' : Mem} {dirs : List Nat} {pf : PoolFlags} {r : Req} {b n v f : Nat} {m : Bytes} {l l' : PoolLock} {t : Tid}

/-! ## What a request keeps -/

/-- The directories are healthy again, and what is present was present or names a frame handed out. -/
structure Good (dirs : List Nat) (s s' : Mem) : Prop where
  stays : Stays s s'
  healthy : Healthy s' dirs
  adds : Adds dirs s s'

theorem Good.trans (h : Good dirs s s') (h' : Good dirs s' s'') : Good dirs s s'' :=
  ⟨h.stays.trans h'.stays, h'.healthy, h.adds.trans h'.adds h.stays h'.stays⟩

/-- Nothing happens to physical memory. -/
theorem Healthy.good (h : Healthy s dirs) (hst : Stays s s') (hp : s'.phys = s.phys) : Good dirs s s' := by
  refine ⟨hst, h.stays hst fun d _ x _ => by rw [hp], Adds.same ?_ ?_⟩
  · intro d _ j _
    rw [hp]
  · intro d _ va _
    rw [hp]

theorem Filled.good {g : Nat → Nat} {va : Nat} (h : Filled dirs va n pf g s s') : Good dirs s s' :=
  ⟨h.kept.stays, h.healthy, h.adds⟩

/-- Stores outside the directories and outside the tables that they name. -/
theorem Healthy.stores (h : Healthy s dirs) (hd : ∀ d ∈ dirs, Set.EqOn m s.phys (frame d))
    (ht : ∀ d ∈ dirs, ∀ j, j < 1023 → Present (s.phys.read32 (d + j * 4)) →
      Set.EqOn m s.phys (frame (frameOf (s.phys.read32 (d + j * 4))))) : Good dirs s { s with phys := m } := by
  have hst := (kept_phys s m).stays
  have hw : ∀ d ∈ dirs, ∀ j, j < 1024 → m.read32 (d + j * 4) = s.phys.read32 (d + j * 4) := fun d hdm j hj =>
    Bytes.read32_congr ((hd d hdm).mono (pde_word_subset hj))
  refine ⟨hst, h.stays hst hd, Adds.same hw ?_⟩
  intro d hdm va hv
  have hj := pdeIdx_lt_window hv
  apply translate_same (hw d hdm _ (by omega))
  intro hp
  exact Bytes.read32_congr ((ht d hdm _ hj hp).mono (pteAt_word _ _ _))

/-- Every known frame lies below the start of user_pool. -/
theorem Healthy.frame_subset {g : Nat} (h : Healthy s dirs) (hg : Known s g) :
    frame g ⊆ Set.Iio (s.pool .user).phyAddrStart := by
  intro x hx
  have hx := (Set.mem_Ico.mp hx).2
  have hb := h.below hg
  unfold pgSize at hb
  exact Set.mem_Iio.mpr (by omega)

/-- Stores above the start of user_pool. -/
theorem Healthy.high_stores (h : Healthy s dirs) (hm : Set.EqOn m s.phys (Set.Iio (s.pool .user).phyAddrStart)) :
    Good dirs s { s with phys := m } := by
  apply h.stores
  · intro d hd
    exact hm.mono (h.frame_subset (h.known d hd))
  · intro d hd j hj hp
    exact hm.mono (h.frame_subset (h.table hd hj hp).1)

/-! ## The pool locks -/

/-- A lock is taken, or another thread holds it. -/
theorem PoolLock.Ok.acquire_or (h : l.Ok) (t : Tid) :
    (∃ l', l.acquire t = .ok l' ∧ l'.waiters = l.waiters) ∨
      l.acquire t = .error .blocked ∧ ∃ u, u ≠ t ∧ l.holder = some u := by
  unfold PoolLock.acquire
  by_cases ht : l.holder = some t
  · rw [if_neg (not_not.mpr ht)]
    exact .inl ⟨_, rfl, rfl⟩
  · rw [if_pos ht]
    rcases h with ⟨-, hnr, hv⟩ | ⟨hne, -, hv⟩
    · refine .inl ⟨⟨some t, 1, 0, l.waiters⟩, ?_, rfl⟩
      simp [semaDown, hv, hnr]
    · refine .inr ⟨?_, ?_⟩
      · simp [semaDown, hv]
      · obtain ⟨u, hu⟩ := Option.ne_none_iff_exists'.mp hne
        exact ⟨u, fun e => ht (by rw [hu, e]), hu⟩

/-- A lock just taken is released, or has no waiters list. -/
theorem PoolLock.Ok.release_or (h : l.Ok) (hb : l.holderRepeatNr + 1 < 2 ^ 32) (ha : l.acquire t = .ok l') :
    (∃ l1, l'.release t = .ok l1) ∨ l'.waiters = none ∧ l'.release t = .error .fault := by
  obtain ⟨hh, hv, hn⟩ := h.acquire ha
  have hpos : 0 < l'.holderRepeatNr := by
    rcases hn with ⟨-, hn⟩ | ⟨-, hn⟩ <;> omega
  unfold PoolLock.release
  by_cases h1 : 1 < l'.holderRepeatNr
  · refine .inl ⟨{ l' with holderRepeatNr := l'.holderRepeatNr - 1 }, ?_⟩
    simp [hh, h1]
  · have h1 : l'.holderRepeatNr = 1 := by omega
    cases hw : l'.waiters with
    | none =>
      refine .inr ⟨rfl, ?_⟩
      simp [hh, h1, semaUp, hv]
    | some ts =>
      refine .inl ⟨⟨none, 0, 1, some ts.tail⟩, ?_⟩
      simp [hh, h1, semaUp, hv]

/-! ## malloc_page -/

theorem free_setLock (s : Mem) (pf q : PoolFlags) (l : PoolLock) : (s.setLock pf l).free q = s.free q := by
  ext i
  rw [mem_free, mem_free]
  unfold Mem.frames Mem.Taken
  rw [setLock_poolBitmap]
  rfl

theorem Mem.Enough.setLock {va : Nat} {q : PoolFlags} (h : s.Enough va n q) (pf : PoolFlags) (l : PoolLock) :
    (s.setLock pf l).Enough va n q := by
  have hl : (s.setLock pf l).lacking va n = s.lacking va n := rfl
  cases q with
  | kernel =>
    show n + _ ≤ _
    rw [free_setLock, hl]
    exact h
  | user =>
    show n ≤ _ ∧ _ ≤ _
    rw [free_setLock, free_setLock, hl]
    exact h

theorem reserve_setLock (s : Mem) (pf q : PoolFlags) (l : PoolLock) (b n : Nat) :
    (s.setLock q l).reserve pf b n = (s.reserve pf b n).setLock q l := by
  cases pf <;> rfl

/-- The pages that the scan answers lie below the window on the tables. -/
theorem Healthy.scanned (h : Healthy s dirs) (hd : s.cr3 ∈ dirs) (pf : PoolFlags) (hn : 1 ≤ n ∧ n < 3840)
    (hb : bitmapScan s.data (s.vaddr pf).vaddrBitmap n = some b)
    (hlow : pf = .kernel ∨ (s.vaddr pf).page b < 0xc0000000 - pgSize) : (s.vaddr pf).page b + n * pgSize ≤ 0xffc00000 := by
  obtain ⟨-, hbn, -⟩ := bitmapScan_some hn.1 hb
  rcases hlow with rfl | hlow
  · exact ((h.space hd).page hbn).2.1
  · unfold pgSize at hlow ⊢
    omega

/-- `malloc_page` with room: it stops at one of its two ASSERTs on the pages found, or maps them. -/
theorem mallocPage_room (h : Healthy s dirs) (hd : s.cr3 ∈ dirs) (pf : PoolFlags) (hn : 1 ≤ n ∧ n < 3840)
    (hb : bitmapScan s.data (s.vaddr pf).vaddrBitmap n = some b)
    (he : (s.reserve pf b n).Enough ((s.vaddr pf).page b) n pf) :
    (pf = .user ∧ 0xc0000000 - pgSize ≤ (s.vaddr pf).page b ∧ mallocPage pf n s = .error (.assert .vaddrGetUser)) ∨
      ((∃ i, i < n ∧ translate s.phys s.cr3 ((s.vaddr pf).page b + i * pgSize) ≠ none) ∧
        mallocPage pf n s = .error (.assert .tableAddPte)) ∨
      ∃ s' g, mallocPage pf n s = .ok ((s.vaddr pf).page b, s') ∧ (s.vaddr pf).page b ≠ 0 ∧
        (pf = .kernel ∨ (s.vaddr pf).page b < 0xc0000000 - pgSize) ∧
        mapPages pf n ((s.vaddr pf).page b) (s.reserve pf b n) = .ok (true, s') ∧
        Filled dirs ((s.vaddr pf).page b) n pf g (s.reserve pf b n) s' := by
  obtain ⟨-, -, hlen⟩ := bitmapScan_some hn.1 hb
  obtain ⟨hlt, hpos⟩ := (s.vaddr pf).page_lt hlen
  have hmod : ((s.vaddr pf).vaddrStart + b * pgSize) % 2 ^ 32 = (s.vaddr pf).page b := Nat.mod_eq_of_lt hlt
  have hst := (reserve_kept s pf b n).stays
  have hres : Healthy (s.reserve pf b n) dirs := h.stays hst fun d _ x _ => rfl
  have hget : vaddrGet pf n s = (do
      assert (pf = .kernel ∨ (s.vaddr pf).page b < 0xc0000000 - pgSize) .vaddrGetUser
      .ok ((s.vaddr pf).page b, s.reserve pf b n)) := by
    unfold vaddrGet
    rw [hb]
    simp only [setBits_eq, ok_bind, hmod]
    rfl
  unfold mallocPage
  rw [decide_eq_true (by omega : 0 < n ∧ n < 3840), assert_true, ok_bind, hget]
  by_cases hlow : pf = .kernel ∨ (s.vaddr pf).page b < 0xc0000000 - pgSize
  · rw [decide_eq_true hlow, assert_true, ok_bind, ok_bind]
    simp only
    rw [if_neg (by omega)]
    rcases mapPages_room hres hd (h.scanned hd pf hn hb hlow) (by omega) he with ⟨hmap, hstop⟩ | ⟨s', g, hmap, hf⟩
    · rw [hstop]
      exact .inr (.inl ⟨hmap, rfl⟩)
    · rw [hmap]
      exact .inr (.inr ⟨s', g, rfl, by omega, hlow, rfl, hf⟩)
  · have hu : pf = .user := by
      cases pf with
      | kernel => exact absurd (.inl rfl) hlow
      | user => rfl
    rw [decide_eq_false hlow]
    exact .inl ⟨hu, by omega, rfl⟩

/-! ## get_user_pages -/

/-- The request returns with everything in order, or stops for another reason than exhaustion. -/
def Served (dirs : List Nat) (s : Mem) (r : Req) : Prop :=
  (∃ v s', r.run s = .ok (v, s') ∧ Good dirs (r.reserved s) s') ∨ ∃ e, r.run s = .error e ∧ r.OtherCause s e

/-- A walk that ends reads nothing above the start of user_pool. -/
theorem Healthy.footprint (h : Healthy s dirs) (hd : s.cr3 ∈ dirs) {va pa : Nat} (hv : va < 0xffc00000)
    (ht : translate s.phys s.cr3 va = some pa) : footprint s.phys s.cr3 va ⊆ Set.Iio (s.pool .user).phyAddrStart := by
  have hj := pdeIdx_lt_window hv
  have hp : Present (s.phys.read32 (s.cr3 + pdeIdx va * 4)) := by
    by_contra hp
    rw [translate_absent hp] at ht
    cases ht
  unfold Memory.footprint
  refine Set.union_subset ?_ ?_
  · exact (pde_word_subset (by omega)).trans (h.frame_subset (h.known _ hd))
  · exact (pteAt_word _ _ _).trans (h.frame_subset (h.table hd hj hp).1)

/-- memset over user pages writes to frames of user_pool only. -/
theorem Filled.user_memset {g : Nat → Nat} {va : Nat} (h : Filled dirs va n .user g s s') (hd : s.cr3 ∈ dirs) (hva : va ≠ 0)
    (hal : va % 4096 = 0) (hend : va + n * pgSize ≤ 0xffc00000) :
    ∃ m, memset s'.phys s'.cr3 va 0 (n * pgSize % 2 ^ 32) = .ok m ∧ Good dirs s' { s' with phys := m } := by
  have hcr3 : s'.cr3 = s.cr3 := h.kept.cr3
  have hstart : (s'.pool .user).phyAddrStart = (s.pool .user).phyAddrStart := h.kept.stays.start .user
  have hd' : s'.cr3 ∈ dirs := by rw [hcr3]; exact hd
  have hmaps : ∀ k, k < n * pgSize →
      translate s'.phys s'.cr3 (va + k) = some ((s.pool .user).frame (g (k / 4096)) + k % 4096) := by
    intro k hk
    have hpage := h.pages (k / 4096) (by unfold pgSize at hk; omega) (va + k) (by unfold pgSize; omega)
    rw [hcr3, hpage]
    exact congrArg some (by omega)
  have hwin : Window s'.phys s'.cr3 (Set.Iio (s'.pool .user).phyAddrStart) va (n * pgSize)
      fun k => (s.pool .user).frame (g (k / 4096)) + k % 4096 :=
    ⟨hmaps, fun k hk => h.healthy.footprint hd' (by unfold pgSize at *; omega) (hmaps k hk)⟩
  have hhigh : ∀ k, (s'.pool .user).phyAddrStart ≤ (s.pool .user).frame (g (k / 4096)) + k % 4096 := by
    intro k
    rw [hstart]
    unfold Pool.frame
    omega
  obtain ⟨m, he, -, hout⟩ := memset_spec 0 hwin (fun k _ hx => by have := Set.mem_Iio.mp hx; have := hhigh k; omega)
    (by omega) (by omega)
  rw [Nat.mod_eq_of_lt (by omega)]
  refine ⟨m, he, h.healthy.high_stores ?_⟩
  intro x hx
  have hx := Set.mem_Iio.mp hx
  exact hout x fun k _ e => by have := hhigh k; omega

/-- The lock is released, or has no waiters list; either way nothing else changes. -/
theorem Good.release (hg : Good dirs s s') (pf : PoolFlags) (hl : l.Ok) (hb : l.holderRepeatNr + 1 < 2 ^ 32)
    (ha : l.acquire s'.cur.tid = .ok l') (hlock : (s'.pool pf).lock = l') :
    (∃ s'', lockRelease pf s' = .ok s'' ∧ Good dirs s s'') ∨ l'.waiters = none ∧ lockRelease pf s' = .error .fault := by
  unfold lockRelease
  rw [hlock]
  rcases hl.release_or hb ha with ⟨l1, hr⟩ | ⟨hw, hr⟩
  · rw [hr]
    exact .inl ⟨_, rfl, hg.trans (hg.healthy.good (setLock_stays s' pf l1) rfl)⟩
  · rw [hr]
    exact .inr ⟨hw, rfl⟩

theorem Healthy.locked (h : Healthy s dirs) (pf : PoolFlags) (l : PoolLock) : Good dirs s (s.setLock pf l) :=
  h.good (setLock_stays s pf l) rfl

theorem getUserPages_served (h : Healthy s dirs) (hd : s.cr3 ∈ dirs) (hl : (s.pool .user).lock.Ok)
    (hb : (s.pool .user).lock.holderRepeatNr + 1 < 2 ^ 32) (hlegal : (Req.getUserPages n).Legal s)
    (hroom : (Req.getUserPages n).HasRoom s) : Served dirs s (.getUserPages n) := by
  obtain ⟨h1, h2, hal⟩ := hlegal
  obtain ⟨b, hbit, he⟩ | ⟨pf, va, hr, -⟩ := hroom
  · have hbit' : bitmapScan s.data (s.vaddr .user).vaddrBitmap n = some b := hbit
    have hres : (Req.getUserPages n).reserved s = s.reserve .user b n := by
      unfold Req.reserved
      rw [hbit]
      rfl
    rw [hres] at he
    unfold Served
    rw [hres]
    show (∃ v s', getUserPages n s = _ ∧ _) ∨ ∃ e, getUserPages n s = _ ∧ _
    unfold getUserPages lockAcquire
    rcases hl.acquire_or s.cur.tid with ⟨l', ha, hw⟩ | ⟨hblocked, u, hu, hholder⟩
    · have hlock := h.locked .user l'
      rw [ha, ok_bind, ok_bind]
      rcases mallocPage_room (s := s.setLock .user l') hlock.healthy hd .user ⟨h1, h2⟩ hbit'
          (by rw [reserve_setLock]; exact he.setLock .user l') with ⟨-, hstack, hm⟩ | ⟨⟨i, hi, hmap⟩, hm⟩ | ⟨s', g, hm, hne, hlow, -, hf⟩
      · rw [hm, error_bind]
        exact .inr ⟨_, rfl, .stack n b rfl hbit hstack⟩
      · rw [hm, error_bind]
        exact .inr ⟨_, rfl, .mapped b i hbit hi hmap⟩
      · rw [hm, ok_bind]
        simp only
        have hbelow := hlock.healthy.scanned hd .user ⟨h1, h2⟩ hbit' hlow
        have hpal : (s.vaddr .user).page b % 4096 = 0 := by
          show (s.cur.userprogVaddr.vaddrStart + b * pgSize) % 4096 = 0
          unfold pgSize at hal ⊢
          omega
        obtain ⟨m, hset, hgood⟩ := hf.user_memset hd hne hpal hbelow
        rw [reserve_setLock] at hf
        have hall : Good dirs (s.reserve .user b n) { s' with phys := m } :=
          (((h.good (reserve_kept s .user b n).stays rfl).healthy.locked .user l').trans hf.good).trans hgood
        have hpool : (s'.pool .user).lock = l' := by
          rw [hf.kept.pool, setLock_lock]
        have hcur : s'.cur = s.cur := hf.kept.cur
        rw [hset, ok_bind]
        rcases hall.release .user hl hb (by rw [hcur]; exact ha) hpool with ⟨s2, hrel, hg2⟩ | ⟨hnone, hrel⟩
        · rw [hrel]
          exact .inl ⟨_, s2, rfl, hg2⟩
        · rw [hrel]
          exact .inr ⟨_, rfl, .waiters (hw.symm.trans hnone)⟩
    · rw [hblocked]
      exact .inr ⟨_, rfl, .waits u hu hholder⟩
  · cases hr

/-! ## get_a_page -/

/-- A permitted call marks its page. -/
theorem Permitted.markVaddr {va : Nat} (h : Permitted s pf va) :
    markVaddr pf va s = .ok (s.reserve pf (vaddrIdx (s.vaddr pf) va) 1) := by
  have hidx := h.idx
  unfold Memory.markVaddr
  rcases h.task with ⟨hp, rfl⟩ | ⟨hp, rfl⟩
  · have hidx : 0 < vaddrIdx s.cur.userprogVaddr va := hidx
    rw [if_pos ⟨hp, rfl⟩]
    simp only [decide_eq_true hidx, assert_true, ok_bind, bitmapSet_one]
    rfl
  · have hidx : 0 < vaddrIdx s.kernelVaddr va := hidx
    rw [if_neg fun e => e.1 hp, if_pos ⟨hp, rfl⟩]
    simp only [decide_eq_true hidx, assert_true, ok_bind, bitmapSet_one]
    rfl

theorem Paged.good {va : Nat} (h : Paged dirs va f pf s s') : Good dirs s s' := ⟨h.kept.stays, h.healthy, h.adds⟩

theorem getAPage_served {va : Nat} (h : Healthy s dirs) (hd : s.cr3 ∈ dirs) (hl : (s.pool pf).lock.Ok)
    (hb : (s.pool pf).lock.holderRepeatNr + 1 < 2 ^ 32) (hlegal : Permitted s pf va)
    (hroom : (Req.getAPage pf va).HasRoom s) : Served dirs s (.getAPage pf va) := by
  have hres : (Req.getAPage pf va).reserved s = s.reserve pf (vaddrIdx (s.vaddr pf) va) 1 := rfl
  have hgood : Good dirs s (s.reserve pf (vaddrIdx (s.vaddr pf) va) 1) := h.good (reserve_kept _ _ _ _).stays rfl
  unfold Served
  rw [hres]
  unfold Req.HasRoom at hroom
  rw [hres] at hroom
  show (∃ v s', getAPage pf va s = _ ∧ _) ∨ ∃ e, getAPage pf va s = _ ∧ _
  unfold getAPage lockAcquire
  rcases hl.acquire_or s.cur.tid with ⟨l', ha, hw⟩ | ⟨hblocked, u, hu, hholder⟩
  · have hvaddr : (s.setLock pf l').vaddr pf = s.vaddr pf := by cases pf <;> rfl
    have hp : Permitted (s.setLock pf l') pf va := ⟨hlegal.task, by rw [hvaddr]; exact hlegal.idx, hlegal.below, hlegal.unmapped⟩
    have hmark := hp.markVaddr
    rw [hvaddr, reserve_setLock] at hmark
    have hun : translate (s.reserve pf (vaddrIdx (s.vaddr pf) va) 1).phys (s.reserve pf (vaddrIdx (s.vaddr pf) va) 1).cr3 va =
        none := hlegal.unmapped
    have hlock := hgood.healthy.locked pf l'
    rw [ha, ok_bind, ok_bind, hmark, ok_bind]
    generalize s.reserve pf (vaddrIdx (s.vaddr pf) va) 1 = sr at *
    have hcr3 : sr.cr3 ∈ dirs := by rw [hgood.stays.cr3]; exact hd
    rcases palloc_cases pf (sr.setLock pf l') with ⟨hpal, -⟩ | ⟨i, hi, hfree, -, hpal⟩
    · -- the pool is empty: NULL, with the lock held
      rw [hpal]
      exact .inl ⟨0, _, rfl, hlock⟩
    · have hleft : i ∈ sr.free pf := by
        rw [← free_setLock sr pf pf l']
        exact mem_free.mpr ⟨hi, hfree⟩
      have henough : (sr.setLock pf l').Enough va 1 pf := by
        rcases hroom with ⟨c, -, he⟩ | ⟨q, x, e, hempty⟩
        · exact Mem.Enough.setLock he pf l'
        · cases e
          rw [hempty] at hleft
          exact absurd hleft (Finset.notMem_empty i)
      have hpos := ((sr.setLock pf l').pool pf).frame_pos i
      rw [hpal, ok_bind]
      simp only
      rw [if_neg (by omega)]
      rcases hlock.healthy.page hcr3 hlegal.below hi hfree (hlock.healthy.table_frame hi hfree henough) with
        ⟨hmap, -⟩ | ⟨s1, hadd, hpaged⟩
      · exact absurd hun hmap
      · have hpool : (s1.pool pf).lock = l' := by rw [hpaged.kept.pool, setLock_lock]
        have hcur : s1.cur = s.cur := hpaged.kept.cur.trans hgood.stays.cur
        rw [hadd, ok_bind]
        rcases (hlock.trans hpaged.good).release pf hl hb (by rw [hcur]; exact ha) hpool with ⟨s2, hrel, hg2⟩ | ⟨hnone, hrel⟩
        · rw [hrel]
          exact .inl ⟨_, s2, rfl, hg2⟩
        · rw [hrel]
          exact .inr ⟨_, rfl, .waiters (hw.symm.trans hnone)⟩
  · rw [hblocked]
    exact .inr ⟨_, rfl, .waits u hu hholder⟩

/-! ## thread_start -/

/-- Stores to the frame of a kernel page just mapped: it was free, and is no directory and no table. -/
theorem Mapped.stores {va : Nat} {g : Nat → Nat} (h : Healthy s dirs) (hm : Mapped kernelTable 1 va g s s')
    (hk : KernelAddr va) (h' : Healthy s' dirs) (hin : Inside ((s.pool .kernel).frame (g 0)) s'.phys m) :
    Good dirs s' { s' with phys := m } := by
  have hfree := hm.free 0 (by omega)
  have hne : ∀ x, Known s x → Set.EqOn m s'.phys (frame x) := fun x hx y hy =>
    hin y (frame_apart hx.1 ((s.pool .kernel).frame_aligned _) (hx.ne_free h.pool hfree) hy)
  have hpde : ∀ d ∈ dirs, ∀ j, j < 1024 → s'.phys.read32 (d + j * 4) = s.phys.read32 (d + j * 4) := by
    intro d hd j hj
    refine Bytes.read32_congr fun x hx => hm.phys x fun i hi => ?_
    have hi : i = 0 := by omega
    rw [hi, Nat.zero_mul, Nat.add_zero]
    exact h.entry_apart hd hk (pde_word_subset hj hx)
  apply h'.stores
  · intro d hd
    exact hne d (h.known d hd)
  · intro d hd j hj hp
    rw [hpde d hd j (by omega)] at hp ⊢
    exact hne _ (h.table hd hj hp).1

/-- The page just mapped, after its frame was cleared. -/
theorem Mapped.pageAt {va : Nat} {g : Nat → Nat} (h : Healthy s dirs) (hd : s.cr3 ∈ dirs) (hm : Mapped kernelTable 1 va g s s')
    (h1 : 0xc0000000 ≤ va) (h2 : va + 1 * pgSize ≤ 0xffc00000) (hal : va % 4096 = 0)
    (hin : Inside ((s.pool .kernel).frame (g 0)) s'.phys m) :
    PageAt m s'.cr3 va ((s.pool .kernel).frame (g 0)) (walked s'.cr3) := by
  have hs := h.space hd
  have hcr3 : s'.cr3 = s.cr3 := hm.kept.cr3
  have hne := hs.out (g 0) (hm.fits 0 (by omega)) (hm.free 0 (by omega))
  have hwalk : ∀ x, x ∈ walked s'.cr3 → x ∉ frame ((s.pool .kernel).frame (g 0)) := fun x hx =>
    hs.not_frame hne (by rwa [← hcr3])
  have hw := (hm.window hs.dir hal h1 h2).congr fun x hx => hin x (hwalk x hx)
  refine ⟨⟨fun o ho => ?_, fun o ho => hw.reads o (by unfold pgSize; omega)⟩, hwalk, by omega, by unfold pgSize at h2; omega⟩
  rw [hw.maps o (by unfold pgSize; omega), Nat.div_eq_of_lt ho, Nat.mod_eq_of_lt ho]

theorem threadStart_served {a : ThreadArgs} (h : Healthy s dirs) (hd : s.cr3 ∈ dirs) (hl : (s.pool .kernel).lock.Ok)
    (hb : (s.pool .kernel).lock.holderRepeatNr + 1 < 2 ^ 32) (ha : a.Fits)
    (hroom : (Req.threadStart a).HasRoom s) : Served dirs s (.threadStart a) := by
  obtain ⟨b, hbit, he⟩ | ⟨pf, va, hr, -⟩ := hroom
  · have hbit' : bitmapScan s.data (s.vaddr .kernel).vaddrBitmap 1 = some b := hbit
    have hres : (Req.threadStart a).reserved s = s.reserve .kernel b 1 := by
      unfold Req.reserved
      rw [hbit]
      rfl
    rw [hres] at he
    unfold Served
    rw [hres]
    show (∃ v s', threadStart a s = _ ∧ _) ∨ ∃ e, threadStart a s = _ ∧ _
    unfold threadStart getKernelPages lockAcquire
    rcases hl.acquire_or s.cur.tid with ⟨l', hacq, hw⟩ | ⟨hblocked, u, hu, hholder⟩
    · have hlock := h.locked .kernel l'
      obtain ⟨h1, h2, hal⟩ := (h.space hd).page (bitmapScan_some (Nat.le_refl 1) hbit').2.1
      rw [hacq, ok_bind, ok_bind]
      rcases mallocPage_room (s := s.setLock .kernel l') hlock.healthy hd .kernel (by omega) hbit'
          (by rw [reserve_setLock]; exact he.setLock .kernel l') with
        ⟨hno, -, -⟩ | ⟨⟨i, hi, hmap⟩, hm⟩ | ⟨s', g, hm, hne, -, hmap, hf⟩
      · cases hno
      · rw [hm, error_bind]
        exact .inr ⟨_, rfl, .mapped b i hbit hi hmap⟩
      · rw [reserve_setLock] at hf hmap
        have hne : s.kernelVaddr.page b ≠ 0 := hne
        have hfill : Good dirs (s.reserve .kernel b 1) s' :=
          ((h.good (reserve_kept s .kernel b 1).stays rfl).healthy.locked .kernel l').trans hf.good
        have hrs : Healthy ((s.reserve .kernel b 1).setLock .kernel l') dirs :=
          ((h.good (reserve_kept s .kernel b 1).stays rfl).healthy.locked .kernel l').healthy
        obtain ⟨f, hM⟩ := mapPages_mapped (hrs.space hd).dir h1 h2 hmap
        obtain ⟨m, hset, -, hext⟩ := hM.memset (hrs.space hd).dir hal h1 h2 (hrs.space hd).low fun i hi =>
          (hrs.space hd).out _ (hM.fits i hi) (hM.free i hi)
        have hin : Inside _ s'.phys m := fun x hx => hext x fun i hi => by
          rw [show i = 0 by omega]
          exact hx
        obtain ⟨m1, m2, hinit, hcreate, hin2⟩ := (hM.pageAt hrs hd h1 h2 hal hin).prepare ha
        have hall : Good dirs (s.reserve .kernel b 1) { s' with phys := m } :=
          hfill.trans (hM.stores hrs ⟨h1, by unfold pgSize at h2; omega⟩ hf.healthy hin)
        have hend : Good dirs (s.reserve .kernel b 1) { s' with phys := m2 } :=
          hfill.trans (hM.stores hrs ⟨h1, by unfold pgSize at h2; omega⟩ hf.healthy fun x hx => (hin2 x hx).trans (hin x hx))
        have hpool : (s'.pool .kernel).lock = l' := by rw [hf.kept.pool, setLock_lock]
        have hcur : s'.cur = s.cur := hf.kept.cur
        have hm : mallocPage .kernel 1 (s.setLock .kernel l') = .ok (s.kernelVaddr.page b, s') := hm
        rw [hm, ok_bind]
        simp only
        rw [if_pos hne, hset, ok_bind]
        rcases hall.release .kernel hl hb (by rw [← hcur] at hacq; exact hacq) hpool with ⟨s2, hrel, -⟩ | ⟨hnone, hrel⟩
        · obtain ⟨l1, -, hs2⟩ := lockRelease_ok hrel
          rw [hrel, ok_bind, ok_bind]
          subst hs2
          simp only [Mem.setLock] at hinit ⊢
          rw [hinit, ok_bind, hcreate, ok_bind]
          exact .inl ⟨_, _, rfl, hend.trans (hend.healthy.locked .kernel l1)⟩
        · rw [hrel]
          exact .inr ⟨_, rfl, .waiters (hw.symm.trans hnone)⟩
    · rw [hblocked]
      exact .inr ⟨_, rfl, .waits u hu hholder⟩
  · cases hr

/-! ## Every request, in every run -/

theorem Req.served (h : Healthy s dirs) (hd : s.cr3 ∈ dirs) (hl : ∀ pf, (s.pool pf).lock.Ok)
    (hb : (s.pool r.pool).lock.holderRepeatNr + 1 < 2 ^ 32) (hlegal : r.Legal s) (hroom : r.HasRoom s) : Served dirs s r := by
  cases r with
  | getUserPages n => exact getUserPages_served h hd (hl .user) hb hlegal hroom
  | getAPage pf va => exact getAPage_served h hd (hl pf) hb hlegal hroom
  | threadStart a => exact threadStart_served h hd (hl .kernel) hb hlegal hroom

theorem Req.locks (hl : ∀ pf, (s.pool pf).lock.Ok) (hb : (s.pool r.pool).lock.holderRepeatNr + 1 < 2 ^ 32)
    (h : r.run s = .ok (v, s')) : ∀ pf, (s'.pool pf).lock.Ok := by
  cases r with
  | getUserPages n => exact run_ok (c := .getUserPages n) hl hb h
  | getAPage pf va => exact run_ok (c := .getAPage pf va) hl hb h
  | threadStart a =>
    obtain ⟨⟨v1, s1⟩, hk, h⟩ := bind_ok_iff.mp h
    obtain ⟨m1, -, h⟩ := bind_ok_iff.mp h
    obtain ⟨m2, -, h⟩ := bind_ok_iff.mp h
    cases h
    have h1 : ∀ pf, (s1.pool pf).lock.Ok := run_ok (c := .getKernelPages 1) hl hb hk
    exact h1

theorem Healthy.getKernelPages (h : Healthy s dirs) (hd : s.cr3 ∈ dirs) (hc : getKernelPages n s = .ok (v, s')) :
    Healthy s' dirs := by
  rcases getKernelPages_cases (h.space hd) hc with ⟨-, -, hst, hp, -⟩ | ⟨b, m, k, g, -, -, hg, -⟩
  · exact (h.good hst hp).healthy
  · exact h.stays hg.stays (h.granted hg)

/-- A new directory has the kernel's tables and no others. -/
theorem Healthy.newDir {va : Nat} {g : Nat → Nat} {m phys : Bytes} (h : Healthy s dirs) (hd : s.cr3 ∈ dirs)
    (hg : Granted kernelTable va 1 g m s s') (hn : NewDir s'.phys phys s.cr3 ((s.pool .kernel).frame (g 0))) :
    Healthy { s' with phys := phys } ((s.pool .kernel).frame (g 0) :: dirs) := by
  have hal := (s.pool .kernel).frame_aligned (g 0)
  have h1 : Healthy s' dirs := h.stays hg.stays (h.granted hg)
  obtain ⟨hnew, hinv⟩ := h.toSpaceInv.newDir hd hg hn
  have hold : Healthy { s' with phys := phys } dirs := h1.stays (kept_phys s' phys).stays fun d hdm x hx =>
    hn.outside x (frame_apart (h.known d hdm).1 hal (fun e => hnew (e ▸ hdm)) hx)
  refine ⟨hinv, hold.userLow, hold.order, hold.maps, List.forall_mem_cons.mpr ⟨?_, hold.tables⟩⟩
  intro i j hij hj hne hpi hpj
  have hmem : (s.pool .kernel).frame (g 0) ∈ (s.pool .kernel).frame (g 0) :: dirs := List.mem_cons_self
  by_cases hu : i < 768
  · have hz : phys.read32 ((s.pool .kernel).frame (g 0) + i * 4) = 0 := hn.user i hu
    have hpi : Present (phys.read32 ((s.pool .kernel).frame (g 0) + i * 4)) := hpi
    rw [hz] at hpi
    exact absurd hpi (by decide)
  · rw [hinv.kernel _ hmem i (by omega) (by omega), hinv.kernel _ hmem j (by omega) hj,
      frameOf_or_attr (kernelTable_aligned i), frameOf_or_attr (kernelTable_aligned j)]
    unfold kernelTable
    omega

theorem createPageDir_locks (hl : ∀ pf, (s.pool pf).lock.Ok) (hb : (s.pool .kernel).lock.holderRepeatNr + 1 < 2 ^ 32)
    (h : createPageDir s = .ok (v, s')) : ∀ pf, (s'.pool pf).lock.Ok := by
  obtain ⟨⟨v1, s1⟩, hk, h⟩ := bind_ok_iff.mp h
  have h1 : ∀ pf, (s1.pool pf).lock.Ok := run_ok (c := .getKernelPages 1) hl hb hk
  simp only at h
  split at h
  · cases h
    exact h1
  · obtain ⟨m1, -, h⟩ := bind_ok_iff.mp h
    obtain ⟨f, -, h⟩ := bind_ok_iff.mp h
    obtain ⟨m2, -, h⟩ := bind_ok_iff.mp h
    cases h
    exact h1

/-- Healthy directories, and locks that are free or held. -/
structure Sound (S : Space) : Prop where
  healthy : Healthy S.mem S.dirs
  locks : ∀ pf, (S.mem.pool pf).lock.Ok

theorem Healthy.activate (h : Healthy s dirs) (dir : Nat) (cur : Caller) : Healthy (s.activate dir cur) dirs :=
  ⟨h.toSpaceInv.activate dir cur, h.userLow, h.order, h.maps, h.tables⟩

theorem Sound.first {S : Space} (h : SpaceStart S) : Sound S := by
  have hinv := SpaceInv.first h
  obtain ⟨⟨allMem, s0, m, hp, hi⟩, hd⟩ := h
  rw [memPoolInit_eq] at hi
  have hi := (Except.ok.inj hi).symm
  have hphys : S.mem.phys = setupPage m := by rw [hi, poolsInit_phys, hp]
  rw [hd] at hinv
  refine ⟨?_, fun pf => by rw [hi]; exact poolsInit_locks allMem s0 pf⟩
  rw [hd]
  refine ⟨hinv, ?_, ?_, ?_, ?_⟩
  · rw [hi]
    exact Nat.le_add_right _ _
  · intro i hlt
    rw [hi] at hlt ⊢
    exact (frame_in_pool (g := ⟨poolsInit allMem s0, fun _ => []⟩) rfl hlt).2
  · rw [hi]
    exact area_disjoint allMem s0 (by decide)
  · -- entry 0 shares the first table of the kernel, and the kernel's are distinct
    refine List.forall_mem_singleton.mpr ?_
    intro i j hij hj hne hpi hpj
    have hpde : ∀ k, k < 1023 → Present (S.mem.phys.read32 (pageDirTablePos + k * 4)) →
        frameOf (S.mem.phys.read32 (pageDirTablePos + k * 4)) = if k = 0 then kernelTable 768 else kernelTable k := by
      intro k hk hpk
      rw [hphys] at hpk ⊢
      by_cases hu : k < 768
      · rw [setupPage_user hu] at hpk ⊢
        split at hpk
        · next e => rw [if_pos e, if_pos e, frameOf_or_attr (kernelTable_aligned _)]
        · exact absurd hpk (by decide)
      · rw [setupPage_kernel (by omega) hk, if_neg (by omega), frameOf_or_attr (kernelTable_aligned _)]
    have hlow : ∀ k, k < 1023 → Present (S.mem.phys.read32 (pageDirTablePos + k * 4)) → k = 0 ∨ 768 ≤ k := by
      intro k hk hpk
      by_contra hno
      rw [hphys, setupPage_user (by omega), if_neg (by omega)] at hpk
      exact absurd hpk (by decide)
    have hi0 := hlow i (by omega) hpi
    have hj0 := hlow j hj hpj
    rw [hpde i (by omega) hpi, hpde j hj hpj]
    unfold kernelTable
    split <;> split <;> omega

theorem Sound.step {S S' : Space} {op : SysOp} (h : Sound S) (hl : SysLegal S op) (hr : Roomy S op)
    (hs : sysStep S op = .ok S') : Sound S' := by
  cases op with
  | request dir cur r =>
    obtain ⟨hd, hb, hlegal⟩ := hl
    obtain ⟨⟨v, s⟩, hrun, hs⟩ := bind_ok_iff.mp hs
    cases hs
    refine ⟨?_, Req.locks (s := S.mem.activate dir cur) h.locks hb hrun⟩
    rcases Req.served (h.healthy.activate dir cur) hd h.locks hb hlegal hr with ⟨v', s', he, hg⟩ | ⟨e, he, -⟩
    · rw [he] at hrun
      cases hrun
      exact hg.healthy
    · rw [he] at hrun
      cases hrun
  | getKernelPages dir cur pgCnt =>
    obtain ⟨hd, hb⟩ := hl
    obtain ⟨⟨v, s⟩, hrun, hs⟩ := bind_ok_iff.mp hs
    cases hs
    exact ⟨(h.healthy.activate dir cur).getKernelPages hd hrun,
      run_ok (c := .getKernelPages pgCnt) (s := S.mem.activate dir cur) h.locks hb hrun⟩
  | createPageDir dir cur =>
    obtain ⟨hd, hb⟩ := hl
    obtain ⟨⟨v, s⟩, hrun, hs⟩ := bind_ok_iff.mp hs
    have hlocks := createPageDir_locks (s := S.mem.activate dir cur) h.locks hb hrun
    have hact := h.healthy.activate dir cur
    rcases createPageDir_cases (hact.space hd) hrun with ⟨hv, hk⟩ | ⟨hv, s1, g, m, phys, hg, -, hn, rfl, hat⟩
    · simp only [if_pos hv] at hs
      cases hs
      exact ⟨hact.getKernelPages hd hk, hlocks⟩
    · simp only [if_neg hv, hat, ok_bind] at hs
      cases hs
      exact ⟨hact.newDir hd hg hn, hlocks⟩
  | write a b =>
    cases hs
    refine ⟨h.healthy.stays (kept_phys _ _).stays ?_, h.locks⟩
    intro d hd x hx
    exact Bytes.write8_ne _ _ fun e => hl d hd (e ▸ hx)

theorem RoomyRuns.sound {S : Space} (h : RoomyRuns S) : Sound S :=
  h.invariant (fun _ => Sound.first) fun _ _ _ hi hl hs => hi.step hl.1 hl.2 hs

/-- In runs whose requests have room, every request that has room is reported. -/
theorem exhaustion_reported {S : Space} {dir : Nat} {cur : Caller} (hr : RoomyRuns S) (hl : SysLegal S (.request dir cur r))
    (hroom : r.HasRoom (S.mem.activate dir cur)) : Reported S.dirs (S.mem.activate dir cur) r := by
  obtain ⟨hd, hb, hlegal⟩ := hl
  have hs := RoomyRuns.sound hr
  rcases Req.served (hs.healthy.activate dir cur) hd hs.locks hb hlegal hroom with ⟨v, s', he, hg⟩ | ⟨e, he, hc⟩
  · refine ⟨fun v1 s1 h1 => ?_, fun e h1 => ?_⟩
    · rw [he] at h1
      cases h1
      exact hg.adds
    · rw [he] at h1
      cases h1
  · refine ⟨fun v1 s1 h1 => ?_, fun e1 h1 => ?_⟩
    · rw [he] at h1
      cases h1
    · rw [he] at h1
      cases h1
      exact hc

/-! ### A thread started with eight frames left, and pages asked for without a range -/

/-- After `setup_page` and mem_pool_init, with 64 KB for the pools. -/
def smallSpace : Space := ⟨poolsInit 0x210000 bootMem, [pageDirTablePos]⟩

theorem smallSpace_start : SpaceStart smallSpace :=
  ⟨⟨0x210000, bootMem, fun _ => 0, by simp only [bootMem], memPoolInit_eq _ _⟩, rfl⟩

def idleArgs : ThreadArgs := ⟨[0x69, 0x64, 0x6c, 0x65], 10, 0xc0001500, 0, 0xc009e000, 0xc0001400⟩

theorem lacking_le (s : Mem) (va n : Nat) : (s.lacking va n).card ≤ n := by
  refine (Finset.card_filter_le _ _).trans (Finset.card_image_le.trans ?_)
  rw [Finset.card_range]

theorem threadStart_room {a : ThreadArgs} (hbit : (Req.threadStart a).bit s = some b)
    (hfree : 2 ≤ ((s.reserve .kernel b 1).free .kernel).card) : (Req.threadStart a).HasRoom s := by
  refine .inl ⟨b, hbit, ?_⟩
  unfold Req.reserved
  rw [hbit]
  exact Nat.le_trans (Nat.add_le_add_left (lacking_le _ _ 1) 1) hfree

theorem threadStart_legal {S : Space} {dir : Nat} {cur : Caller} {a : ThreadArgs} (hd : dir ∈ S.dirs)
    (hb : (S.mem.pool .kernel).lock.holderRepeatNr + 1 < 2 ^ 32) (ha : a.Fits) :
    SysLegal S (.request dir cur (.threadStart a)) := ⟨hd, hb, ha⟩

theorem smallSpace_reported :
    Reported smallSpace.dirs (smallSpace.mem.activate pageDirTablePos kernelThread) (.threadStart idleArgs) := by
  have hl : SysLegal smallSpace (.request pageDirTablePos kernelThread (.threadStart idleArgs)) :=
    threadStart_legal (List.mem_singleton.mpr rfl) (by decide +kernel) (by decide)
  exact exhaustion_reported (.first smallSpace_start) hl (threadStart_room (b := 0) (by decide +kernel) (by decide +kernel))

theorem getUserPages_crashes : ¬ ∀ (S : Space) (dir : Nat) (cur : Caller) (r : Req), SysRuns S →
    SysLegal S (.request dir cur r) → Reported S.dirs (S.mem.activate dir cur) r := by
  intro h
  have hstop : (Req.getUserPages 1).run (smallSpace.mem.activate pageDirTablePos kernelThread) =
      .error (.assert .memsetDst) := errorOf_eq.mp (by decide +kernel)
  have hrep := h smallSpace pageDirTablePos kernelThread (.getUserPages 1) (.first smallSpace_start)
    ⟨List.mem_singleton.mpr rfl, by decide +kernel, by unfold Req.Legal; decide⟩
  cases hrep.stops _ hstop

end TinyOs.Memory
