/-
  TinyOs.Thread.Effects — one step, as the locks and semaphores see it.

  A step leaves the program point and the nesting depths of every thread but the
  running one alone (`Frame`). To the running thread, the locks and the semaphores it
  does one of five things (`Effect`): nothing, a statement of the lock code
  (`LockStmt`), blocking on a semaphore, taking its unit, or giving it back. Every
  invariant of the locks is a case analysis over these.

  `step_stops`: in a kernel whose queues are in order no list assertion fires; what
  can stop it is named, with the state it needs.
-/

import TinyOs.Thread.Steps

namespace TinyOs.Thread

open TinyOs.Kernel TinyOs.Logic

variable {I : Set Sema} {P : Set Tid} {k : Kernel Queues} {op : Op}

/-- The running thread's program point. -/
abbrev Kernel.pc {σ : Type} (k : Kernel σ) : Pc := (k.task k.cur).pc

/-- The running thread's nesting depths. -/
abbrev Kernel.depth {σ : Type} (k : Kernel σ) : LockId → Nat := (k.task k.cur).depth

/-- The running thread is about to test the value of `s`, interrupts off or about to be. -/
def Kernel.atDown {σ : Type} (k : Kernel σ) (s : Sema) : Prop := k.pc = .semaDown s ∨ ∃ old, k.pc = .semaLoop s old

structure Frame (k : Kernel Queues) (op : Op) (k' : Kernel Queues) : Prop where
  created : ∀ t ∈ k.created, t ∈ k'.created
  others : ∀ t ∈ k.created, t ≠ k.cur → (k'.task t).pc = (k.task t).pc ∧ (k'.task t).depth = (k.task t).depth
  /-- Only `thread_start` creates. -/
  fresh : ∀ t ∈ k'.created, t ∉ k.created → (∃ prio, op = .call (.threadStart (some t) prio)) ∧
    (k'.task t).pc = .run ∧ (k'.task t).depth = (fun _ => 0) ∧ (k'.task t).status = .ready
  outside : ∀ t, t ∉ k'.created → k'.task t = k.task t
  /-- Only the running thread can stop. -/
  awake : ∀ t ∈ k.created, t ≠ k.cur → ((k.task t).status = .running ∨ (k.task t).status = .ready) →
    (k'.task t).status = .running ∨ (k'.task t).status = .ready

/-- The statements of `lock_acquire` and `lock_release`, the calls, and both parts of
    `thread_unblock`. -/
inductive LockStmt (I : Set Sema) (k : Kernel Queues) : Op → Pc → (LockId → Nat) → (LockId → Lock) → Prop
  | callDown (n : Nat) : k.pc = .run → .free n ∈ I → LockStmt I k (.call (.semaDown n)) (.semaDown (.free n)) k.depth k.lock
  | callUp (n : Nat) : k.pc = .run → .free n ∈ I → LockStmt I k (.call (.semaUp n)) (.semaUp (.free n)) k.depth k.lock
  | callAcquire (l : LockId) : k.pc = .run → .lock l ∈ I → k.depth l + 1 < 2 ^ 32 →
      LockStmt I k (.call (.lockAcquire l)) (.acqTest l) k.depth k.lock
  | callRelease (l : LockId) : k.pc = .run → .lock l ∈ I → (k.lock l).holder = some k.cur →
      LockStmt I k (.call (.lockRelease l)) (.relAssert l) k.depth k.lock
  | callUnblock (t : Tid) : k.pc = .run → LockStmt I k (.call (.threadUnblock t)) (.unblock t) k.depth k.lock
  | unblock (t : Tid) : k.pc = .unblock t → LockStmt I k .go .run k.depth k.lock
  | testOther (l : LockId) : k.pc = .acqTest l → (k.lock l).holder ≠ some k.cur →
      LockStmt I k .go (.semaDown (.lock l)) k.depth k.lock
  | testOwn (l : LockId) : k.pc = .acqTest l → (k.lock l).holder = some k.cur → LockStmt I k .go (.acqInc l) k.depth k.lock
  | setHolder (l : LockId) : k.pc = .acqHolder l → LockStmt I k .go (.acqAssert l) k.depth
      (Function.update k.lock l { k.lock l with holder := some k.cur })
  | assertNr (l : LockId) : k.pc = .acqAssert l → (k.lock l).holderRepeatNr = 0 → LockStmt I k .go (.acqNr l) k.depth k.lock
  | setNr (l : LockId) : k.pc = .acqNr l → LockStmt I k .go .run (Function.update k.depth l (k.depth l + 1))
      (Function.update k.lock l { k.lock l with holderRepeatNr := 1 })
  | loadInc (l : LockId) : k.pc = .acqInc l → LockStmt I k .go (.acqIncStore l (k.lock l).holderRepeatNr) k.depth k.lock
  | storeInc (l : LockId) (nr : Nat) : k.pc = .acqIncStore l nr → LockStmt I k .go .run
      (Function.update k.depth l (k.depth l + 1))
      (Function.update k.lock l { k.lock l with holderRepeatNr := (nr + 1) % 2 ^ 32 })
  | assertHolder (l : LockId) : k.pc = .relAssert l → (k.lock l).holder = some k.cur →
      LockStmt I k .go (.relTest l) k.depth k.lock
  | testNested (l : LockId) : k.pc = .relTest l → 1 < (k.lock l).holderRepeatNr → LockStmt I k .go (.relDec l) k.depth k.lock
  | testLast (l : LockId) : k.pc = .relTest l → ¬ 1 < (k.lock l).holderRepeatNr →
      LockStmt I k .go (.relAssertOne l) k.depth k.lock
  | loadDec (l : LockId) : k.pc = .relDec l → LockStmt I k .go (.relDecStore l (k.lock l).holderRepeatNr) k.depth k.lock
  | storeDec (l : LockId) (nr : Nat) : k.pc = .relDecStore l nr → LockStmt I k .go .run
      (Function.update k.depth l (k.depth l - 1))
      (Function.update k.lock l { k.lock l with holderRepeatNr := (nr + (2 ^ 32 - 1)) % 2 ^ 32 })
  | assertOne (l : LockId) : k.pc = .relAssertOne l → (k.lock l).holderRepeatNr = 1 →
      LockStmt I k .go (.relClear l) k.depth k.lock
  | clearHolder (l : LockId) : k.pc = .relClear l → LockStmt I k .go (.relZero l)
      (Function.update k.depth l (k.depth l - 1)) (Function.update k.lock l { k.lock l with holder := none })
  | zeroNr (l : LockId) : k.pc = .relZero l → LockStmt I k .go (.semaUp (.lock l)) k.depth
      (Function.update k.lock l { k.lock l with holderRepeatNr := 0 })

inductive Effect (I : Set Sema) (k : Kernel Queues) (op : Op) (k' : Kernel Queues) : Prop
  /-- Preempted, resumed, yielding, blocking itself or creating another thread. -/
  | quiet : (k'.task k.cur).pc = k.pc → (k'.task k.cur).depth = k.depth → k'.lock = k.lock → k'.value = k.value →
      (∀ s ∈ I, k'.queues (.waiters s) = k.queues (.waiters s)) →
      ((k'.task k.cur).status = .running ∨ (k'.task k.cur).status = .ready ∨
        k.pc = .run ∧ ∃ stat, op = .call (.threadBlock stat)) → Effect I k op k'
  | stmt {pc : Pc} {depth : LockId → Nat} {lock : LockId → Lock} : LockStmt I k op pc depth lock →
      (k'.task k.cur).pc = pc → (k'.task k.cur).depth = depth → k'.lock = lock → k'.value = k.value →
      (∀ s ∈ I, k'.queues (.waiters s) = k.queues (.waiters s)) → (k'.task k.cur).status = .running → Effect I k op k'
  | block (s : Sema) (old : Bool) : s ∈ I → k.atDown s → k.value s = 0 → (k'.task k.cur).pc = .semaLoop s old →
      (k'.task k.cur).depth = k.depth → k'.lock = k.lock → k'.value = k.value →
      (∀ s' ∈ I, s' ≠ s → k'.queues (.waiters s') = k.queues (.waiters s')) →
      (k'.task k.cur).status = .blocked → Effect I k op k'
  | take (s : Sema) : s ∈ I → k.atDown s → k.value s = 1 → (k'.task k.cur).pc = afterDown s →
      (k'.task k.cur).depth = k.depth → k'.lock = k.lock → k'.value = Function.update k.value s 0 →
      (∀ s ∈ I, k'.queues (.waiters s) = k.queues (.waiters s)) → (k'.task k.cur).status = .running → Effect I k op k'
  | give (s : Sema) : s ∈ I → k.pc = .semaUp s → k.value s = 0 → (k'.task k.cur).pc = .run →
      (k'.task k.cur).depth = k.depth → k'.lock = k.lock → k'.value = Function.update k.value s 1 →
      (∀ s' ∈ I, s' ≠ s → k'.queues (.waiters s') = k.queues (.waiters s')) →
      (k'.queues (.waiters s) = [] ∨ ∃ t ∈ k.created, t ≠ k.cur ∧ (∃ old, (k.task t).pc = .semaLoop s old) ∧
        (k'.task t).status = .ready) → (k'.task k.cur).status = .running → Effect I k op k'

/-- What can stop a step, with the state it needs. -/
inductive Stops (I : Set Sema) (k : Kernel Queues) : Op → Site → Prop
  /-- `get_kernel_pages` returned NULL. -/
  | noPage (prio : Nat) : Stops I k (.call (.threadStart none prio)) .memsetDst
  | badStat (stat : TaskStatus) : stat.nonRunnable = false → Stops I k (.call (.threadBlock stat)) .blockStat
  /-- There is no idle thread. -/
  | noReady (stat : TaskStatus) : k.queues .ready = [] → Stops I k (.call (.threadBlock stat)) .scheduleReady
  | noReadyDown (s : Sema) : s ∈ I → k.atDown s → k.value s = 0 → k.queues .ready = [] → Stops I k .go .scheduleReady
  | manyUnits (s : Sema) : s ∈ I → k.atDown s → 1 < k.value s → Stops I k .go .semaDownValue
  | unitLeft (s : Sema) : s ∈ I → k.pc = .semaUp s → k.value s ≠ 0 → Stops I k .go .semaUpZero
  | acquireNr (l : LockId) : k.pc = .acqAssert l → (k.lock l).holderRepeatNr ≠ 0 → Stops I k .go .acquireNr
  | releaseHolder (l : LockId) : k.pc = .relAssert l → (k.lock l).holder ≠ some k.cur → Stops I k .go .releaseHolder
  | releaseNr (l : LockId) : k.pc = .relAssertOne l → (k.lock l).holderRepeatNr ≠ 1 → Stops I k .go .releaseNr

/-! ## Frames of the pieces -/

@[simp] theorem switchTo_pc (r : Resume) (n : Tid) (rest : List Tid) (t : Tid) :
    ((switchTo r n rest k).task t).pc = (k.task t).pc := by
  simp only [switchTo, setTask_task]; split <;> split <;> simp_all

@[simp] theorem switchTo_depth (r : Resume) (n : Tid) (rest : List Tid) (t : Tid) :
    ((switchTo r n rest k).task t).depth = (k.task t).depth := by
  simp only [switchTo, setTask_task]; split <;> split <;> simp_all

@[simp] theorem switchTo_lock (r : Resume) (n : Tid) (rest : List Tid) : (switchTo r n rest k).lock = k.lock := rfl
@[simp] theorem switchTo_value (r : Resume) (n : Tid) (rest : List Tid) : (switchTo r n rest k).value = k.value := rfl
@[simp] theorem switchTo_created (r : Resume) (n : Tid) (rest : List Tid) :
    (switchTo r n rest k).created = k.created := rfl
@[simp] theorem switchTo_waiters (r : Resume) (n : Tid) (rest : List Tid) (s : Sema) :
    (switchTo r n rest k).queues (.waiters s) = k.queues (.waiters s) := by simp [switchTo]

theorem switchTo_status (r : Resume) (n : Tid) (rest : List Tid) (t : Tid) :
    ((switchTo r n rest k).task t).status = if t = n then .running else (k.task t).status := by
  simp only [switchTo, setTask_task]; split
  · rfl
  · split <;> simp_all

/-- Dispatching changes nothing the locks see, and leaves stopped threads stopped. -/
theorem switchTo_frame {k1 k' : Kernel Queues} {x : Task} {r : Resume} {n : Tid} {rest : List Tid} (hc : k.cur ∈ k.created)
    (u : Upd k k1 k.cur x) (hn : n ∈ k.created) (hk : k' = switchTo r n rest k1) : Frame k op k' := by
  subst hk
  refine ⟨fun t ht => by simpa [u.created] using ht, fun t _ e => by simp [u.ne e],
    fun t ht hne => absurd (by simpa [u.created] using ht) hne, fun t ht => ?_, fun t _ e ha => ?_⟩
  · have ht : t ∉ k.created := by simpa [u.created] using ht
    have h1 : t ≠ k.cur := fun e => ht (e ▸ hc)
    have h2 : t ≠ n := fun e => ht (e ▸ hn)
    simp [switchTo, setTask_task, u.cur, h1, h2, u.ne h1]
  · rw [switchTo_status]
    split
    · exact .inl rfl
    · rw [u.ne e]; exact ha

/-- Only the running thread changed. -/
theorem upd_frame (hc : k.cur ∈ k.created) {k' : Kernel Queues} {x : Task} (u : Upd k k' k.cur x) : Frame k op k' :=
  ⟨fun t ht => by rw [u.created]; exact ht, fun t _ e => by rw [u.ne e]; exact ⟨rfl, rfl⟩,
    fun t ht hn => absurd (u.created ▸ ht) hn, fun t ht => u.ne (fun e => ht (by rw [u.created, e]; exact hc)),
    fun t _ e ha => by rw [u.ne e]; exact ha⟩

/-! ## What each function does -/

theorem semaDownLoop_effect (h : Wf I P (some k.cur) k) (hi : k.intr = false) {s : Sema} (hs : s ∈ I) (hat : k.atDown s)
    {old : Bool} {k' : Kernel Queues} (hk : semaDownLoop s old k = .ok k') : Frame k op k' ∧ Effect I k op k' := by
  rcases semaDownLoop_ok h hi hs hk with ⟨hv, hk⟩ | ⟨hv, rfl⟩
  · obtain ⟨n, rest, hq, hk⟩ := switchToFirst_ok hk
    have hq1 : (stopOn s old k).queues .ready = k.queues .ready := by simp [stopOn, stop, Kernel.setPc]
    have hq : k.queues .ready = n :: rest := hq1.symm.trans hq
    have hn : k.cur ≠ n := fun e => h.cur_not_ready (by simp [hq, e])
    have hnc : n ∈ k.created := ((h.readyMem n).mp (by simp [hq])).1
    have u : Upd k (stopOn s old k) k.cur { k.task k.cur with pc := .semaLoop s old, status := .blocked } :=
      ⟨rfl, rfl, rfl, by simp [stopOn, stop, Kernel.setPc, Kernel.setTask]⟩
    refine ⟨switchTo_frame h.curCreated u hnc hk, ?_⟩
    refine .block s old hs hat hv ?_ ?_ ?_ ?_ (fun s' _ e => ?_) ?_
    · simp [hk, stopOn, stop, Kernel.setPc]
    · simp [hk, stopOn, stop, Kernel.setPc]
    · rw [hk]; rfl
    · rw [hk]; rfl
    · simp [hk, stopOn, stop, Kernel.setPc, e]
    · rw [hk, switchTo_status, if_neg hn]; simp [stopOn, stop, Kernel.setPc]
  · have u : Upd k (took s old k) k.cur { k.task k.cur with pc := afterDown s } := ⟨rfl, rfl, rfl, rfl⟩
    refine ⟨upd_frame h.curCreated u, .take s hs hat hv ?_ ?_ rfl rfl (fun _ _ => rfl) ?_⟩
    · rw [u.same]
    · rw [u.same]
    · rw [u.same]; exact h.cur_running

theorem gave_unblocked_task {s : Sema} {t : Tid} {q : Queues} (ht : t ≠ k.cur) (u : Tid) :
    (gave s (unblocked t { k with queues := q })).task u =
      if u = k.cur then { k.task k.cur with pc := .run } else if u = t then { k.task t with status := .ready }
      else k.task u := by
  by_cases e : u = k.cur
  · subst e; simp [gave, unblocked, Kernel.setPc, Kernel.setValue, setTask_task, Ne.symm ht]
  · simp [gave, unblocked, Kernel.setPc, Kernel.setValue, setTask_task, e]

theorem semaUp_effect (h : Wf I P (some k.cur) k) {s : Sema} (hs : s ∈ I) (hpc : k.pc = .semaUp s)
    {k' : Kernel Queues} (hk : semaUp s k = .ok k') : Frame k op k' ∧ Effect I k op k' := by
  obtain ⟨hv, ⟨hq, rfl⟩ | ⟨t, ts, hq, hne, hk⟩⟩ := semaUp_ok h hs hk
  · have u : Upd k (gave s k) k.cur { k.task k.cur with pc := .run } := ⟨rfl, rfl, rfl, rfl⟩
    refine ⟨upd_frame h.curCreated u, .give s hs hpc hv (by rw [u.same]) (by rw [u.same]) rfl rfl (fun _ _ _ => rfl) (.inl hq) ?_⟩
    rw [u.same]; exact h.cur_running
  · obtain ⟨htc, -, -, -⟩ := woken_wf h hs hq
    have hloop := ((h.waitMem s hs t).mp (by simp [hq])).2.2
    have htask : ∀ u, k'.task u = if u = k.cur then { k.task k.cur with pc := .run } else
        if u = t then { k.task t with status := .ready } else k.task u := fun u => by
      rw [hk]; exact gave_unblocked_task hne u
    refine ⟨⟨fun u hu => by rw [hk]; exact hu, fun u _ e => ?_, fun u hu hn => ?_, fun u hu => ?_, fun u _ e ha => ?_⟩,
      .give s hs hpc hv ?_ ?_ (by rw [hk]; rfl) (by rw [hk]; rfl) (fun s' _ e => ?_)
        (.inr ⟨t, htc, hne, hloop, ?_⟩) ?_⟩
    · rw [htask, if_neg e]; split
      · next e' => rw [e']; exact ⟨rfl, rfl⟩
      · exact ⟨rfl, rfl⟩
    · rw [hk] at hu; exact absurd hu hn
    · have hu : u ∉ k.created := by rw [hk] at hu; exact hu
      have h1 : u ≠ k.cur := fun e => hu (e ▸ h.curCreated)
      have h2 : u ≠ t := fun e => hu (e ▸ htc)
      rw [htask, if_neg h1, if_neg h2]
    · rw [htask, if_neg e]; split
      · exact .inr rfl
      · exact ha
    · rw [htask, if_pos rfl]
    · rw [htask, if_pos rfl]
    · simp [hk, gave, unblocked, Kernel.setPc, Kernel.setValue, e]
    · rw [htask, if_neg hne, if_pos rfl]
    · rw [htask, if_pos rfl]; exact h.cur_running

/-- The second part of `thread_unblock` gives the thread it wakes the status READY. -/
theorem unblock_effect (h : Wf I P (some k.cur) k) {t : Tid} (hpc : k.pc = .unblock t) (ht : Wakeable k t) {k' : Kernel Queues}
    (hk : exec k (.unblock t) = .ok k') : Frame k .go k' ∧ Effect I k .go k' := by
  have hrun := h.cur_running
  rcases execUnblock_ok hk with ⟨-, rfl⟩ | ⟨-, rfl⟩
  · have u : Upd k (k.setPc .run) k.cur { k.task k.cur with pc := .run } := ⟨rfl, rfl, rfl, rfl⟩
    exact ⟨upd_frame h.curCreated u, .stmt (.unblock t hpc) (by rw [u.same]) (by rw [u.same]) rfl rfl (fun _ _ => rfl)
      (by rw [u.same]; exact hrun)⟩
  · have htask : ∀ v, ((unblocked t k).setPc .run).task v = if v = k.cur then { k.task k.cur with pc := .run } else
        if v = t then { k.task t with status := .ready } else k.task v := fun v => by
      by_cases e : v = k.cur
      · subst e; simp [unblocked, Kernel.setPc, setTask_task, Ne.symm ht.other]
      · simp [unblocked, Kernel.setPc, setTask_task, e]
    refine ⟨⟨fun v hv => hv, fun v _ e => ?_, fun v hv hn => absurd hv hn, fun v hv => ?_, fun v _ e ha => ?_⟩,
      .stmt (.unblock t hpc) ?_ ?_ rfl rfl (fun s _ => by simp [unblocked, Kernel.setPc]) ?_⟩
    · rw [htask, if_neg e]; split
      · next e' => rw [e']; exact ⟨rfl, rfl⟩
      · exact ⟨rfl, rfl⟩
    · have hv : v ∉ k.created := hv
      have h1 : v ≠ k.cur := fun e => hv (e ▸ h.curCreated)
      have h2 : v ≠ t := fun e => hv (e ▸ ht.created)
      rw [htask, if_neg h1, if_neg h2]
    · rw [htask, if_neg e]; split
      · exact .inr rfl
      · exact ha
    · rw [htask, if_pos rfl]
    · rw [htask, if_pos rfl]
    · rw [htask, if_pos rfl]; exact hrun

theorem exec_effect (h : Wf I P (some k.cur) k) (hr : (k.task k.cur).resume = none) (hf : Fresh k .go) {k' : Kernel Queues}
    (hk : exec k k.pc = .ok k') :
    Frame k .go k' ∧ Effect I k .go k' := by
  have hsema : ∀ s, k.pc.sema = some s → s ∈ I := (h.tasks k.cur h.curCreated).sema
  have hrun := h.cur_running
  have hstmt : ∀ {pc : Pc} {d : LockId → Nat} {lk : LockId → Lock}, LockStmt I k .go pc d lk → k'.queues = k.queues →
      k'.value = k.value → k'.lock = lk → Upd k k' k.cur { k.task k.cur with pc := pc, depth := d } →
      Frame k .go k' ∧ Effect I k .go k' := fun hst hq hv hl u =>
    ⟨upd_frame h.curCreated u, .stmt hst (by rw [u.same]) (by rw [u.same]) hl hv (fun s _ => by rw [hq]) (by rw [u.same]; exact hrun)⟩
  have htask : ∀ (f : Task → Task) (pc : Pc), ((k.setTask k.cur f).setPc pc).task =
      Function.update k.task k.cur { f (k.task k.cur) with pc := pc } := fun f pc => by
    simp [Kernel.setPc, Kernel.setTask]
  cases hpc : k.pc with
  | run =>
    rw [hpc] at hk; cases hk
    exact ⟨⟨fun _ h => h, fun _ _ _ => ⟨rfl, rfl⟩, fun _ h hn => absurd h hn, fun _ _ => rfl, fun _ _ _ h => h⟩,
      .quiet rfl rfl rfl rfl (fun _ _ => rfl) (.inl hrun)⟩
  | unblock t =>
    rw [hpc] at hk
    exact unblock_effect h hpc (wakeable_of_fresh h hr hpc hf) hk
  | semaDown s =>
    rw [hpc] at hk
    have hs := hsema s (by rw [hpc]; rfl)
    have h0 : Wf I P (some k.cur) { k with intr := false } := intrOff_wf h
    obtain ⟨hf, he⟩ := @semaDownLoop_effect I P { k with intr := false } .go h0 rfl s hs (.inl hpc) k.intr k' hk
    exact ⟨⟨hf.1, hf.2, hf.3, hf.4, hf.5⟩, by cases he with
      | quiet a b c d e f => exact .quiet a b c d e f
      | stmt hst a b c d e f => exact absurd hst (by rintro ⟨⟩ <;> simp_all [Kernel.pc])
      | block s' old a b c d e f g i j => exact .block s' old a b c d e f g i j
      | take s' a b c d e f g i j => exact .take s' a b c d e f g i j
      | give s' a b c d e f g i j l => exact .give s' a b c d e f g i j l⟩
  | semaLoop s old =>
    rw [hpc] at hk
    exact semaDownLoop_effect h (h.intrOff (.inr (by show k.pc.isLoop = true; rw [hpc]; rfl))) (hsema s (by rw [hpc]; rfl)) (.inr ⟨old, hpc⟩) hk
  | semaUp s =>
    rw [hpc] at hk
    exact semaUp_effect h (hsema s (by rw [hpc]; rfl)) hpc hk
  | acqTest l =>
    rw [hpc] at hk; cases hk
    by_cases e : (k.lock l).holder = some k.cur
    · rw [if_neg (by simpa using e)] at hstmt ⊢
      exact hstmt (.testOwn l hpc e) rfl rfl rfl ⟨rfl, rfl, rfl, rfl⟩
    · rw [if_pos e] at hstmt ⊢
      exact hstmt (.testOther l hpc e) rfl rfl rfl ⟨rfl, rfl, rfl, rfl⟩
  | acqHolder l =>
    rw [hpc] at hk; cases hk
    exact hstmt (.setHolder l hpc) rfl rfl rfl ⟨rfl, rfl, rfl, rfl⟩
  | acqAssert l =>
    rw [hpc] at hk
    obtain ⟨_, ha, hk⟩ := bind_ok_iff.mp hk
    cases hk
    by_cases e : (k.lock l).holderRepeatNr = 0
    · exact hstmt (.assertNr l hpc e) rfl rfl rfl ⟨rfl, rfl, rfl, rfl⟩
    · simp [e] at ha
  | acqNr l =>
    rw [hpc] at hk; cases hk
    exact hstmt (.setNr l hpc) rfl rfl rfl ⟨rfl, rfl, rfl, htask _ _⟩
  | acqInc l =>
    rw [hpc] at hk; cases hk
    exact hstmt (.loadInc l hpc) rfl rfl rfl ⟨rfl, rfl, rfl, rfl⟩
  | acqIncStore l nr =>
    rw [hpc] at hk; cases hk
    exact hstmt (.storeInc l nr hpc) rfl rfl rfl ⟨rfl, rfl, rfl, htask _ _⟩
  | relAssert l =>
    rw [hpc] at hk
    obtain ⟨_, ha, hk⟩ := bind_ok_iff.mp hk
    cases hk
    by_cases e : (k.lock l).holder = some k.cur
    · exact hstmt (.assertHolder l hpc e) rfl rfl rfl ⟨rfl, rfl, rfl, rfl⟩
    · simp [e] at ha
  | relTest l =>
    rw [hpc] at hk; cases hk
    by_cases e : 1 < (k.lock l).holderRepeatNr
    · rw [if_pos e] at hstmt ⊢
      exact hstmt (.testNested l hpc e) rfl rfl rfl ⟨rfl, rfl, rfl, rfl⟩
    · rw [if_neg e] at hstmt ⊢
      exact hstmt (.testLast l hpc e) rfl rfl rfl ⟨rfl, rfl, rfl, rfl⟩
  | relDec l =>
    rw [hpc] at hk; cases hk
    exact hstmt (.loadDec l hpc) rfl rfl rfl ⟨rfl, rfl, rfl, rfl⟩
  | relDecStore l nr =>
    rw [hpc] at hk; cases hk
    exact hstmt (.storeDec l nr hpc) rfl rfl rfl ⟨rfl, rfl, rfl, htask _ _⟩
  | relAssertOne l =>
    rw [hpc] at hk
    obtain ⟨_, ha, hk⟩ := bind_ok_iff.mp hk
    cases hk
    by_cases e : (k.lock l).holderRepeatNr = 1
    · exact hstmt (.assertOne l hpc e) rfl rfl rfl ⟨rfl, rfl, rfl, rfl⟩
    · simp [e] at ha
  | relClear l =>
    rw [hpc] at hk; cases hk
    exact hstmt (.clearHolder l hpc) rfl rfl rfl ⟨rfl, rfl, rfl, htask _ _⟩
  | relZero l =>
    rw [hpc] at hk; cases hk
    exact hstmt (.zeroNr l hpc) rfl rfl rfl ⟨rfl, rfl, rfl, rfl⟩

/-- The running thread keeps its program point, and is dispatched, put back or stopped. -/
theorem dispatch_effect (hc : k.cur ∈ k.created) {k1 k' : Kernel Queues} {x : Task} {r : Resume}
    (u : Upd k k1 k.cur x) (hx : x.pc = k.pc ∧ x.depth = k.depth) (hs : x.status = .ready ∨ k.pc = .run ∧ ∃ stat, op = .call (.threadBlock stat))
    (hl : k1.lock = k.lock) (hv : k1.value = k.value) (hw : ∀ s ∈ I, k1.queues (.waiters s) = k.queues (.waiters s))
    (hr : ∀ t ∈ k1.queues .ready, t ∈ k.created) (hk : switchToFirst r k1 = .ok k') : Frame k op k' ∧ Effect I k op k' := by
  obtain ⟨n, rest, hq, hk⟩ := switchToFirst_ok hk
  refine ⟨switchTo_frame hc u (hr n (by simp [hq])) hk, ?_⟩
  refine .quiet ?_ ?_ (by rw [hk]; exact hl) (by rw [hk]; exact hv) (fun s hs => by rw [hk, switchTo_waiters, hw s hs]) ?_
  · rw [hk, switchTo_pc, u.same, hx.1]
  · rw [hk, switchTo_depth, u.same, hx.2]
  · rw [hk, switchTo_status, u.same]
    split
    · exact .inl rfl
    · exact .inr hs

theorem requeue_created (h : Wf I P (some k.cur) k) (reload : Bool) : ∀ t ∈ (requeue reload k).queues .ready, t ∈ k.created :=
  fun t ht => (((requeue_wf h reload).readyMem t).mp ht).1

theorem quiet_effect (h : Wf I P (some k.cur) k) {k' : Kernel Queues} {x : Task} (u : Upd k k' k.cur x)
    (hx : x.pc = k.pc ∧ x.depth = k.depth ∧ x.status = (k.task k.cur).status) (hl : k'.lock = k.lock)
    (hv : k'.value = k.value) (hq : k'.queues = k.queues) : Frame k op k' ∧ Effect I k op k' :=
  ⟨upd_frame h.curCreated u, .quiet (by rw [u.same, hx.1]) (by rw [u.same, hx.2.1]) hl hv (fun s _ => by rw [hq])
    (.inl (by rw [u.same, hx.2.2]; exact h.cur_running))⟩

theorem enter_effect (h : Wf I P (some k.cur) k) {c : Call} (hl : Legal I k (.call c)) {k' : Kernel Queues}
    (hk : enter k c = .ok k') : Frame k (.call c) k' ∧ Effect I k (.call c) k' := by
  obtain ⟨⟨hr, hpc, hl⟩, -⟩ := hl
  have hrun := h.cur_running
  have hcall : ∀ {pc : Pc}, LockStmt I k (.call c) pc k.depth k.lock → k' = k.setPc pc → Frame k (.call c) k' ∧ Effect I k (.call c) k' :=
    fun {pc} hst e => by
      have u : Upd k k' k.cur { k.task k.cur with pc := pc } := by rw [e]; exact ⟨rfl, rfl, rfl, rfl⟩
      exact ⟨upd_frame h.curCreated u, .stmt hst (by rw [u.same]) (by rw [u.same]) (by rw [e]; rfl) (by rw [e]; rfl)
        (fun s _ => by rw [e]; rfl) (by rw [u.same]; exact hrun)⟩
  cases c with
  | intrEnable => cases hk; exact quiet_effect h ⟨rfl, rfl, rfl, by simp⟩ ⟨rfl, rfl, rfl⟩ rfl rfl rfl
  | intrDisable => cases hk; exact quiet_effect h ⟨rfl, rfl, rfl, by simp⟩ ⟨rfl, rfl, rfl⟩ rfl rfl rfl
  | threadStart page prio =>
    cases page with
    | none => cases hk
    | some t =>
      have ht : t ∉ k.created := hl
      have e : k' = started t prio k := threadStart_ok h ht hk
      have hm : t ≠ k.mainThread := fun e => ht (e ▸ h.mainCreated)
      have hne : ∀ u ∈ k.created, (started t prio k).task u = k.task u := fun u hu =>
        started_task_ne (fun e => ht (e ▸ hu))
      subst e
      refine ⟨⟨fun u hu => List.mem_append_left _ hu, fun u hu _ => by rw [hne u hu]; exact ⟨rfl, rfl⟩, fun u hu hn => ?_,
        fun u hu => started_task_ne (fun e => hu (by rw [e]; exact List.mem_append_right _ (List.mem_singleton_self t))),
        fun u hu _ ha => by rw [hne u hu]; exact ha⟩, ?_⟩
      · have : u = t := by simpa [started, threadCreate, initThread, hn] using hu
        subst this
        rw [started_task_same hm]; exact ⟨⟨prio, rfl⟩, rfl, rfl, rfl⟩
      · have hc := hne k.cur h.curCreated
        exact .quiet (by rw [hc]) (by rw [hc]) rfl rfl (fun s _ => by simp [started, threadCreate, initThread])
          (.inl (by rw [hc]; exact hrun))
  | threadYield =>
    have hk : threadYield k = .ok k' := hk
    rw [threadYield_eq h] at hk
    have hready : ∀ t ∈ (requeue false { k with intr := false }).queues .ready, t ∈ k.created := by
      have h0 : Wf I P (some k.cur) { k with intr := false } := intrOff_wf h
      exact @requeue_created I P { k with intr := false } h0 false
    have u : Upd k (requeue false { k with intr := false }) k.cur { k.task k.cur with status := .ready } :=
      ⟨rfl, rfl, rfl, rfl⟩
    exact dispatch_effect h.curCreated u ⟨rfl, rfl⟩ (.inl rfl) rfl rfl (fun s _ => by simp [requeue]) hready hk
  | threadBlock stat =>
    obtain ⟨-, hk⟩ := threadBlock_ok hk
    have u : Upd k (stop stat k) k.cur { k.task k.cur with status := stat } := ⟨rfl, rfl, rfl, rfl⟩
    exact dispatch_effect h.curCreated u ⟨rfl, rfl⟩ (.inr ⟨hpc, stat, rfl⟩) rfl rfl (fun s _ => rfl)
      (fun t ht => ((h.readyMem t).mp ht).1) hk
  | threadUnblock t => exact hcall (.callUnblock t hpc) (enterUnblock_ok hk)
  | semaDown n => exact hcall (.callDown n hpc hl) (Except.ok.inj hk).symm
  | semaUp n => exact hcall (.callUp n hpc hl) (Except.ok.inj hk).symm
  | lockAcquire l => exact hcall (.callAcquire l hpc hl.1 hl.2) (Except.ok.inj hk).symm
  | lockRelease l => exact hcall (.callRelease l hpc hl.1 hl.2) (Except.ok.inj hk).symm

theorem step_effect (h : Wf I P (some k.cur) k) (hl : Legal I k op) {k' : Kernel Queues}
    (hk : step k op = .ok k') : Frame k op k' ∧ Effect I k op k' := by
  cases op with
  | timer =>
    rcases intrTimerHandler_ok h hk with ⟨-, hk⟩ | ⟨-, rfl⟩
    · have u : Upd k (requeue true (counted k)) k.cur { k.task k.cur with
          elapsedTicks := ((k.task k.cur).elapsedTicks + 1) % 2 ^ 32, ticks := (k.task k.cur).priority, status := .ready } :=
        ⟨rfl, rfl, rfl, by simp [requeue, counted, Kernel.setTask]⟩
      exact dispatch_effect h.curCreated u ⟨rfl, rfl⟩ (.inl rfl) rfl rfl (fun s _ => by simp [requeue, counted])
        (requeue_created (counted_wf h) true) hk
    · have u : Upd k (ticked k) k.cur { k.task k.cur with
          elapsedTicks := ((k.task k.cur).elapsedTicks + 1) % 2 ^ 32, ticks := (k.task k.cur).ticks - 1 } :=
        ⟨rfl, rfl, rfl, by simp [ticked, counted, Kernel.setTask]⟩
      exact quiet_effect h u ⟨rfl, rfl, rfl⟩ rfl rfl rfl
  | go =>
    cases hr : (k.task k.cur).resume with
    | none => rw [step_go_exec hr] at hk; exact exec_effect h hr hl.2 hk
    | some r =>
      rw [step_go_resume hr] at hk; cases hk
      have u : Upd k (resumeWith r k) k.cur { k.task k.cur with resume := none } := by
        cases r <;> exact ⟨rfl, rfl, rfl, rfl⟩
      exact quiet_effect h u ⟨rfl, rfl, rfl⟩ (by cases r <;> rfl) (by cases r <;> rfl) (by cases r <;> rfl)
  | call c => exact enter_effect h hl hk

/-! ## What can stop a step -/

theorem switchToFirst_error {r : Resume} {e : Stop} (hk : switchToFirst r k = .error e) :
    e = .assert .scheduleReady ∧ k.queues .ready = [] := by
  cases hq : k.queues .ready with
  | nil => rw [switchToFirst_nil hq] at hk; cases hk; exact ⟨rfl, rfl⟩
  | cons n rest => rw [switchToFirst_cons hq] at hk; cases hk

theorem semaDownLoop_stops (h : Wf I P (some k.cur) k) (hi : k.intr = false) {s : Sema} (hs : s ∈ I) {old : Bool}
    {e : Stop} (hk : semaDownLoop s old k = .error e) :
    e = .assert .scheduleReady ∧ k.value s = 0 ∧ k.queues .ready = [] ∨ e = .assert .semaDownValue ∧ 1 < k.value s := by
  rcases Nat.lt_trichotomy (k.value s) 1 with hv | hv | hv
  · rw [semaDownLoop_block h hs hi (by omega)] at hk
    obtain ⟨he, hq⟩ := switchToFirst_error hk
    exact .inl ⟨he, by omega, by simpa [stopOn, stop, Kernel.setPc] using hq⟩
  · rw [semaDownLoop_take hv] at hk; cases hk
  · rw [semaDownLoop_panic hv] at hk; cases hk
    exact .inr ⟨rfl, hv⟩

theorem semaUp_stops (h : Wf I P (some k.cur) k) {s : Sema} (hs : s ∈ I) {e : Stop} (hk : semaUp s k = .error e) :
    e = .assert .semaUpZero ∧ k.value s ≠ 0 := by
  by_cases hv : k.value s = 0
  · cases hq : k.queues (.waiters s) with
    | nil => rw [semaUp_nil hv hq] at hk; cases hk
    | cons t ts =>
      obtain ⟨-, hst, hnr, -⟩ := woken_wf h hs hq
      rw [semaUp_cons hv hq (by rw [hst]; rfl) hnr] at hk; cases hk
  · rw [semaUp_panic hv] at hk; cases hk
    exact ⟨rfl, hv⟩

theorem exec_stops (h : Wf I P (some k.cur) k) {e : Stop} (hk : exec k k.pc = .error e) :
    ∃ site, e = .assert site ∧ Stops I k .go site := by
  have hsema : ∀ s, k.pc.sema = some s → s ∈ I := (h.tasks k.cur h.curCreated).sema
  have hassert : ∀ {c : Prop} [Decidable c] {site : Site} {k' : Kernel Queues},
      (do assert (decide c) site; Except.ok k') = Except.error e → e = .assert site ∧ ¬ c := by
    intro c _ site k' hk
    by_cases hc : c <;> simp [hc] at hk
    exact ⟨hk.symm, hc⟩
  cases hpc : k.pc with
  | unblock t =>
    rw [hpc] at hk
    by_cases hs : (k.task t).status = .ready
    · simp only [exec, wakeUp_ready hs] at hk; cases hk
    · simp only [exec, wakeUp_eq hs (h.not_ready hs)] at hk; cases hk
  | semaDown s =>
    rw [hpc] at hk
    have hs := hsema s (by rw [hpc]; rfl)
    have h0 : Wf I P (some k.cur) { k with intr := false } := intrOff_wf h
    rcases @semaDownLoop_stops I P { k with intr := false } h0 rfl s hs k.intr e hk with ⟨he, hv, hq⟩ | ⟨he, hv⟩
    · exact ⟨_, he, .noReadyDown s hs (.inl hpc) hv hq⟩
    · exact ⟨_, he, .manyUnits s hs (.inl hpc) hv⟩
  | semaLoop s old =>
    rw [hpc] at hk
    have hs := hsema s (by rw [hpc]; rfl)
    have hi := h.intrOff (.inr (by show k.pc.isLoop = true; rw [hpc]; rfl))
    rcases semaDownLoop_stops h hi hs hk with ⟨he, hv, hq⟩ | ⟨he, hv⟩
    · exact ⟨_, he, .noReadyDown s hs (.inr ⟨old, hpc⟩) hv hq⟩
    · exact ⟨_, he, .manyUnits s hs (.inr ⟨old, hpc⟩) hv⟩
  | semaUp s =>
    rw [hpc] at hk
    have hs := hsema s (by rw [hpc]; rfl)
    obtain ⟨he, hv⟩ := semaUp_stops h hs hk
    exact ⟨_, he, .unitLeft s hs hpc hv⟩
  | acqAssert l =>
    rw [hpc] at hk
    obtain ⟨he, hn⟩ := hassert hk
    exact ⟨_, he, .acquireNr l hpc hn⟩
  | relAssert l =>
    rw [hpc] at hk
    obtain ⟨he, hn⟩ := hassert hk
    exact ⟨_, he, .releaseHolder l hpc hn⟩
  | relAssertOne l =>
    rw [hpc] at hk
    obtain ⟨he, hn⟩ := hassert hk
    exact ⟨_, he, .releaseNr l hpc hn⟩
  | run | acqTest l | acqHolder l | acqNr l | acqInc l | acqIncStore l nr | relTest l | relDec l | relDecStore l nr
  | relClear l | relZero l => rw [hpc] at hk; cases hk

/-- No assertion about the queues fires, no walk leaves its list and none runs on. -/
theorem step_stops (h : Wf I P (some k.cur) k) (hl : Legal I k op) {e : Stop} (hk : step k op = .error e) :
    ∃ site, e = .assert site ∧ Stops I k op site := by
  cases op with
  | timer =>
    have hk : intrTimerHandler k = .error e := hk
    by_cases ht : (k.task k.cur).ticks = 0
    · rw [intrTimerHandler_switch h ht] at hk
      -- the running thread itself is on the ready list by now
      have := (switchToFirst_error hk).2
      simp [requeue] at this
    · rw [intrTimerHandler_tick h ht] at hk; cases hk
  | go =>
    cases hr : (k.task k.cur).resume with
    | none => rw [step_go_exec hr] at hk; exact exec_stops h hk
    | some r => rw [step_go_resume hr] at hk; cases hk
  | call c =>
    obtain ⟨⟨-, -, hl⟩, -⟩ := hl
    cases c with
    | threadStart page prio =>
      cases page with
      | none => cases hk; exact ⟨_, rfl, .noPage prio⟩
      | some t => rw [show step k (.call (.threadStart (some t) prio)) = _ from threadStart_eq h (hl) prio] at hk; cases hk
    | threadYield =>
      have hk : threadYield k = .error e := hk
      rw [threadYield_eq h] at hk
      have := (switchToFirst_error hk).2
      simp [requeue] at this
    | threadBlock stat =>
      have hk : threadBlock stat k = .error e := hk
      cases hs : stat.nonRunnable with
      | false =>
        simp [threadBlock, hs] at hk
        exact ⟨_, hk.symm, .badStat stat hs⟩
      | true =>
        rw [threadBlock_eq hs] at hk
        obtain ⟨he, hq⟩ := switchToFirst_error hk
        exact ⟨_, he, .noReady stat hq⟩
    | threadUnblock t =>
      obtain ⟨-, hs, -⟩ := hl
      simp [TinyOs.Thread.step, enter, hs] at hk
    | intrEnable | intrDisable | semaDown n | semaUp n | lockAcquire l | lockRelease l => cases hk

end TinyOs.Thread
