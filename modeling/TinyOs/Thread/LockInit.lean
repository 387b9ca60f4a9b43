/-
  TinyOs.Thread.LockInit — `lock_init` does not initialise the waiters list.

  `sema_init` sets the value and nothing else, so the list a lock's semaphore starts
  with is whatever its memory held. Already the first release by the only thread asks
  `list_empty` of it.

  - `usable_iff`: the waiters list is in order whenever `sema_down` and `sema_up` use
    it, over all runs, exactly when the memory held an empty list before `lock_init`.
  - `zeroed_lock_unusable`: zeroed memory, as of a static lock, holds none.
-/

import TinyOs.Thread.Unnested

namespace TinyOs.Thread

open TinyOs.Kernel TinyOs.Lib TinyOs.Logic

/-- The next step of the running thread uses the waiters list of lock `l`. -/
def Touches (l : LockId) (k : Kernel (Links Node)) : Prop :=
  (k.task k.cur).resume = none ∧ (k.pc = .semaUp (.lock l) ∨ k.atDown (.lock l) ∧ k.value (.lock l) = 0)

/-- The waiters list of lock `l` links exactly the threads blocked on it. -/
def WaitersOk (l : LockId) (k : Kernel (Links Node)) : Prop :=
  ∃ ts : List Tid, IsList k.queues (Qid.waiters (.lock l)).plist (ts.map .generalTag) ∧ ts.Nodup ∧
    ∀ t, t ∈ ts ↔ t ∈ k.created ∧ (k.task t).status = .blocked ∧ ∃ old, (k.task t).pc = .semaLoop (.lock l) old

/-- The runs that follow `lock_init` of `l` in memory `k0`, and `threads_init`. -/
def InitRuns (I : Set Sema) (l : LockId) (k0 : Kernel (Links Node)) : Kernel (Links Node) → Prop :=
  Reach (fun k => threadsInit (lockInit l k0) = .ok k) (Legal (insert (.lock l) I)) step

/-- `lock_init` alone makes `l` usable in memory `k0`. -/
def UsableAfterInit (I : Set Sema) (l : LockId) (k0 : Kernel (Links Node)) : Prop :=
  ∀ k, InitRuns I l k0 k → Touches l k → WaitersOk l k

variable {I : Set Sema} {l : LockId} {k0 : Kernel (Links Node)}

/-! ## Memory that held an empty list -/

theorem usable_of_empty (hb : Boot I k0) (h : IsList k0.queues (Qid.waiters (.lock l)).plist []) :
    UsableAfterInit I l k0 := by
  intro k hk _
  have hb' : Boot (insert (.lock l) I) (lockInit l k0) := by
    refine ⟨hb.intrOff, fun s hs => ?_⟩
    rcases hs with rfl | hs
    · exact h
    · exact hb.waiters s hs
  have hruns : Runs (insert (.lock l) I) (fun _ _ => True) (fun _ _ => True) k :=
    hk.mono (fun k hk => ⟨⟨_, hb', hk⟩, trivial⟩) (fun _ _ hl => ⟨hl, trivial⟩)
  obtain ⟨a, hst, hw⟩ := hruns.stand
  have ho := hst.inOrder hw
  have hl : .lock l ∈ insert (Sema.lock l) I := Set.mem_insert _ _
  exact ⟨_, ho.linked _ (waiters_lists hl), ho.nodup _ (waiters_lists hl), ho.waiting _ hl⟩

/-! ## The first release -/

/-- `threads_init` does not write the links of a waiters list. -/
theorem threadsInit_waiters {k k' : Kernel (Links Node)} (h : threadsInit k = .ok k') (s : Sema) :
    k'.queues.next (.head (.waiters s)) = k.queues.next (.head (.waiters s)) ∧
      k'.queues.prev (.tail (.waiters s)) = k.queues.prev (.tail (.waiters s)) := by
  obtain ⟨found, -, h⟩ := bind_ok_iff.mp h
  obtain ⟨-, -, h⟩ := bind_ok_iff.mp h
  cases h
  simp [initThread, QueueStore.append, QueueStore.zeroTags, QueueStore.init, listInit, listAppend, listInsertBefore,
    Links.insertBefore_next, Links.insertBefore_prev, Qid.plist, Qid.node]

/-- The main thread alone at a program point, the lists as in `q`. -/
structure Alone (l : LockId) (q : Links Node) (main : Tid) (k : Kernel (Links Node)) (pc : Pc) (v : Nat) (lk : Lock) :
    Prop where
  cur : k.cur = main
  created : k.created = [main]
  queues : k.queues = q
  status : (k.task main).status = .running
  pc : (k.task main).pc = pc
  resume : (k.task main).resume = none
  value : k.value (.lock l) = v
  lock : k.lock l = lk

variable {q : Links Node} {main : Tid} {k k' : Kernel (Links Node)} {pc pc' : Pc} {v v' : Nat} {lk lk' : Lock}

theorem Alone.go (h : Alone l q main k pc v lk) : step k .go = exec k pc := by
  rw [step_go_exec (by rw [h.cur, h.resume]), h.cur, h.pc]

/-- After a statement of the main thread. -/
theorem Alone.to (h : Alone l q main k pc v lk) {x : Task} (hk : k'.cur = k.cur ∧ k'.created = k.created ∧
    k'.queues = k.queues ∧ k'.task = Function.update k.task k.cur x) (hx : x.status = (k.task k.cur).status ∧
    x.resume = (k.task k.cur).resume ∧ x.pc = pc') (hv : k'.value (.lock l) = v') (hl : k'.lock l = lk') :
    Alone l q main k' pc' v' lk' := by
  obtain ⟨hc, hcr, hq, ht⟩ := hk
  have hmain : k'.task main = x := by rw [ht, h.cur, Function.update_self]
  rw [h.cur] at hx
  exact ⟨hc.trans h.cur, hcr.trans h.created, hq.trans h.queues, by rw [hmain, hx.1, h.status], by rw [hmain, hx.2.2],
    by rw [hmain, hx.2.1, h.resume], hv, hl⟩

/-- The main thread acquires the lock, releases it, and comes to `sema_up`. -/
theorem first_release (hb : Boot I k0) : ∃ k1 k, threadsInit (lockInit l k0) = .ok k1 ∧ InitRuns I l k0 k ∧
    Alone l k1.queues k0.cur k (.semaUp (.lock l)) 0 ⟨none, 0⟩ := by
  have hb' : Boot I (lockInit l k0) := ⟨hb.intrOff, hb.waiters⟩
  obtain ⟨k1, hk1, hst⟩ := threadsInit_stand hb'
  obtain ⟨hcur, hcr, htask, hvalue, hlock, -⟩ := hst.fields
  have hcur : k1.cur = k0.cur := hcur
  have hmain : k1.task k0.cur = ⟨.running, 31, 31, 0, 0x19870916, .run, none, fun _ => 0⟩ := by
    rw [htask]; exact booted_task (lockInit l k0)
  have a1 : Alone l k1.queues k0.cur k1 .run 1 ⟨none, 0⟩ := by
    refine ⟨hcur, hcr, rfl, by rw [hmain], by rw [hmain], by rw [hmain], ?_, ?_⟩
    · rw [hvalue]
      simp [booted, initThread, Kernel.onto, lockInit, semaInit, Kernel.setValue, Kernel.setLock]
    · rw [hlock]
      simp [booted, initThread, Kernel.onto, lockInit, semaInit, Kernel.setValue, Kernel.setLock]
  have r1 : InitRuns I l k0 k1 := .first hk1
  have hown : ∀ {k pc v lk}, Alone l k1.queues k0.cur k pc v lk → InitRuns I l k0 k → pc.target = none →
      ∀ k', exec k pc = .ok k' → InitRuns I l k0 k' := fun a r hp k' hk =>
    r.step .go ⟨trivial, fresh_go (by rw [a.cur, a.pc]; exact hp)⟩ (a.go.trans hk)
  -- lock_acquire
  obtain ⟨k2, r2, a2⟩ : ∃ k, InitRuns I l k0 k ∧ Alone l k1.queues k0.cur k (.acqTest l) 1 ⟨none, 0⟩ := by
    refine ⟨_, r1.step (.call (.lockAcquire l)) ⟨⟨?_, ?_, Set.mem_insert _ _, ?_⟩, fresh_call _ _⟩ rfl,
      a1.to ⟨rfl, rfl, rfl, rfl⟩ ⟨rfl, rfl, rfl⟩ a1.value a1.lock⟩
    · rw [hcur]; exact a1.resume
    · rw [hcur]; exact a1.pc
    · rw [hcur, hmain]; simp
  obtain ⟨k3, r3, a3⟩ : ∃ k, InitRuns I l k0 k ∧ Alone l k1.queues k0.cur k (.semaDown (.lock l)) 1 ⟨none, 0⟩ := by
    refine ⟨_, hown a2 r2 rfl _ rfl, a2.to ⟨rfl, rfl, rfl, rfl⟩ ⟨rfl, rfl, ?_⟩ a2.value a2.lock⟩
    simp [a2.lock]
  obtain ⟨k4, r4, a4⟩ : ∃ k, InitRuns I l k0 k ∧ Alone l k1.queues k0.cur k (.acqHolder l) 0 ⟨none, 0⟩ := by
    have hk : exec k3 (.semaDown (.lock l)) = .ok (({ k3.setValue (.lock l) 0 with intr := k3.intr }).setPc (.acqHolder l)) := by
      simp [exec, semaDown, semaDownLoop, a3.value, Kernel.setValue, afterDown]
    exact ⟨_, hown a3 r3 rfl _ hk, a3.to ⟨rfl, rfl, rfl, rfl⟩ ⟨rfl, rfl, rfl⟩ (by simp [Kernel.setPc, Kernel.setTask, Kernel.setValue]) a3.lock⟩
  obtain ⟨k5, r5, a5⟩ : ∃ k, InitRuns I l k0 k ∧ Alone l k1.queues k0.cur k (.acqAssert l) 0 ⟨some k0.cur, 0⟩ := by
    refine ⟨_, hown a4 r4 rfl _ rfl, a4.to ⟨rfl, rfl, rfl, rfl⟩ ⟨rfl, rfl, rfl⟩ a4.value ?_⟩
    simp [Kernel.setPc, Kernel.setTask, Kernel.setLock, a4.lock, a4.cur]
  obtain ⟨k6, r6, a6⟩ : ∃ k, InitRuns I l k0 k ∧ Alone l k1.queues k0.cur k (.acqNr l) 0 ⟨some k0.cur, 0⟩ := by
    have hk : exec k5 (.acqAssert l) = .ok (k5.setPc (.acqNr l)) := by simp [exec, a5.lock]
    exact ⟨_, hown a5 r5 rfl _ hk, a5.to ⟨rfl, rfl, rfl, rfl⟩ ⟨rfl, rfl, rfl⟩ a5.value a5.lock⟩
  have hbump : ∀ (k : Kernel (Links Node)) (f : Task → Task) (pc : Pc), ((k.setTask k.cur f).setPc pc).task =
      Function.update k.task k.cur { f (k.task k.cur) with pc := pc } := fun k f pc => by
    simp [Kernel.setPc, Kernel.setTask]
  obtain ⟨k7, r7, a7⟩ : ∃ k, InitRuns I l k0 k ∧ Alone l k1.queues k0.cur k .run 0 ⟨some k0.cur, 1⟩ := by
    refine ⟨_, hown a6 r6 rfl _ rfl, a6.to ⟨rfl, rfl, rfl, hbump _ _ _⟩ ⟨rfl, rfl, rfl⟩ a6.value ?_⟩
    simp [Kernel.setPc, Kernel.setTask, Kernel.setLock, a6.lock]
  -- lock_release
  obtain ⟨k8, r8, a8⟩ : ∃ k, InitRuns I l k0 k ∧ Alone l k1.queues k0.cur k (.relAssert l) 0 ⟨some k0.cur, 1⟩ := by
    refine ⟨_, r7.step (.call (.lockRelease l)) ⟨⟨?_, ?_, Set.mem_insert _ _, ?_⟩, fresh_call _ _⟩ rfl,
      a7.to ⟨rfl, rfl, rfl, rfl⟩ ⟨rfl, rfl, rfl⟩ a7.value a7.lock⟩
    · rw [a7.cur]; exact a7.resume
    · rw [a7.cur]; exact a7.pc
    · rw [a7.lock, a7.cur]
  obtain ⟨k9, r9, a9⟩ : ∃ k, InitRuns I l k0 k ∧ Alone l k1.queues k0.cur k (.relTest l) 0 ⟨some k0.cur, 1⟩ := by
    have hk : exec k8 (.relAssert l) = .ok (k8.setPc (.relTest l)) := by simp [exec, a8.lock, a8.cur]
    exact ⟨_, hown a8 r8 rfl _ hk, a8.to ⟨rfl, rfl, rfl, rfl⟩ ⟨rfl, rfl, rfl⟩ a8.value a8.lock⟩
  obtain ⟨k10, r10, a10⟩ : ∃ k, InitRuns I l k0 k ∧ Alone l k1.queues k0.cur k (.relAssertOne l) 0 ⟨some k0.cur, 1⟩ := by
    refine ⟨_, hown a9 r9 rfl _ rfl, a9.to ⟨rfl, rfl, rfl, rfl⟩ ⟨rfl, rfl, ?_⟩ a9.value a9.lock⟩
    simp [a9.lock]
  obtain ⟨k11, r11, a11⟩ : ∃ k, InitRuns I l k0 k ∧ Alone l k1.queues k0.cur k (.relClear l) 0 ⟨some k0.cur, 1⟩ := by
    have hk : exec k10 (.relAssertOne l) = .ok (k10.setPc (.relClear l)) := by simp [exec, a10.lock]
    exact ⟨_, hown a10 r10 rfl _ hk, a10.to ⟨rfl, rfl, rfl, rfl⟩ ⟨rfl, rfl, rfl⟩ a10.value a10.lock⟩
  obtain ⟨k12, r12, a12⟩ : ∃ k, InitRuns I l k0 k ∧ Alone l k1.queues k0.cur k (.relZero l) 0 ⟨none, 1⟩ := by
    refine ⟨_, hown a11 r11 rfl _ rfl, a11.to ⟨rfl, rfl, rfl, hbump _ _ _⟩ ⟨rfl, rfl, rfl⟩ a11.value ?_⟩
    simp [Kernel.setPc, Kernel.setTask, Kernel.setLock, a11.lock]
  refine ⟨k1, _, hk1, hown a12 r12 rfl _ rfl, a12.to ⟨rfl, rfl, rfl, rfl⟩ ⟨rfl, rfl, rfl⟩ a12.value ?_⟩
  simp [Kernel.setPc, Kernel.setTask, Kernel.setLock, a12.lock]

theorem empty_of_usable (hb : Boot I k0) (h : UsableAfterInit I l k0) :
    IsList k0.queues (Qid.waiters (.lock l)).plist [] := by
  obtain ⟨k1, k, hk1, hk, ha⟩ := @first_release I l k0 hb
  obtain ⟨ts, hlist, -, hmem⟩ := h k hk ⟨by rw [ha.cur]; exact ha.resume, .inl (by rw [Kernel.pc, ha.cur]; exact ha.pc)⟩
  have hts : ts = [] := by
    rw [List.eq_nil_iff_forall_not_mem]
    intro t ht
    obtain ⟨hc, hs, -⟩ := (hmem t).mp ht
    rw [ha.created, List.mem_singleton] at hc
    rw [hc, ha.status] at hs; cases hs
  subst hts
  rw [ha.queues] at hlist
  obtain ⟨h1, h2⟩ := isList_nil.mp hlist
  obtain ⟨h3, h4⟩ := threadsInit_waiters hk1 (.lock l)
  exact isList_nil.mpr ⟨h3.symm.trans h1, h4.symm.trans h2⟩

/-- A lock is usable after `lock_init` alone exactly where its memory held an empty list. -/
theorem usable_iff (hb : Boot I k0) :
    UsableAfterInit I l k0 ↔ IsList k0.queues (Qid.waiters (.lock l)).plist [] :=
  ⟨empty_of_usable hb, usable_of_empty hb⟩

/-- Where the links of the list happen to be in order, `lock_init` is enough. -/
theorem quiet_lock_usable : UsableAfterInit ∅ 0 quiet := (usable_iff (quiet_boot ∅)).mpr (isList_nil.mpr ⟨rfl, rfl⟩)

/-- Every link word is zero. -/
def zeroed : Kernel (Links Node) := { quiet with queues := ⟨fun _ => .null, fun _ => .null⟩ }

/-- Zeroed memory holds no list: the first release pops NULL. -/
theorem zeroed_lock_unusable : ¬ UsableAfterInit ∅ 0 zeroed ∧
    ∃ k, InitRuns ∅ 0 zeroed k ∧ Touches 0 k ∧ step k .go = .error .fault := by
  have hb : Boot ∅ zeroed := ⟨rfl, fun _ hs => absurd hs (Set.notMem_empty _)⟩
  refine ⟨fun h => ?_, ?_⟩
  · have := (isList_nil.mp (empty_of_usable hb h)).1
    cases this
  · obtain ⟨k1, k, hk1, hk, ha⟩ := @first_release ∅ 0 zeroed hb
    have hnext : k.queues.next (.head (.waiters (.lock 0))) = .null := by
      rw [ha.queues, (threadsInit_waiters hk1 (.lock 0)).1]; rfl
    have hempty : QueueStore.isEmpty k.queues (.waiters (.lock 0)) = false := by
      simp [QueueStore.isEmpty, listEmpty, Qid.plist, hnext]
    have hpop : QueueStore.pop k.queues (.waiters (.lock 0)) = .error .fault := by
      simp [QueueStore.pop, listPop, Qid.plist, hnext, elem2entry]
    refine ⟨k, hk, ⟨by rw [ha.cur]; exact ha.resume, .inl (by rw [Kernel.pc, ha.cur]; exact ha.pc)⟩, ha.go.trans ?_⟩
    simp [exec, semaUp, ha.value, hempty, hpop]

end TinyOs.Thread
