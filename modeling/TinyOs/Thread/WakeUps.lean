/-
  TinyOs.Thread.WakeUps — no wake-up of a semaphore is lost.

  `sema_up` makes its first waiter ready but leaves it to take the unit itself, and any
  other thread may take the unit first; the woken thread then blocks again. What holds
  at every moment (`Awake`): a unit with threads waiting for it has a woken thread
  still on its way to it.
-/

import TinyOs.Thread.Locks

namespace TinyOs.Thread

open TinyOs.Kernel TinyOs.Lib TinyOs.Logic

/-- Thread `t` is back from `thread_block` in `sema_down`, about to test the value again. -/
def Woken (k : Kernel Queues) (s : Sema) (t : Tid) : Prop :=
  t ∈ k.created ∧ (∃ old, (k.task t).pc = .semaLoop s old) ∧ ((k.task t).status = .running ∨ (k.task t).status = .ready)

structure Awake (k : Kernel Queues) (s : Sema) : Prop where
  units : k.value s ≤ 1
  woken : k.value s = 0 ∨ k.queues (.waiters s) = [] ∨ ∃ t, Woken k s t

variable {I : Set Sema} {P : Set Tid} {k k' : Kernel Queues} {s : Sema} {t : Tid} {op : Op}

/-- A woken thread other than the running one stays woken. -/
theorem Woken.others (h : Woken k s t) (f : Frame k op k') (hne : t ≠ k.cur) : Woken k' s t := by
  obtain ⟨hc, ⟨old, hpc⟩, hst⟩ := h
  exact ⟨f.created t hc, ⟨old, (f.others t hc hne).1.trans hpc⟩, f.awake t hc hne hst⟩

/-- No statement of the lock code is in the loop. -/
theorem stmt_not_loop {pc : Pc} {depth : LockId → Nat} {lock : LockId → Lock} (h : LockStmt I k op pc depth lock) (old : Bool) :
    k.pc ≠ .semaLoop s old := by
  intro e
  cases h <;> simp_all

/-- A thread in the loop is taking that semaphore and no other. -/
theorem atDown_loop {s' : Sema} {old : Bool} (hat : k.atDown s') (hloop : k.pc = .semaLoop s old) : s = s' := by
  rcases hat with hat | ⟨o, hat⟩ <;> rw [hat] at hloop
  · cases hloop
  · injection hloop with he
    exact he.symm

/-- The value and the waiters of `s` stay, and the running thread is not woken or stays so. -/
theorem Awake.same (h : Awake k s) (f : Frame k op k') (hv : k'.value s = k.value s)
    (hq : k'.queues (.waiters s) = k.queues (.waiters s))
    (hc : (∃ old, k.pc = .semaLoop s old) → Woken k s k.cur → Woken k' s k.cur) : Awake k' s := by
  refine ⟨by rw [hv]; exact h.units, ?_⟩
  rcases h.woken with h0 | h0 | ⟨t, ht⟩
  · exact .inl (hv.trans h0)
  · exact .inr (.inl (hq.trans h0))
  · by_cases e : t = k.cur
    · subst e; exact .inr (.inr ⟨_, hc ht.2.1 ht⟩)
    · exact .inr (.inr ⟨t, ht.others f e⟩)

theorem Awake.step (hs : s ∈ I) (f : Frame k op k') (e : Effect I k op k') (h : Awake k s) : Awake k' s := by
  cases e with
  | quiet hpc hd hl hv hq hst =>
    refine h.same f (by rw [hv]) (hq s hs) (fun ⟨old, hloop⟩ hw => ⟨f.created _ hw.1, ⟨old, hpc.trans hloop⟩, ?_⟩)
    rcases hst with hst | hst | hrun
    · exact .inl hst
    · exact .inr hst
    · rw [hrun.1] at hloop; cases hloop
  | stmt hst hpc hd hl hv hq =>
    exact h.same f (by rw [hv]) (hq s hs) (fun ⟨old, hloop⟩ _ => absurd hloop (stmt_not_loop hst old))
  | block s' old hs' hat hv0 hpc hd hl hv hq =>
    by_cases e : s = s'
    · subst e
      exact ⟨by rw [hv]; exact h.units, .inl (by rw [hv]; exact hv0)⟩
    · exact h.same f (by rw [hv]) (hq s hs e) fun ⟨_, hloop⟩ _ => absurd (atDown_loop hat hloop) e
  | take s' hs' hat hv1 hpc hd hl hv hq =>
    by_cases e : s = s'
    · subst e
      exact ⟨by simp [hv], .inl (by simp [hv])⟩
    · exact h.same f (by simp [hv, e]) (hq s hs) fun ⟨_, hloop⟩ _ => absurd (atDown_loop hat hloop) e
  | give s' hs' hpc0 hv0 hpc hd hl hv hq hw =>
    by_cases e : s = s'
    · subst e
      refine ⟨by simp [hv], .inr ?_⟩
      -- the thread `sema_up` wakes is the one on its way
      rcases hw with hw | ⟨t, ht, hne, ⟨old, hloop⟩, hst⟩
      · exact .inl hw
      · exact .inr ⟨t, f.created t ht, ⟨old, (f.others t ht hne).1.trans hloop⟩, .inr hst⟩
    · refine h.same f (by simp [hv, e]) (hq s hs e) (fun ⟨o, hloop⟩ _ => ?_)
      rw [hpc0] at hloop; cases hloop

/-! ## Runs -/

variable {E : Task → Op → Prop} {kl : Kernel (Links Node)}

/-- Inside `sema_down` of `s`. -/
def Task.inDown (x : Task) (s : Sema) : Prop := x.pc = .semaDown s ∨ ∃ old, x.pc = .semaLoop s old

theorem runs_awake (hs : s ∈ I) (h : Runs I (fun value _ => value s ≤ 1) E kl) : ∃ ts, InOrder I ∅ kl ts ∧
    (ts (.waiters s) ≠ [] → kl.value s = 0 ∨ kl.value s = 1 ∧ ∃ t ∈ kl.created, t ∉ ts (.waiters s) ∧
      (∃ old, (kl.task t).pc = .semaLoop s old) ∧ ((kl.task t).status = .running ∨ (kl.task t).status = .ready)) ∧
    ∀ t ∈ kl.created, (kl.task t).inDown s → (kl.task t).status ≠ .running →
      ((kl.task t).status = .blocked ∧ t ∈ ts (.waiters s) ∧ t ∉ ts .ready) ∨
      ((kl.task t).status = .ready ∧ t ∈ ts .ready ∧ t ∉ ts (.waiters s)) := by
  obtain ⟨a, hst, hw, hinv⟩ := h.invariant (Q := fun a => Awake a s)
    (fun k0 hF => ⟨hF, .inr (.inl rfl)⟩)
    (fun a a' op hw hQ hl _ hk => by
      obtain ⟨f, e⟩ := step_effect hw hl hk
      exact hQ.step hs f e)
  have hord := hst.inOrder hw
  obtain ⟨hcur, hcr, htask, hvalue, -⟩ := hst.fields
  refine ⟨a.queues, hord, fun hne => ?_, fun t ht hin hrun => ?_⟩
  · rw [hvalue, hcr, htask]
    rcases hinv.woken with h0 | h0 | ⟨t, ht, hloop, hrun⟩
    · exact .inl h0
    · exact absurd h0 hne
    · by_cases hv : a.value s = 0
      · exact .inl hv
      · refine .inr ⟨by have := hinv.units; omega, t, ht, fun hm => ?_, hloop, hrun⟩
        have hb := ((hw.waitMem s hs t).mp hm).2.1
        rw [hb] at hrun
        rcases hrun with h | h <;> cases h
  · have hr := hord.ready t
    have hwt := hord.waiting s hs t
    by_cases hready : (kl.task t).status = .ready
    · refine .inr ⟨hready, hr.mpr ⟨ht, hready⟩, fun hm => ?_⟩
      have := (hwt.mp hm).2.1
      rw [hready] at this; cases this
    · -- a thread that is neither stopped in `thread_block` called by `sema_down`
      have hok := (hw.tasks t (hcr ▸ ht)).stopped
      rw [← htask] at hok
      rcases (hok hrun hready).2 with hpc | ⟨hb, hloop⟩
      · rcases hin with h | ⟨o, h⟩ <;> rw [hpc] at h <;> cases h
      · refine .inl ⟨hb, hwt.mpr ⟨ht, hb, ?_⟩, fun hm => hready (hr.mp hm).2⟩
        rcases hin with h | h
        · rw [h] at hloop; cases hloop
        · exact h

/-- Two threads wait for the unit the main thread gives back: one is woken, one still waits. -/
def oneWoken : List Op :=
  [.call (.semaDown 0), .go, .call (.threadStart (some 0xc0101000) 5), .call .threadYield, .go, .call (.semaDown 0), .go, .go,
    .call (.threadStart (some 0xc0102000) 5), .call .threadYield, .go, .call (.semaDown 0), .go, .go, .call (.semaUp 0), .go]

theorem oneWoken_runs : Runs {.free 0} (fun value _ => value (.free 0) ≤ 1) (fun _ _ => True) (after oneWoken) :=
  after_runs (by decide) (by decide +kernel)

example : (after oneWoken).value (.free 0) = 1 ∧ ((after oneWoken).task 0xc0101000).status = .ready ∧
    ((after oneWoken).task 0xc0102000).status = .blocked := by decide +kernel

/-- `runs_awake` there. -/
theorem oneWoken_awake : ∃ ts, InOrder {.free 0} ∅ (after oneWoken) ts ∧
    (ts (.waiters (.free 0)) ≠ [] → (after oneWoken).value (.free 0) = 0 ∨ (after oneWoken).value (.free 0) = 1 ∧
      ∃ t ∈ (after oneWoken).created, t ∉ ts (.waiters (.free 0)) ∧
        (∃ old, ((after oneWoken).task t).pc = .semaLoop (.free 0) old) ∧
        (((after oneWoken).task t).status = .running ∨ ((after oneWoken).task t).status = .ready)) ∧
    ∀ t ∈ (after oneWoken).created, ((after oneWoken).task t).inDown (.free 0) →
      ((after oneWoken).task t).status ≠ .running →
      (((after oneWoken).task t).status = .blocked ∧ t ∈ ts (.waiters (.free 0)) ∧ t ∉ ts .ready) ∨
      (((after oneWoken).task t).status = .ready ∧ t ∈ ts .ready ∧ t ∉ ts (.waiters (.free 0))) :=
  runs_awake rfl oneWoken_runs

end TinyOs.Thread
