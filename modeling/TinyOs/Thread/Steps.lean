/-
  TinyOs.Thread.Steps — what each function of the scheduler does in a kernel whose
  queues are in order, and the queue invariant over runs.
-/

import TinyOs.Thread.Queues

namespace TinyOs.Thread

open TinyOs.Kernel TinyOs.Logic

variable {I : Set Sema} {P : Set Tid} {k : Kernel Queues}

/-! ## The functions -/

/-- The unit of semaphore `s` taken, back in the caller of `sema_down`. -/
def took (s : Sema) (old : Bool) (k : Kernel Queues) : Kernel Queues :=
  ({ k.setValue s 0 with intr := old }).setPc (afterDown s)

/-- The unit of semaphore `s` given back, and `sema_up` left. -/
def gave (s : Sema) (k : Kernel Queues) : Kernel Queues := (k.setValue s 1).setPc .run

/-- A tick counted, interrupts off. -/
def counted (k : Kernel Queues) : Kernel Queues :=
  { ({ k with intr := false }).setTask k.cur fun x => { x with elapsedTicks := (x.elapsedTicks + 1) % 2 ^ 32 } with
    ticks := (k.ticks + 1) % 2 ^ 32 }

/-- A tick off the running thread's slice. -/
def ticked (k : Kernel Queues) : Kernel Queues :=
  { (counted k).setTask k.cur fun x => { x with ticks := x.ticks - 1 } with intr := true }

theorem threadYield_eq (h : Wf I P (some k.cur) k) :
    threadYield k = switchToFirst (.setStatus k.intr) (requeue false { k with intr := false }) := by
  have hc := h.cur_not_ready
  simp [threadYield, hc, schedule, requeueRunning, requeue]

theorem threadBlock_eq {stat : TaskStatus} (hs : stat.nonRunnable = true) :
    threadBlock stat k = switchToFirst (.setStatus k.intr) (stop stat k) := by
  have := (nonRunnable_ne hs).1
  simp [threadBlock, hs, schedule, requeueRunning, stop, this]

theorem semaDownLoop_block (h : Wf I P (some k.cur) k) {s : Sema} (hs : s ∈ I) (hi : k.intr = false)
    (hv : k.value s = 0) (old : Bool) :
    semaDownLoop s old k = switchToFirst (.setStatus false) (stopOn s old k) := by
  have hc := h.cur_not_waiting hs
  have hb : TaskStatus.nonRunnable .blocked = true := rfl
  simp only [semaDownLoop, hv, if_true, queues_find, ok_bind, hc, decide_false, Bool.not_false, assert_true, queues_append,
    threadBlock_eq hb]
  simp [stopOn, Kernel.setPc, hi]

theorem semaDownLoop_take {s : Sema} (hv : k.value s = 1) (old : Bool) :
    semaDownLoop s old k = .ok (took s old k) := by
  simp [semaDownLoop, hv, took, Kernel.setValue]

theorem semaDownLoop_panic {s : Sema} (hv : 1 < k.value s) (old : Bool) :
    semaDownLoop s old k = .error (.assert .semaDownValue) := by
  have h0 : k.value s ≠ 0 := by omega
  have h1 : ¬ k.value s - 1 = 0 := by omega
  simp [semaDownLoop, h0, Kernel.setValue, h1]

theorem wakeUp_eq {t : Tid} (hst : (k.task t).status ≠ .ready) (hnr : t ∉ k.queues .ready) :
    wakeUp t k = .ok (unblocked t k) := by
  simp [wakeUp, hst, hnr, unblocked, Kernel.setTask]

/-- A thread that is ready by then is left alone. -/
theorem wakeUp_ready {t : Tid} (hst : (k.task t).status = .ready) : wakeUp t k = .ok k := by
  simp [wakeUp, hst]

theorem wakeUp_ok {t : Tid} {k' : Kernel Queues} (hk : wakeUp t k = .ok k') :
    (k.task t).status = .ready ∧ k' = k ∨ (k.task t).status ≠ .ready ∧ k' = unblocked t k := by
  by_cases hst : (k.task t).status = .ready
  · rw [wakeUp_ready hst] at hk
    exact .inl ⟨hst, (Except.ok.inj hk).symm⟩
  · by_cases hnr : t ∈ k.queues .ready
    · simp [wakeUp, hst, hnr] at hk
    · rw [wakeUp_eq hst hnr] at hk
      exact .inr ⟨hst, (Except.ok.inj hk).symm⟩

theorem threadUnblock_eq {t : Tid} (hst : (k.task t).status.nonRunnable = true) (hnr : t ∉ k.queues .ready) :
    threadUnblock t k = .ok (unblocked t k) := by
  simp [threadUnblock, hst, wakeUp_eq (nonRunnable_ne hst).2 hnr]

theorem semaUp_panic {s : Sema} (hv : k.value s ≠ 0) : semaUp s k = .error (.assert .semaUpZero) := by
  simp [semaUp, hv]

theorem semaUp_nil {s : Sema} (hv : k.value s = 0) (hq : k.queues (.waiters s) = []) :
    semaUp s k = .ok (gave s k) := by
  simp [semaUp, hv, hq, gave, Kernel.setValue, Kernel.setPc]

theorem semaUp_cons {s : Sema} {t : Tid} {ts : List Tid} (hv : k.value s = 0)
    (hq : k.queues (.waiters s) = t :: ts) (hst : (k.task t).status.nonRunnable = true) (hnr : t ∉ k.queues .ready) :
    semaUp s k = .ok (gave s (unblocked t { k with queues := Function.update k.queues (.waiters s) ts })) := by
  have hun : threadUnblock t { k with intr := false, queues := Function.update k.queues (.waiters s) ts }
      = .ok (unblocked t { k with intr := false, queues := Function.update k.queues (.waiters s) ts }) :=
    threadUnblock_eq hst (by simpa using hnr)
  simp only [semaUp, hv, decide_true, assert_true, ok_bind, queues_isEmpty, hq, List.isEmpty_cons, Bool.not_false,
    if_true, queues_pop hq, hun]
  simp [gave, unblocked, Kernel.setValue, Kernel.setPc, Kernel.setTask, hv]

theorem intrTimerHandler_tick (h : Wf I P (some k.cur) k) (ht : (k.task k.cur).ticks ≠ 0) :
    intrTimerHandler k = .ok (ticked k) := by
  have hm := (h.tasks k.cur h.curCreated).magic
  simp [intrTimerHandler, hm, ht, ticked, counted]

theorem intrTimerHandler_switch (h : Wf I P (some k.cur) k) (ht : (k.task k.cur).ticks = 0) :
    intrTimerHandler k = switchToFirst .intrExit (requeue true (counted k)) := by
  have hm := (h.tasks k.cur h.curCreated).magic
  have hrun := h.cur_running
  have hc := h.cur_not_ready
  have e : intrTimerHandler k = schedule .intrExit (counted k) := by
    simp [intrTimerHandler, hm, ht, counted]
  rw [e]
  exact schedule_running rfl (by simpa [counted] using hrun) hc

theorem threadStart_eq (h : Wf I P (some k.cur) k) {t : Tid} (ht : t ∉ k.created) (prio : Nat) :
    threadStart (some t) prio k = .ok (started t prio k) := by
  have htr : t ∉ k.queues .ready := fun hm => ht ((h.readyMem t).mp hm).1
  have hta : t ∉ k.queues .all := fun hm => ht ((h.allMem t).mp hm).1
  simp [threadStart, threadCreate, initThread, htr, hta, started]

/-! ## What a call did -/

theorem switchToFirst_ok {r : Resume} {k' : Kernel Queues} (hk : switchToFirst r k = .ok k') :
    ∃ n rest, k.queues .ready = n :: rest ∧ k' = switchTo r n rest k := by
  cases hq : k.queues .ready with
  | nil => rw [switchToFirst_nil hq] at hk; cases hk
  | cons n rest =>
    rw [switchToFirst_cons hq] at hk
    exact ⟨n, rest, rfl, (Except.ok.inj hk).symm⟩

theorem semaDownLoop_ok (h : Wf I P (some k.cur) k) (hi : k.intr = false) {s : Sema} (hs : s ∈ I) {old : Bool}
    {k' : Kernel Queues} (hk : semaDownLoop s old k = .ok k') :
    k.value s = 0 ∧ switchToFirst (.setStatus false) (stopOn s old k) = .ok k' ∨ k.value s = 1 ∧ k' = took s old k := by
  rcases Nat.lt_trichotomy (k.value s) 1 with hv | hv | hv
  · have hv : k.value s = 0 := by omega
    rw [semaDownLoop_block h hs hi hv] at hk
    exact .inl ⟨hv, hk⟩
  · rw [semaDownLoop_take hv] at hk
    exact .inr ⟨hv, (Except.ok.inj hk).symm⟩
  · rw [semaDownLoop_panic hv] at hk; cases hk

theorem Wf.not_ready (h : Wf I P (some k.cur) k) {t : Tid} (hs : (k.task t).status ≠ .ready) :
    t ∉ k.queues .ready := fun hm => hs ((h.readyMem t).mp hm).2

theorem threadBlock_ok {stat : TaskStatus} {k' : Kernel Queues} (hk : threadBlock stat k = .ok k') :
    stat.nonRunnable = true ∧ switchToFirst (.setStatus k.intr) (stop stat k) = .ok k' := by
  cases hs : stat.nonRunnable with
  | false => simp [threadBlock, hs] at hk
  | true => exact ⟨rfl, (threadBlock_eq hs).symm.trans hk⟩

/-- The first part of `thread_unblock`: its ASSERT. -/
theorem enterUnblock_ok {t : Tid} {k' : Kernel Queues} (hk : enter k (.threadUnblock t) = .ok k') : k' = k.setPc (.unblock t) := by
  obtain ⟨-, -, hk⟩ := bind_ok_iff.mp hk
  exact (Except.ok.inj hk).symm

/-- Its second part. -/
theorem execUnblock_ok {t : Tid} {k' : Kernel Queues} (hk : exec k (.unblock t) = .ok k') :
    (k.task t).status = .ready ∧ k' = k.setPc .run ∨ (k.task t).status ≠ .ready ∧ k' = (unblocked t k).setPc .run := by
  obtain ⟨k1, hw, hk⟩ := bind_ok_iff.mp hk
  cases hk
  rcases wakeUp_ok hw with ⟨hst, rfl⟩ | ⟨hst, rfl⟩
  · exact .inl ⟨hst, rfl⟩
  · exact .inr ⟨hst, rfl⟩

/-- What is known of the thread that the second part of `thread_unblock` is for: it is
    ready by then, or still stopped where it stopped itself. -/
structure Wakeable (k : Kernel Queues) (t : Tid) : Prop where
  created : t ∈ k.created
  other : t ≠ k.cur
  stopped : (k.task t).status ≠ .ready → (k.task t).status.nonRunnable = true ∧ (k.task t).pc = .run

theorem wakeable_of_fresh (h : Wf I P (some k.cur) k) {t : Tid} (hr : (k.task k.cur).resume = none)
    (hpc : (k.task k.cur).pc = .unblock t) (hf : Fresh k .go) : Wakeable k t := by
  have hok := (h.tasks k.cur h.curCreated).pc
  rw [hpc] at hok
  obtain ⟨ht, hne⟩ := hok
  have hfresh := hf ⟨rfl, hr⟩ t (by rw [hpc]; rfl)
  refine ⟨ht, hne, fun hready => ?_⟩
  have hrun : (k.task t).status ≠ .running := fun e => hne (Option.some.inj ((h.running t ht).mp e)).symm
  obtain ⟨hst, hpt⟩ := (h.tasks t ht).stopped hrun hready
  exact ⟨hst, hpt.resolve_right hfresh⟩

/-- The push of a thread that stopped itself. -/
theorem unblocked_run_wf (h : Wf I P (some k.cur) k) {t : Tid} (ht : Wakeable k t) (hs : (k.task t).status ≠ .ready) :
    Wf I P (some k.cur) (unblocked t k) := by
  have hpt := (ht.stopped hs).2
  refine unblocked_wf h ht.created ht.other hs rfl rfl
    (fun s hs' => ⟨h.waitNodup s hs', fun u => ⟨fun hu => ⟨hu, ?_⟩, And.left⟩⟩)
  intro e
  subst e
  obtain ⟨-, -, old, hp⟩ := (h.waitMem s hs' u).mp hu
  rw [hpt] at hp; cases hp

theorem threadStart_ok (h : Wf I P (some k.cur) k) {t : Tid} (ht : t ∉ k.created) {prio : Nat} {k' : Kernel Queues}
    (hk : threadStart (some t) prio k = .ok k') : k' = started t prio k := by
  rw [threadStart_eq h ht prio] at hk
  exact (Except.ok.inj hk).symm

theorem intrTimerHandler_ok (h : Wf I P (some k.cur) k) {k' : Kernel Queues} (hk : intrTimerHandler k = .ok k') :
    (k.task k.cur).ticks = 0 ∧ switchToFirst .intrExit (requeue true (counted k)) = .ok k' ∨
      (k.task k.cur).ticks ≠ 0 ∧ k' = ticked k := by
  by_cases ht : (k.task k.cur).ticks = 0
  · rw [intrTimerHandler_switch h ht] at hk
    exact .inl ⟨ht, hk⟩
  · rw [intrTimerHandler_tick h ht] at hk
    exact .inr ⟨ht, (Except.ok.inj hk).symm⟩

/-! ## The invariant along a step -/

/-- Taking a thread off the CPU and dispatching the first ready one. -/
theorem dispatch_wf (h : Wf I P none k) (hi : k.intr = false) {r : Resume}
    (hr : (k.task k.cur).pc.isLoop → r = .setStatus false) {k' : Kernel Queues} (hk : switchToFirst r k = .ok k') :
    Wf I P (some k'.cur) k' ∧ ∃ n rest, k.queues .ready = n :: rest ∧ k' = switchTo r n rest k := by
  obtain ⟨n, rest, hq, rfl⟩ := switchToFirst_ok hk
  exact ⟨switchTo_wf h hi hr hq, n, rest, hq, rfl⟩

theorem intrOff_wf (h : Wf I P (some k.cur) k) : Wf I P (some k.cur) { k with intr := false } :=
  h.congr ⟨rfl, rfl, rfl, by simp⟩ rfl (.inr rfl) rfl rfl rfl rfl

theorem counted_wf (h : Wf I P (some k.cur) k) : Wf I P (some k.cur) (counted k) :=
  h.congr ⟨rfl, rfl, rfl, rfl⟩ rfl (.inr rfl) rfl rfl rfl rfl

/-- Where `sema_down` returns to is in no loop, and uses the same semaphore. -/
theorem afterDown_isLoop (s : Sema) : (afterDown s).isLoop = false := by cases s <;> rfl

theorem afterDown_sema {s s' : Sema} (h : (afterDown s).sema = some s') : s' = s := by
  cases s <;> simp_all [afterDown, Pc.sema]

theorem semaDownLoop_wf (h : Wf I P (some k.cur) k) (hi : k.intr = false) (hr : (k.task k.cur).resume = none)
    {s : Sema} (hs : s ∈ I) {old : Bool} {k' : Kernel Queues} (hk : semaDownLoop s old k = .ok k') :
    Wf I P (some k'.cur) k' := by
  rcases semaDownLoop_ok h hi hs hk with ⟨-, hk⟩ | ⟨-, rfl⟩
  · exact (dispatch_wf (stopOn_wf h hs old hr) rfl (fun _ => rfl) hk).1
  · exact h.advance ⟨rfl, rfl, rfl, rfl⟩ rfl rfl rfl hr (afterDown_isLoop s) (by cases s; exacts [trivial, hs])

theorem gave_wf {k : Kernel Queues} (h : Wf I P (some k.cur) k) (hr : (k.task k.cur).resume = none) (s : Sema) :
    Wf I P (some (gave s k).cur) (gave s k) :=
  h.advance ⟨rfl, rfl, rfl, rfl⟩ rfl rfl rfl hr rfl trivial

/-- The first waiter of `s`, taken off the list. -/
theorem woken_wf (h : Wf I P (some k.cur) k) {s : Sema} (hs : s ∈ I) {t : Tid} {ts : List Tid}
    (hq : k.queues (.waiters s) = t :: ts) :
    t ∈ k.created ∧ (k.task t).status = .blocked ∧ t ∉ k.queues .ready ∧
      Wf I P (some k.cur) (unblocked t { k with queues := Function.update k.queues (.waiters s) ts }) := by
  have hm := (h.waitMem s hs t).mp (by simp [hq])
  have hnd : t ∉ ts ∧ ts.Nodup := by simpa [hq] using h.waitNodup s hs
  have hnr : t ∉ k.queues .ready := fun hr => by
    have := ((h.readyMem t).mp hr).2
    rw [hm.2.1] at this; cases this
  have hne : t ≠ k.cur := fun e => h.cur_not_waiting hs (by simp [hq, e])
  refine ⟨hm.1, hm.2.1, hnr, unblocked_wf h hm.1 hne (by simp [hm.2.1]) (by simp) (by simp) (fun s' hs' => ?_)⟩
  by_cases e : s' = s
  · subst e
    simp only [Function.update_self, hq]
    refine ⟨hnd.2, fun u => ⟨fun hu => ⟨List.mem_cons_of_mem _ hu, fun e => hnd.1 (e ▸ hu)⟩, fun hu => ?_⟩⟩
    exact (List.mem_cons.mp hu.1).resolve_left hu.2
  · rw [Function.update_of_ne (by simpa using e)]
    refine ⟨h.waitNodup s' hs', fun u => ⟨fun hu => ⟨hu, ?_⟩, And.left⟩⟩
    -- a thread waits for one semaphore only
    intro e
    subst e
    obtain ⟨-, -, old, h1⟩ := hm
    obtain ⟨-, -, old', h2⟩ := (h.waitMem s' hs' u).mp hu
    rw [h1] at h2; injection h2 with h2; exact e h2.symm

theorem semaUp_ok (h : Wf I P (some k.cur) k) {s : Sema} (hs : s ∈ I) {k' : Kernel Queues} (hk : semaUp s k = .ok k') :
    k.value s = 0 ∧ (k.queues (.waiters s) = [] ∧ k' = gave s k ∨
      ∃ t ts, k.queues (.waiters s) = t :: ts ∧ t ≠ k.cur ∧
        k' = gave s (unblocked t { k with queues := Function.update k.queues (.waiters s) ts })) := by
  by_cases hv : k.value s = 0
  · refine ⟨hv, ?_⟩
    cases hq : k.queues (.waiters s) with
    | nil =>
      rw [semaUp_nil hv hq] at hk
      exact .inl ⟨rfl, (Except.ok.inj hk).symm⟩
    | cons t ts =>
      obtain ⟨-, hst, hnr, -⟩ := woken_wf h hs hq
      have hne : t ≠ k.cur := fun e => by
        have := h.cur_running
        rw [← e, hst] at this; cases this
      rw [semaUp_cons hv hq (by rw [hst]; rfl) hnr] at hk
      exact .inr ⟨t, ts, rfl, hne, (Except.ok.inj hk).symm⟩
  · rw [semaUp_panic hv] at hk; cases hk

theorem semaUp_wf (h : Wf I P (some k.cur) k) (hr : (k.task k.cur).resume = none) {s : Sema} (hs : s ∈ I)
    {k' : Kernel Queues} (hk : semaUp s k = .ok k') : Wf I P (some k'.cur) k' := by
  obtain ⟨-, ⟨-, rfl⟩ | ⟨t, ts, hq, hne, rfl⟩⟩ := semaUp_ok h hs hk
  · exact gave_wf h hr s
  · obtain ⟨-, -, -, hw⟩ := woken_wf h hs hq
    have hc : (unblocked t { k with queues := Function.update k.queues (.waiters s) ts }).cur = k.cur := rfl
    refine gave_wf (hc ▸ hw) ?_ s
    simpa [unblocked, setTask_task, hne.symm] using hr

/-- A statement of the running thread's own, which leaves the queues alone. -/
theorem Wf.goto {k k' : Kernel Queues} (h : Wf I P (some k.cur) k) (hr : (k.task k.cur).resume = none) {x : Task}
    (u : Upd k k' k.cur x) (hq : k'.queues = k.queues) (hx : x.status = (k.task k.cur).status ∧
      x.stackMagic = (k.task k.cur).stackMagic ∧ x.resume = (k.task k.cur).resume) (hl : x.pc.isLoop = false)
    (hs : x.pc.Ok I k.created k.cur) : Wf I P (some k'.cur) k' :=
  h.advance u hq hx.1 hx.2.1 (hx.2.2.trans hr) hl hs

theorem exec_wf (h : Wf I P (some k.cur) k) (hr : (k.task k.cur).resume = none) {k' : Kernel Queues}
    (hf : Fresh k .go) (hk : exec k (k.task k.cur).pc = .ok k') : Wf I P (some k'.cur) k' := by
  have hsema := (h.tasks k.cur h.curCreated).pc
  have hupd : ∀ (k1 : Kernel Queues) (pc : Pc), k1.cur = k.cur → k1.mainThread = k.mainThread → k1.created = k.created →
      k1.task = k.task → Upd k (k1.setPc pc) k.cur { k.task k.cur with pc := pc } := fun k1 pc h1 h2 h3 h4 =>
    ⟨h1, h2, h3, by simp [Kernel.setPc, Kernel.setTask, h1, h4]⟩
  have hdep : ∀ (k1 : Kernel Queues) (pc : Pc) (l : LockId) (f : Nat → Nat), k1.cur = k.cur →
      k1.mainThread = k.mainThread → k1.created = k.created → k1.task = k.task →
      Upd k ((k1.setTask k1.cur (bumpDepth l f)).setPc pc) k.cur { bumpDepth l f (k.task k.cur) with pc := pc } :=
    fun k1 pc l f h1 h2 h3 h4 => ⟨h1, h2, h3, by simp [Kernel.setPc, Kernel.setTask, h1, h4]⟩
  cases hpc : (k.task k.cur).pc with
  | run => rw [hpc] at hk; cases hk; exact h
  | unblock t =>
    have ht := wakeable_of_fresh h hr hpc hf
    rw [hpc] at hk
    rcases execUnblock_ok hk with ⟨-, rfl⟩ | ⟨hs, rfl⟩
    · exact h.goto hr (hupd k _ rfl rfl rfl rfl) rfl ⟨rfl, rfl, rfl⟩ rfl trivial
    · have h1 : Wf I P (some (unblocked t k).cur) (unblocked t k) := unblocked_run_wf h ht hs
      have hcur : (unblocked t k).task k.cur = k.task k.cur := by simp [unblocked, setTask_task, Ne.symm ht.other]
      have u : Upd (unblocked t k) ((unblocked t k).setPc .run) k.cur { k.task k.cur with pc := .run } :=
        ⟨rfl, rfl, rfl, by rw [← hcur]; rfl⟩
      refine h1.goto (by rw [← hr]; exact congrArg Task.resume hcur) u rfl ?_ rfl trivial
      rw [show (unblocked t k).task (unblocked t k).cur = _ from hcur]
      exact ⟨rfl, rfl, rfl⟩
  | semaDown s =>
    rw [hpc] at hk hsema
    have h0 : Wf I P (some k.cur) { k with intr := false } := intrOff_wf h
    exact @semaDownLoop_wf I P { k with intr := false } h0 rfl hr s hsema k.intr k' hk
  | semaLoop s old =>
    rw [hpc] at hk hsema
    exact semaDownLoop_wf h (h.intrOff (.inr (by rw [hpc]; rfl))) hr hsema hk
  | semaUp s =>
    rw [hpc] at hk hsema
    exact semaUp_wf h hr hsema hk
  | acqTest l =>
    rw [hpc] at hk hsema
    cases hk
    refine h.goto hr (hupd k _ rfl rfl rfl rfl) rfl ⟨rfl, rfl, rfl⟩ ?_ ?_
    · split <;> rfl
    · split <;> exact hsema
  | acqHolder l =>
    rw [hpc] at hk hsema
    cases hk
    exact h.goto hr (hupd (k.setLock l _) _ rfl rfl rfl rfl) rfl ⟨rfl, rfl, rfl⟩ rfl hsema
  | acqAssert l =>
    rw [hpc] at hk hsema
    obtain ⟨-, -, hk⟩ := bind_ok_iff.mp hk
    cases hk
    exact h.goto hr (hupd k _ rfl rfl rfl rfl) rfl ⟨rfl, rfl, rfl⟩ rfl hsema
  | acqNr l =>
    rw [hpc] at hk
    cases hk
    exact h.goto hr (hdep (k.setLock l _) _ l _ rfl rfl rfl rfl) rfl ⟨rfl, rfl, rfl⟩ rfl trivial
  | acqInc l =>
    rw [hpc] at hk hsema
    cases hk
    exact h.goto hr (hupd k _ rfl rfl rfl rfl) rfl ⟨rfl, rfl, rfl⟩ rfl hsema
  | acqIncStore l nr =>
    rw [hpc] at hk
    cases hk
    exact h.goto hr (hdep (k.setLock l _) _ l _ rfl rfl rfl rfl) rfl ⟨rfl, rfl, rfl⟩ rfl trivial
  | relAssert l =>
    rw [hpc] at hk hsema
    obtain ⟨-, -, hk⟩ := bind_ok_iff.mp hk
    cases hk
    exact h.goto hr (hupd k _ rfl rfl rfl rfl) rfl ⟨rfl, rfl, rfl⟩ rfl hsema
  | relTest l =>
    rw [hpc] at hk hsema
    cases hk
    refine h.goto hr (hupd k _ rfl rfl rfl rfl) rfl ⟨rfl, rfl, rfl⟩ ?_ ?_
    · split <;> rfl
    · split <;> exact hsema
  | relDec l =>
    rw [hpc] at hk hsema
    cases hk
    exact h.goto hr (hupd k _ rfl rfl rfl rfl) rfl ⟨rfl, rfl, rfl⟩ rfl hsema
  | relDecStore l nr =>
    rw [hpc] at hk
    cases hk
    exact h.goto hr (hdep (k.setLock l _) _ l _ rfl rfl rfl rfl) rfl ⟨rfl, rfl, rfl⟩ rfl trivial
  | relAssertOne l =>
    rw [hpc] at hk hsema
    obtain ⟨-, -, hk⟩ := bind_ok_iff.mp hk
    cases hk
    exact h.goto hr (hupd k _ rfl rfl rfl rfl) rfl ⟨rfl, rfl, rfl⟩ rfl hsema
  | relClear l =>
    rw [hpc] at hk hsema
    cases hk
    exact h.goto hr (hdep (k.setLock l _) _ l _ rfl rfl rfl rfl) rfl ⟨rfl, rfl, rfl⟩ rfl hsema
  | relZero l =>
    rw [hpc] at hk hsema
    cases hk
    exact h.goto hr (hupd (k.setLock l _) _ rfl rfl rfl rfl) rfl ⟨rfl, rfl, rfl⟩ rfl hsema

theorem enter_wf (h : Wf I P (some k.cur) k) (hP : ∀ t ∈ P, t ∈ k.created) {c : Call} (hl : Legal I k (.call c))
    {k' : Kernel Queues} (hk : enter k c = .ok k') : Wf I P (some k'.cur) k' := by
  obtain ⟨⟨hr, hpc, hl⟩, -⟩ := hl
  have hflag : ∀ b, Wf I P (some k.cur) { k with intr := b } := fun b => by
    have u : Upd k { k with intr := b } k.cur (k.task k.cur) := ⟨rfl, rfl, rfl, by simp⟩
    exact h.goto hr u rfl ⟨rfl, rfl, rfl⟩ (by rw [hpc]; rfl) (by rw [hpc]; trivial)
  have hpcTo : ∀ pc : Pc, pc.isLoop = false → pc.Ok I k.created k.cur → Wf I P (some k.cur) (k.setPc pc) :=
    fun pc h1 h2 => by
      have u : Upd k (k.setPc pc) k.cur { k.task k.cur with pc := pc } := ⟨rfl, rfl, rfl, rfl⟩
      exact h.goto hr u rfl ⟨rfl, rfl, rfl⟩ h1 h2
  cases c with
  | intrEnable => cases hk; exact hflag true
  | intrDisable => cases hk; exact hflag false
  | threadStart page prio =>
    cases page with
    | none => cases hk
    | some t =>
      have ht : t ∉ k.created := hl
      rw [threadStart_ok h ht hk]
      exact started_wf h ht (fun hp => ht (hP t hp)) prio
  | threadYield =>
    have hk : threadYield k = .ok k' := hk
    rw [threadYield_eq h] at hk
    exact (dispatch_wf (requeue_wf (intrOff_wf h) false) rfl (fun hl => by simp [requeue, hpc, Pc.isLoop] at hl) hk).1
  | threadBlock stat =>
    obtain ⟨hs, hk⟩ := threadBlock_ok hk
    exact (dispatch_wf (stop_wf h hs hpc) rfl (fun hl => by simp [stop, hpc, Pc.isLoop] at hl) hk).1
  | threadUnblock t =>
    obtain ⟨ht, hs, -⟩ := hl
    rw [enterUnblock_ok hk]
    exact hpcTo _ rfl ⟨ht, fun e => (nonRunnable_ne hs).1 (e ▸ h.cur_running)⟩
  | semaDown n => cases hk; exact hpcTo _ rfl hl
  | semaUp n => cases hk; exact hpcTo _ rfl hl
  | lockAcquire l => cases hk; exact hpcTo _ rfl hl.1
  | lockRelease l => cases hk; exact hpcTo _ rfl hl.1

theorem step_wf (h : Wf I P (some k.cur) k) (hP : ∀ t ∈ P, t ∈ k.created) {op : Op} (hl : Legal I k op)
    {k' : Kernel Queues} (hk : step k op = .ok k') : Wf I P (some k'.cur) k' := by
  cases op with
  | timer =>
    have hl : k.intr = true := hl.1
    -- interrupts are on, so the running thread has been resumed and is not in the loop
    have hoff : ¬ ((k.task k.cur).resume ≠ none ∨ (k.task k.cur).pc.isLoop) := fun ho => by
      have := h.intrOff ho; rw [hl] at this; cases this
    have hr : (k.task k.cur).resume = none := by
      by_contra hn; exact hoff (.inl hn)
    have hloop : (k.task k.cur).pc.isLoop = false := by
      by_contra hn; exact hoff (.inr (by simpa using hn))
    rcases intrTimerHandler_ok h hk with ⟨-, hk⟩ | ⟨-, rfl⟩
    · refine (dispatch_wf (requeue_wf (counted_wf h) true) rfl (fun hl => ?_) hk).1
      simp [requeue, counted, hloop] at hl
    · have u : Upd k (ticked k) k.cur { k.task k.cur with
          elapsedTicks := ((k.task k.cur).elapsedTicks + 1) % 2 ^ 32, ticks := (k.task k.cur).ticks - 1 } :=
        ⟨rfl, rfl, rfl, by simp [ticked, counted, Kernel.setTask]⟩
      exact h.goto hr u rfl ⟨rfl, rfl, rfl⟩ hloop (h.tasks k.cur h.curCreated).pc
  | go =>
    cases hr : (k.task k.cur).resume with
    | none => rw [step_go_exec hr] at hk; exact exec_wf h hr hl.2 hk
    | some r => rw [step_go_resume hr] at hk; cases hk; exact resumeWith_wf h hr
  | call c => exact enter_wf h hP hl hk

end TinyOs.Thread
