/-
  TinyOs.Thread.Queues — the scheduler's queues, as sequences of tasks.
-/

import TinyOs.Thread.Sync

namespace TinyOs.Thread

open TinyOs.Kernel TinyOs.Logic

/-! ## What each function does to the sequences -/

@[simp] theorem queues_isEmpty (q : Queues) (i : Qid) : QueueStore.isEmpty q i = (q i).isEmpty := rfl
@[simp] theorem queues_find (n : Nat) (q : Queues) (i : Qid) (t : Tid) :
    QueueStore.find n q i t = .ok (decide (t ∈ q i)) := rfl
@[simp] theorem queues_append (q : Queues) (i : Qid) (t : Tid) :
    QueueStore.append q i t = Function.update q i (q i ++ [t]) := rfl
@[simp] theorem queues_push (q : Queues) (i : Qid) (t : Tid) :
    QueueStore.push q i t = Function.update q i (t :: q i) := rfl
@[simp] theorem queues_zeroTags (q : Queues) (t : Tid) : QueueStore.zeroTags q t = q := rfl
@[simp] theorem queues_init (q : Queues) (i : Qid) : QueueStore.init q i = Function.update q i [] := rfl
theorem queues_pop {q : Queues} {i : Qid} {t : Tid} {ts : List Tid} (h : q i = t :: ts) :
    QueueStore.pop q i = .ok (t, Function.update q i ts) := by
  simp only [QueueStore.pop, h]

theorem queues_pop_nil {q : Queues} {i : Qid} (h : q i = []) : QueueStore.pop q i = .error .fault := by
  simp only [QueueStore.pop, h]

/-! ## A step of the running thread -/

theorem step_go_resume {σ : Type} [QueueStore σ] {k : Kernel σ} {r : Resume} (h : (k.task k.cur).resume = some r) :
    step k .go = .ok (resumeWith r k) := by
  simp only [step, h]

theorem step_go_exec {σ : Type} [QueueStore σ] {k : Kernel σ} (h : (k.task k.cur).resume = none) :
    step k .go = exec k (k.task k.cur).pc := by
  simp only [step, h]

/-! `Fresh` only asks something of a `thread_unblock` that goes on. -/

theorem fresh_call {σ : Type} (k : Kernel σ) (c : Call) : Fresh k (.call c) := fun h => Op.noConfusion h.1

theorem fresh_go {σ : Type} {k : Kernel σ} (h : (k.task k.cur).pc.target = none) : Fresh k .go := fun _ t ht => by
  rw [h] at ht; cases ht

/-! ## Fields that an update leaves -/

@[simp] theorem setTask_cur {σ : Type} (k : Kernel σ) (t : Tid) (f : Task → Task) : (k.setTask t f).cur = k.cur := rfl
@[simp] theorem setTask_queues {σ : Type} (k : Kernel σ) (t : Tid) (f : Task → Task) :
    (k.setTask t f).queues = k.queues := rfl
@[simp] theorem setTask_created {σ : Type} (k : Kernel σ) (t : Tid) (f : Task → Task) :
    (k.setTask t f).created = k.created := rfl
@[simp] theorem setTask_intr {σ : Type} (k : Kernel σ) (t : Tid) (f : Task → Task) : (k.setTask t f).intr = k.intr := rfl
@[simp] theorem setTask_value {σ : Type} (k : Kernel σ) (t : Tid) (f : Task → Task) : (k.setTask t f).value = k.value := rfl
@[simp] theorem setTask_lock {σ : Type} (k : Kernel σ) (t : Tid) (f : Task → Task) : (k.setTask t f).lock = k.lock := rfl
@[simp] theorem setTask_mainThread {σ : Type} (k : Kernel σ) (t : Tid) (f : Task → Task) :
    (k.setTask t f).mainThread = k.mainThread := rfl
@[simp] theorem setTask_ticks {σ : Type} (k : Kernel σ) (t : Tid) (f : Task → Task) : (k.setTask t f).ticks = k.ticks := rfl
theorem setTask_task {σ : Type} (k : Kernel σ) (t u : Tid) (f : Task → Task) :
    (k.setTask t f).task u = if u = t then f (k.task t) else k.task u := by
  simp [Kernel.setTask, Function.update_apply]
@[simp] theorem setTask_same {σ : Type} (k : Kernel σ) (t : Tid) (f : Task → Task) :
    (k.setTask t f).task t = f (k.task t) := by simp [setTask_task]

/-! ## Jobs of the threads, each about one page -/

section Jobs

variable {J : Type} {job : Tid → Option J} {c : Tid} {o : Option J}

theorem job_update {w : Tid} {j : J} (h : Function.update job c o w = some j) : w = c ∧ o = some j ∨ w ≠ c ∧ job w = some j := by
  by_cases e : w = c
  · rw [e, Function.update_self] at h
    exact .inl ⟨e, h⟩
  · rw [Function.update_of_ne e] at h
    exact .inr ⟨e, h⟩

/-- No two threads come to have jobs about one page. -/
theorem distinct_update {page : J → Tid} (h : ∀ w w' j j', job w = some j → job w' = some j' → page j = page j' → w = w')
    (hnew : ∀ j', o = some j' → ∀ w j, w ≠ c → job w = some j → page j ≠ page j') (w w' : Tid) (j j' : J)
    (hj : Function.update job c o w = some j) (hj' : Function.update job c o w' = some j') (e : page j = page j') : w = w' := by
  rcases job_update hj with ⟨hw, ho⟩ | ⟨hw, hj⟩ <;> rcases job_update hj' with ⟨hw', ho'⟩ | ⟨hw', hj'⟩
  · exact hw.trans hw'.symm
  · exact absurd e.symm (hnew j ho w' j' hw' hj')
  · exact absurd e (hnew j' ho' w j hw hj)
  · exact h w w' j j' hj hj' e

end Jobs

/-- `switch_to` the first ready task `n`. -/
def switchTo (r : Resume) (n : Tid) (rest : List Tid) (k : Kernel Queues) : Kernel Queues :=
  { (k.setTask k.cur fun x => { x with resume := some r }).setTask n fun x => { x with status := .running } with
    queues := Function.update k.queues .ready rest
    cur := n }

/-- The running thread goes to the tail of the ready list. -/
def requeue (reload : Bool) (k : Kernel Queues) : Kernel Queues :=
  { k.setTask k.cur fun x => { x with ticks := if reload then x.priority else x.ticks, status := .ready } with
    queues := Function.update k.queues .ready (k.queues .ready ++ [k.cur]) }

theorem switchToFirst_nil {r : Resume} {k : Kernel Queues} (hq : k.queues .ready = []) :
    switchToFirst r k = .error (.assert .scheduleReady) := by
  simp [switchToFirst, hq]

theorem switchToFirst_cons {r : Resume} {k : Kernel Queues} {n : Tid} {rest : List Tid}
    (hq : k.queues .ready = n :: rest) : switchToFirst r k = .ok (switchTo r n rest k) := by
  simp [switchToFirst, hq, queues_pop hq, switchTo]

theorem schedule_running {r : Resume} {k : Kernel Queues} (hi : k.intr = false)
    (hs : (k.task k.cur).status = .running) (hc : k.cur ∉ k.queues .ready) :
    schedule r k = switchToFirst r (requeue true k) := by
  simp [schedule, requeueRunning, hi, hs, hc, requeue]

/-! ## The queue invariant -/

def Pc.sema : Pc → Option Sema
  | .run | .unblock _ => none
  | .semaDown s => some s
  | .semaLoop s _ => some s
  | .semaUp s => some s
  | .acqTest l | .acqHolder l | .acqAssert l | .acqNr l | .acqInc l | .acqIncStore l _ => some (.lock l)
  | .relAssert l | .relTest l | .relDec l | .relDecStore l _ | .relAssertOne l | .relClear l | .relZero l =>
    some (.lock l)

/-- The semaphore a program point is about is in use, and the thread a `thread_unblock` is
    for is another one. -/
def Pc.Ok (I : Set Sema) (C : List Tid) (self : Tid) : Pc → Prop
  | .run => True
  | .unblock t => t ∈ C ∧ t ≠ self
  | .semaDown s | .semaLoop s _ | .semaUp s => s ∈ I
  | .acqTest l | .acqHolder l | .acqAssert l | .acqNr l | .acqInc l | .acqIncStore l _ => .lock l ∈ I
  | .relAssert l | .relTest l | .relDec l | .relDecStore l _ | .relAssertOne l | .relClear l | .relZero l => .lock l ∈ I

theorem Pc.Ok.sema {I : Set Sema} {C : List Tid} {self : Tid} {pc : Pc} (h : pc.Ok I C self) : ∀ s, pc.sema = some s → s ∈ I := by
  cases pc <;> simp_all [Pc.Ok, Pc.sema]

theorem Pc.Ok.mono {I : Set Sema} {C C' : List Tid} {self : Tid} {pc : Pc} (h : pc.Ok I C self) (hC : ∀ t ∈ C, t ∈ C') :
    pc.Ok I C' self := by
  cases pc with
  | unblock t => exact ⟨hC t h.1, h.2⟩
  | _ => exact h

/-- Task `t`, of the tasks `C`. -/
structure TaskOk (I : Set Sema) (C : List Tid) (t : Tid) (x : Task) : Prop where
  /-- A thread stops in `thread_block` called by itself or by `sema_down`. -/
  stopped : x.status ≠ .running → x.status ≠ .ready →
    x.status.nonRunnable = true ∧ (x.pc = .run ∨ x.status = .blocked ∧ x.pc.isLoop)
  pc : x.pc.Ok I C t
  /-- `thread_block` inside `sema_down` returns with interrupts off. -/
  loopResume : x.pc.isLoop → x.resume = none ∨ x.resume = some (.setStatus false)
  magic : x.stackMagic = 0x19870916

theorem TaskOk.sema {I : Set Sema} {C : List Tid} {t : Tid} {x : Task} (h : TaskOk I C t x) : ∀ s, x.pc.sema = some s → s ∈ I :=
  h.pc.sema

/-- The queues hold what the statuses say. `run` is the running thread (none between
    taking it off the CPU and `switch_to`); the tasks of `P` are not yet in thread_all_list. -/
structure Wf (I : Set Sema) (P : Set Tid) (run : Option Tid) (k : Kernel Queues) : Prop where
  created : k.created.Nodup
  curCreated : k.cur ∈ k.created
  mainCreated : k.mainThread ∈ k.created
  running : ∀ t ∈ k.created, (k.task t).status = .running ↔ run = some t
  readyMem : ∀ t, t ∈ k.queues .ready ↔ t ∈ k.created ∧ (k.task t).status = .ready
  readyNodup : (k.queues .ready).Nodup
  waitMem : ∀ s ∈ I, ∀ t, t ∈ k.queues (.waiters s) ↔
    t ∈ k.created ∧ (k.task t).status = .blocked ∧ ∃ old, (k.task t).pc = .semaLoop s old
  waitNodup : ∀ s ∈ I, (k.queues (.waiters s)).Nodup
  allMem : ∀ t, t ∈ k.queues .all ↔ t ∈ k.created ∧ t ∉ P
  allNodup : (k.queues .all).Nodup
  tasks : ∀ t ∈ k.created, TaskOk I k.created t (k.task t)
  suspended : ∀ t ∈ k.created, t ≠ k.cur → (k.task t).resume ≠ none
  intrOff : (k.task k.cur).resume ≠ none ∨ (k.task k.cur).pc.isLoop → k.intr = false

variable {I : Set Sema} {P : Set Tid} {k : Kernel Queues}

theorem Wf.cur_running (h : Wf I P (some k.cur) k) : (k.task k.cur).status = .running :=
  (h.running k.cur h.curCreated).mpr rfl

theorem Wf.cur_not_ready (h : Wf I P (some k.cur) k) : k.cur ∉ k.queues .ready := by
  intro hm
  have h1 := ((h.readyMem k.cur).mp hm).2
  rw [h.cur_running] at h1; cases h1

theorem Wf.cur_not_waiting (h : Wf I P (some k.cur) k) {s : Sema} (hs : s ∈ I) : k.cur ∉ k.queues (.waiters s) := by
  intro hm
  have h1 := ((h.waitMem s hs k.cur).mp hm).2.1
  rw [h.cur_running] at h1; cases h1

/-! ## One task changed -/

/-- Only task `t` differs, and is now `x`; queues, locks and flags are free. -/
structure Upd (k k' : Kernel Queues) (t : Tid) (x : Task) : Prop where
  cur : k'.cur = k.cur
  main : k'.mainThread = k.mainThread
  created : k'.created = k.created
  task : k'.task = Function.update k.task t x

theorem Upd.same {k k' : Kernel Queues} {t : Tid} {x : Task} (u : Upd k k' t x) : k'.task t = x := by
  simp [u.task]

theorem Upd.ne {k k' : Kernel Queues} {t v : Tid} {x : Task} (u : Upd k k' t x) (h : v ≠ t) : k'.task v = k.task v := by
  simp [u.task, h]

theorem nodup_snoc {l : List Tid} {t : Tid} (h : l.Nodup) (ht : t ∉ l) : (l ++ [t]).Nodup := by
  rw [List.nodup_append]
  exact ⟨h, by simp, fun a ha b hb e => ht (by rw [← List.mem_singleton.mp hb, ← e]; exact ha)⟩

/-- The invariant is kept when `t` leaves and joins the queues as its new status says. -/
theorem Wf.upd {k k' : Kernel Queues} {run run' : Option Tid} {t : Tid} {x : Task} (h : Wf I P run k)
    (u : Upd k k' t x) (ht : t ∈ k.created) (hx : TaskOk I k.created t x) (hrun : x.status = .running ↔ run' = some t)
    (hrun' : ∀ v, v ≠ t → (run' = some v ↔ run = some v))
    (hready : (k'.queues .ready).Nodup ∧
      ∀ v, v ∈ k'.queues .ready ↔ if v = t then x.status = .ready else v ∈ k.queues .ready)
    (hwait : ∀ s ∈ I, (k'.queues (.waiters s)).Nodup ∧ ∀ v, v ∈ k'.queues (.waiters s) ↔
      if v = t then x.status = .blocked ∧ ∃ old, x.pc = .semaLoop s old else v ∈ k.queues (.waiters s))
    (hall : k'.queues .all = k.queues .all) (hres : t ≠ k.cur → x.resume ≠ none)
    (hintr : (k'.task k'.cur).resume ≠ none ∨ (k'.task k'.cur).pc.isLoop → k'.intr = false) : Wf I P run' k' := by
  refine ⟨u.created ▸ h.created, by rw [u.cur, u.created]; exact h.curCreated,
    by rw [u.main, u.created]; exact h.mainCreated, fun v hv => ?_, fun v => ?_, hready.1,
    fun s hs v => ?_, fun s hs => (hwait s hs).1, fun v => by rw [hall, u.created]; exact h.allMem v,
    hall ▸ h.allNodup, fun v hv => ?_, fun v hv e => ?_, hintr⟩
  · rw [u.created] at hv
    by_cases e : v = t
    · rw [e, u.same]; exact hrun
    · rw [u.ne e, hrun' v e]; exact h.running v hv
  · rw [hready.2 v, u.created]
    by_cases e : v = t
    · rw [if_pos e, e, u.same]; exact ⟨fun hs => ⟨ht, hs⟩, And.right⟩
    · rw [if_neg e, u.ne e]; exact h.readyMem v
  · rw [(hwait s hs).2 v, u.created]
    by_cases e : v = t
    · rw [if_pos e, e, u.same]; exact ⟨fun hs => ⟨ht, hs⟩, And.right⟩
    · rw [if_neg e, u.ne e]; exact h.waitMem s hs v
  · rw [u.created] at hv ⊢
    by_cases e : v = t
    · rw [e, u.same]; exact hx
    · rw [u.ne e]; exact h.tasks v hv
  · rw [u.created] at hv
    rw [u.cur] at e
    by_cases e' : v = t
    · rw [e', u.same]; exact hres (e' ▸ e)
    · rw [u.ne e']; exact h.suspended v hv e

/-- The running thread changed, and stays off the queues. -/
theorem Wf.off {k k' : Kernel Queues} {run' : Option Tid} {x : Task} (h : Wf I P (some k.cur) k)
    (u : Upd k k' k.cur x) (hq : k'.queues = k.queues) (hx : TaskOk I k.created k.cur x)
    (hrun : x.status = .running ↔ run' = some k.cur) (hrun' : ∀ v, v ≠ k.cur → run' ≠ some v)
    (hs1 : x.status ≠ .ready) (hs2 : x.status = .blocked → x.pc.isLoop = false)
    (hintr : x.resume ≠ none ∨ x.pc.isLoop → k'.intr = false) : Wf I P run' k' := by
  have hself : ∀ {p : Prop} {l : List Tid} {v : Tid}, k.cur ∉ l → ¬ p → (v ∈ l ↔ if v = k.cur then p else v ∈ l) := by
    intro p l v hl hp
    by_cases e : v = k.cur
    · rw [if_pos e, e]; exact ⟨fun hm => absurd hm hl, fun hm => absurd hm hp⟩
    · rw [if_neg e]
  have hoff : ∀ s, ¬ (x.status = .blocked ∧ ∃ old, x.pc = .semaLoop s old) := by
    intro s hex
    obtain ⟨hb, old, hp⟩ := hex
    have := hs2 hb
    rw [hp] at this; cases this
  refine h.upd u h.curCreated hx hrun (fun v e => ⟨fun hv => absurd hv (hrun' v e), fun hv => absurd (Option.some.inj hv).symm e⟩)
    ⟨hq ▸ h.readyNodup, fun v => by rw [hq]; exact hself h.cur_not_ready hs1⟩
    (fun s hs => ⟨hq ▸ h.waitNodup s hs, fun v => by rw [hq]; exact hself (h.cur_not_waiting hs) (hoff s)⟩) (by rw [hq])
    (fun e => absurd rfl e) ?_
  rw [u.cur, u.same]; exact hintr

/-! ## The running thread leaves the CPU -/

theorem requeue_wf (h : Wf I P (some k.cur) k) (reload : Bool) : Wf I P none (requeue reload k) := by
  have hx := h.tasks k.cur h.curCreated
  have hnr := h.cur_not_ready
  have u : Upd k (requeue reload k) k.cur
      { k.task k.cur with ticks := if reload then (k.task k.cur).priority else (k.task k.cur).ticks, status := .ready } :=
    ⟨rfl, rfl, rfl, rfl⟩
  refine h.upd u h.curCreated ⟨fun _ hr => absurd rfl hr, hx.pc, hx.loopResume, hx.magic⟩ (by simp)
    (fun v e => by simp [Ne.symm e]) ⟨?_, fun v => ?_⟩ (fun s hs => ⟨?_, fun v => ?_⟩) ?_ (fun e => absurd rfl e) ?_
  · simpa [requeue] using nodup_snoc h.readyNodup hnr
  · by_cases e : v = k.cur <;> simp [requeue, e]
  · simpa [requeue] using h.waitNodup s hs
  · by_cases e : v = k.cur
    · subst e; simp [requeue, h.cur_not_waiting hs]
    · simp [requeue, e]
  · simp [requeue]
  · rw [u.cur, u.same]; exact h.intrOff

/-- The running thread stopped, with interrupts off. -/
def stop (stat : TaskStatus) (k : Kernel Queues) : Kernel Queues :=
  ({ k with intr := false }).setTask k.cur fun x => { x with status := stat }

/-- The running thread stopped on semaphore `s`. -/
def stopOn (s : Sema) (old : Bool) (k : Kernel Queues) : Kernel Queues :=
  stop .blocked ({ k with queues := Function.update k.queues (.waiters s) (k.queues (.waiters s) ++ [k.cur]) }.setPc
    (.semaLoop s old))

theorem nonRunnable_ne {s : TaskStatus} (h : s.nonRunnable = true) : s ≠ .running ∧ s ≠ .ready := by
  cases s <;> simp_all [TaskStatus.nonRunnable]

theorem stop_wf (h : Wf I P (some k.cur) k) {stat : TaskStatus} (hs : stat.nonRunnable = true)
    (hpc : (k.task k.cur).pc = .run) : Wf I P none (stop stat k) := by
  obtain ⟨hs1, hs2⟩ := nonRunnable_ne hs
  have hx := h.tasks k.cur h.curCreated
  exact h.off ⟨rfl, rfl, rfl, rfl⟩ rfl ⟨fun _ _ => ⟨hs, .inl hpc⟩, hx.pc, hx.loopResume, hx.magic⟩ (by simpa using hs1)
    (by simp) hs2 (fun _ => by rw [hpc]; rfl) (fun _ => rfl)

theorem stopOn_wf (h : Wf I P (some k.cur) k) {s : Sema} (hs : s ∈ I) (old : Bool)
    (hr : (k.task k.cur).resume = none) : Wf I P none (stopOn s old k) := by
  have hx := h.tasks k.cur h.curCreated
  have u : Upd k (stopOn s old k) k.cur { k.task k.cur with pc := .semaLoop s old, status := .blocked } :=
    ⟨rfl, rfl, rfl, by simp [stopOn, stop, Kernel.setPc, Kernel.setTask]⟩
  have hq : (stopOn s old k).queues = Function.update k.queues (.waiters s) (k.queues (.waiters s) ++ [k.cur]) := rfl
  refine h.upd u h.curCreated ⟨fun _ _ => ⟨rfl, .inr ⟨rfl, rfl⟩⟩, hs, fun _ => .inl hr, hx.magic⟩
    (by simp) (fun v e => by simp [Ne.symm e]) ⟨?_, fun v => ?_⟩ (fun s' hs' => ?_) (by simp [hq])
    (fun e => absurd rfl e) (fun _ => rfl)
  · simpa [hq] using h.readyNodup
  · by_cases e : v = k.cur
    · subst e; simpa [hq] using h.cur_not_ready
    · simp [hq, e]
  · have hnw := h.cur_not_waiting hs'
    have hnd := h.waitNodup s' hs'
    by_cases es : s' = s
    · subst es
      refine ⟨by simpa [hq] using nodup_snoc hnd hnw, fun v => ?_⟩
      by_cases e : v = k.cur <;> simp [hq, e]
    · refine ⟨by simpa [hq, Function.update_apply, es] using hnd, fun v => ?_⟩
      by_cases e : v = k.cur
      · subst e; simp [hq, es, hnw, Ne.symm es]
      · simp [hq, es, e]

/-! ## A thread gets the CPU -/

theorem switchTo_wf (h : Wf I P none k) (hi : k.intr = false) {r : Resume}
    (hr : (k.task k.cur).pc.isLoop → r = .setStatus false) {n : Tid} {rest : List Tid}
    (hq : k.queues .ready = n :: rest) : Wf I P (some n) (switchTo r n rest k) := by
  have hn := (h.readyMem n).mp (by simp [hq])
  have hnd : n ∉ rest ∧ rest.Nodup := by simpa [hq] using h.readyNodup
  -- first the switched-out thread gets its `resume`
  have hx := h.tasks k.cur h.curCreated
  have u : Upd k (k.setTask k.cur fun x => { x with resume := some r }) k.cur { k.task k.cur with resume := some r } :=
    ⟨rfl, rfl, rfl, rfl⟩
  have h1 : Wf I P none (k.setTask k.cur fun x => { x with resume := some r }) := by
    refine h.upd u h.curCreated ⟨hx.stopped, hx.pc, fun hl => .inr (by rw [hr hl]), hx.magic⟩
      (h.running _ h.curCreated) (fun _ _ => Iff.rfl) ⟨h.readyNodup, fun v => ?_⟩ (fun s hs => ⟨h.waitNodup s hs, fun v => ?_⟩)
      rfl (by simp) (fun _ => hi)
    · by_cases e : v = k.cur
      · subst e; simpa [h.curCreated] using h.readyMem k.cur
      · simp [e]
    · by_cases e : v = k.cur
      · subst e; simpa [h.curCreated] using h.waitMem s hs k.cur
      · simp [e]
  -- then the first ready thread leaves the list
  generalize hk1 : (k.setTask k.cur fun x => { x with resume := some r }) = k1 at h1
  have hq1 : k1.queues = k.queues := by rw [← hk1]; rfl
  have hst : ∀ t, (k1.task t).status = (k.task t).status := fun t => by
    rw [← hk1, setTask_task]; split <;> simp_all
  have hy := h1.tasks n (by rw [← hk1]; exact hn.1)
  have hcur : ∀ t ∈ k.created, (k1.task t).resume ≠ none := fun t ht => by
    by_cases e : t = k.cur
    · rw [← hk1, e]; simp
    · rw [← hk1]; simpa [setTask_task, e] using h.suspended t ht e
  have e2 : switchTo r n rest k = { k1.setTask n fun x => { x with status := .running } with
      queues := Function.update k1.queues .ready rest, cur := n } := by rw [← hk1]; rfl
  have hcr : k1.created = k.created := by rw [← hk1]; rfl
  have hi1 : k1.intr = false := by rw [← hk1]; exact hi
  rw [e2]
  have u2 : Upd { k1 with cur := n } { k1.setTask n fun x => { x with status := .running } with
      queues := Function.update k1.queues .ready rest, cur := n } n { k1.task n with status := .running } :=
    ⟨rfl, rfl, rfl, rfl⟩
  have h2 : Wf I P none { k1 with cur := n } :=
    ⟨h1.created, hcr ▸ hn.1, h1.mainCreated, h1.running, h1.readyMem, h1.readyNodup, h1.waitMem, h1.waitNodup, h1.allMem, h1.allNodup,
      h1.tasks, fun t ht _ => hcur t (hcr ▸ ht), fun _ => hi1⟩
  refine h2.upd u2 (hcr ▸ hn.1) ⟨fun hr => absurd rfl hr, hy.pc, hy.loopResume, hy.magic⟩ (by simp)
    (fun v e => by simp [Ne.symm e]) ⟨by simpa using hnd.2, fun v => ?_⟩
    (fun s hs => ⟨by simpa using h1.waitNodup s hs, fun v => ?_⟩) (by simp) (fun e => absurd rfl e) (fun _ => hi1)
  · by_cases e : v = n
    · subst e; simpa using hnd.1
    · simp [e, hq1, hq]
  · by_cases e : v = n
    · subst e
      have := (h1.waitMem s hs v).not
      have : v ∉ k1.queues (.waiters s) := fun hm => by
        have := ((h1.waitMem s hs v).mp hm).2.1
        rw [hst, hn.2] at this; cases this
      simp [this]
    · simp [e]

/-! ## A stopped thread becomes ready -/

/-- A stopped thread made the first of the ready list. -/
def unblocked (t : Tid) (k : Kernel Queues) : Kernel Queues :=
  { k.setTask t fun x => { x with status := .ready } with
    queues := Function.update k.queues .ready (t :: k.queues .ready) }

/-- Waking a thread that is on no list any more. -/
theorem unblocked_wf {q : Queues} (h : Wf I P (some k.cur) k) {t : Tid} (ht : t ∈ k.created)
    (htc : t ≠ k.cur) (hst : (k.task t).status ≠ .ready) (hrd : q .ready = k.queues .ready)
    (hall : q .all = k.queues .all)
    (hw : ∀ s ∈ I, (q (.waiters s)).Nodup ∧ ∀ u, u ∈ q (.waiters s) ↔ u ∈ k.queues (.waiters s) ∧ u ≠ t) :
    Wf I P (some k.cur) (unblocked t { k with queues := q }) := by
  have hnr : t ∉ k.queues .ready := fun hm => hst ((h.readyMem t).mp hm).2
  have hx := h.tasks t ht
  have u : Upd k (unblocked t { k with queues := q }) t { k.task t with status := .ready } := ⟨rfl, rfl, rfl, rfl⟩
  have hq : (unblocked t { k with queues := q }).queues = Function.update q .ready (t :: q .ready) := rfl
  refine h.upd u ht ⟨fun _ hr => absurd rfl hr, hx.pc, hx.loopResume, hx.magic⟩ (by simp [Ne.symm htc])
    (fun _ _ => Iff.rfl) ⟨?_, fun v => ?_⟩ (fun s hs => ⟨?_, fun v => ?_⟩) (by simp [hq, hall])
    (fun e => h.suspended t ht e) ?_
  · simpa [hq, hrd] using ⟨hnr, h.readyNodup⟩
  · by_cases e : v = t <;> simp [hq, e, hrd]
  · simpa [hq] using (hw s hs).1
  · by_cases e : v = t
    · have := (hw s hs).2 v; simp_all
    · simp [hq, e, (hw s hs).2 v]
  · rw [u.cur, u.ne (Ne.symm htc)]; exact h.intrOff

/-! ## The running thread goes on -/

/-- To program point `x.pc`, with any interrupt status. -/
theorem Wf.advance {k k' : Kernel Queues} {x : Task} (h : Wf I P (some k.cur) k) (u : Upd k k' k.cur x)
    (hq : k'.queues = k.queues) (hst : x.status = (k.task k.cur).status)
    (hmg : x.stackMagic = (k.task k.cur).stackMagic) (hr : x.resume = none)
    (hl : x.pc.isLoop = false) (hs : x.pc.Ok I k.created k.cur) : Wf I P (some k'.cur) k' := by
  have hrun : x.status = .running := hst.trans h.cur_running
  refine h.off u hq ⟨fun hn => absurd hrun hn, hs, by simp [hl], by rw [hmg]; exact (h.tasks _ h.curCreated).magic⟩
    (by simp [hrun, u.cur]) (fun v e => by simpa [u.cur] using Ne.symm e) (by simp [hrun]) (by simp [hrun]) (by simp [hr, hl])

theorem resumeWith_wf (h : Wf I P (some k.cur) k) {r : Resume} (hr : (k.task k.cur).resume = some r) :
    Wf I P (some (resumeWith r k).cur) (resumeWith r k) := by
  have hx := h.tasks k.cur h.curCreated
  have hrun := h.cur_running
  have u : Upd k (resumeWith r k) k.cur { k.task k.cur with resume := none } := by
    cases r <;> exact ⟨rfl, rfl, rfl, rfl⟩
  rw [u.cur]
  refine h.off u (by cases r <;> rfl) ⟨hx.stopped, hx.pc, fun _ => .inl rfl, hx.magic⟩ (by simp [hrun])
    (fun v e => by simpa using Ne.symm e) (by simp [hrun]) (by simp [hrun]) (fun hl => ?_)
  -- inside `sema_down` the thread resumes with interrupts off
  have hl : (k.task k.cur).pc.isLoop = true := by simpa using hl
  have := hx.loopResume hl
  rw [hr] at this
  rcases this with h0 | h0
  · cases h0
  · cases h0; rfl

/-- Nothing the queues speak of changes. -/
theorem Wf.congr {run : Option Tid} {k k' : Kernel Queues} {x : Task} (h : Wf I P run k) (u : Upd k k' k.cur x)
    (hq : k'.queues = k.queues) (hi : k'.intr = k.intr ∨ k'.intr = false) (hst : x.status = (k.task k.cur).status)
    (hpc : x.pc = (k.task k.cur).pc) (hr : x.resume = (k.task k.cur).resume)
    (hmg : x.stackMagic = (k.task k.cur).stackMagic) : Wf I P run k' := by
  have hx := h.tasks k.cur h.curCreated
  refine h.upd u h.curCreated ⟨by rw [hst, hpc]; exact hx.stopped, by rw [hpc]; exact hx.pc,
    by rw [hpc, hr]; exact hx.loopResume, by rw [hmg]; exact hx.magic⟩ (by rw [hst]; exact h.running _ h.curCreated)
    (fun _ _ => Iff.rfl) ⟨hq ▸ h.readyNodup, fun v => ?_⟩ (fun s hs => ⟨hq ▸ h.waitNodup s hs, fun v => ?_⟩) (by rw [hq])
    (fun e => absurd rfl e) (fun hl => ?_)
  · by_cases e : v = k.cur
    · subst e; simpa [hq, hst, h.curCreated] using h.readyMem k.cur
    · simp [hq, e]
  · by_cases e : v = k.cur
    · subst e; simpa [hq, hst, hpc, h.curCreated] using h.waitMem s hs k.cur
    · simp [hq, e]
  · rcases hi with hi | hi
    · rw [u.cur, u.same, hr, hpc] at hl; rw [hi]; exact h.intrOff hl
    · exact hi

/-! ## A new thread -/

/-- A created thread, ready for its first dispatch. -/
def started (t : Tid) (prio : Nat) (k : Kernel Queues) : Kernel Queues :=
  let k := threadCreate (initThread k t prio) t
  { k with
    queues := Function.update (Function.update k.queues .ready (k.queues .ready ++ [t])) .all (k.queues .all ++ [t])
    created := k.created ++ [t] }

theorem started_task_ne {t u : Tid} {prio : Nat} (hu : u ≠ t) : (started t prio k).task u = k.task u := by
  simp [started, threadCreate, initThread, setTask_task, hu]

theorem started_task_same {t : Tid} {prio : Nat} (hm : t ≠ k.mainThread) : (started t prio k).task t =
    ⟨.ready, prio % 256, prio % 256, 0, 0x19870916, .run, some .kernelThread, fun _ => 0⟩ := by
  simp [started, threadCreate, initThread, hm]

/-- A PCB ready for its first dispatch. -/
structure Prepared (x : Task) : Prop where
  status : x.status = .ready
  pc : x.pc = .run
  resume : x.resume ≠ none
  magic : x.stackMagic = 0x19870916

/-- PCBs of tasks not yet created may hold anything. -/
theorem Wf.outside {run : Option Tid} {k k' : Kernel Queues} (h : Wf I P run k) (hcur : k'.cur = k.cur)
    (hm : k'.mainThread = k.mainThread) (hc : k'.created = k.created) (hq : k'.queues = k.queues) (hi : k'.intr = k.intr)
    (ht : ∀ t ∈ k.created, k'.task t = k.task t) : Wf I P run k' := by
  refine ⟨hc ▸ h.created, by rw [hcur, hc]; exact h.curCreated, by rw [hm, hc]; exact h.mainCreated, fun t hct => ?_,
    fun t => ?_, hq ▸ h.readyNodup, fun s hs t => ?_, fun s hs => hq ▸ h.waitNodup s hs,
    fun t => by rw [hq, hc]; exact h.allMem t, hq ▸ h.allNodup, fun t hct => ?_, fun t hct e => ?_, ?_⟩
  · rw [hc] at hct
    rw [ht t hct]; exact h.running t hct
  · rw [hq, hc, h.readyMem t]
    exact and_congr_right (fun hct => by rw [ht t hct])
  · rw [hq, hc, h.waitMem s hs t]
    exact and_congr_right (fun hct => by rw [ht t hct])
  · rw [hc] at hct ⊢
    rw [ht t hct]; exact h.tasks t hct
  · rw [hc] at hct
    rw [hcur] at e
    rw [ht t hct]; exact h.suspended t hct e
  · rw [hcur, ht _ h.curCreated, hi]; exact h.intrOff

/-- A created thread put on the ready list. -/
def readied (t : Tid) (k : Kernel Queues) : Kernel Queues :=
  { k with queues := Function.update k.queues .ready (k.queues .ready ++ [t]), created := k.created ++ [t] }

/-- And on thread_all_list. -/
def listed (t : Tid) (k : Kernel Queues) : Kernel Queues :=
  { k with queues := Function.update k.queues .all (k.queues .all ++ [t]) }

theorem readied_wf {P' : Set Tid} (h : Wf I P (some k.cur) k) {t : Tid} (ht : t ∉ k.created) (hx : Prepared (k.task t))
    (hP : ∀ u, u ∈ P' ↔ u = t ∨ u ∈ P) : Wf I P' (some k.cur) (readied t k) := by
  have htc : t ≠ k.cur := fun e => ht (e ▸ h.curCreated)
  have htr : t ∉ k.queues .ready := fun hm => ht ((h.readyMem t).mp hm).1
  have hcreated : (readied t k).created = k.created ++ [t] := rfl
  have hq : (readied t k).queues = Function.update k.queues .ready (k.queues .ready ++ [t]) := rfl
  have hmem : ∀ u, u ∈ k.created ++ [t] ↔ u ∈ k.created ∨ u = t := by simp
  refine ⟨?_, ?_, ?_, fun u hu => ?_, fun u => ?_, ?_, fun s hs u => ?_, fun s hs => ?_, fun u => ?_, ?_,
    fun u hu => ?_, fun u hu e => ?_, h.intrOff⟩
  · rw [hcreated]; exact nodup_snoc h.created ht
  · exact List.mem_append_left _ h.curCreated
  · exact List.mem_append_left _ h.mainCreated
  · rw [hcreated, hmem] at hu
    rcases hu with hu | rfl
    · exact h.running u hu
    · show (k.task u).status = .running ↔ _
      simp [hx.status, Ne.symm htc]
  · rw [hcreated, hmem, hq]
    show _ ↔ _ ∧ (k.task u).status = .ready
    by_cases e : u = t
    · subst e; simp [hx.status]
    · have := h.readyMem u
      simp [e, this]
  · rw [hq]; simpa using nodup_snoc h.readyNodup htr
  · have := h.waitMem s hs u
    rw [hcreated, hmem, hq]
    show _ ↔ _ ∧ (k.task u).status = .blocked ∧ ∃ old, (k.task u).pc = .semaLoop s old
    by_cases e : u = t
    · subst e
      have := hx.status
      simp_all
    · simpa [e] using this
  · rw [hq]; simpa using h.waitNodup s hs
  · have := h.allMem u
    rw [hcreated, hmem, hq, hP]
    by_cases e : u = t
    · subst e; simp_all
    · simp [e, this]
  · rw [hq]; simpa using h.allNodup
  · rw [hcreated, hmem] at hu
    rcases hu with hu | rfl
    · have hok := h.tasks u hu
      exact ⟨hok.stopped, hok.pc.mono (fun _ => List.mem_append_left _), hok.loopResume, hok.magic⟩
    · show TaskOk I (k.created ++ [u]) u (k.task u)
      exact ⟨fun _ hr => absurd hx.status hr, by rw [hx.pc]; trivial, by simp [hx.pc, Pc.isLoop], hx.magic⟩
  · rw [hcreated, hmem] at hu
    rcases hu with hu | rfl
    · exact h.suspended u hu e
    · exact hx.resume

theorem listed_wf {P' : Set Tid} {run : Option Tid} (h : Wf I P run k) {t : Tid} (ht : t ∈ k.created) (htP : t ∈ P)
    (hP : ∀ u, u ∈ P' ↔ u ∈ P ∧ u ≠ t) : Wf I P' run (listed t k) := by
  have hta : t ∉ k.queues .all := fun hm => ((h.allMem t).mp hm).2 htP
  have hq : (listed t k).queues = Function.update k.queues .all (k.queues .all ++ [t]) := rfl
  refine ⟨h.created, h.curCreated, h.mainCreated, h.running, fun u => ?_, ?_, fun s hs u => ?_, fun s hs => ?_,
    fun u => ?_, ?_, h.tasks, h.suspended, h.intrOff⟩
  · rw [hq, Function.update_of_ne (by simp)]; exact h.readyMem u
  · rw [hq]; simpa using h.readyNodup
  · rw [hq, Function.update_of_ne (by simp)]; exact h.waitMem s hs u
  · rw [hq]; simpa using h.waitNodup s hs
  · have := h.allMem u
    show _ ↔ u ∈ k.created ∧ _
    rw [hq, hP]
    by_cases e : u = t
    · subst e; simp [ht]
    · simp [e, this]
  · rw [hq]; simpa using nodup_snoc h.allNodup hta

/-- The PCB `init_thread` and `thread_create` leave. -/
theorem prepared {σ : Type} [QueueStore σ] {k : Kernel σ} {t : Tid} (hm : t ≠ k.mainThread) (prio : Nat) :
    Prepared ((threadCreate (initThread k t prio) t).task t) := by
  constructor <;> simp [threadCreate, initThread, hm]

/-- A PCB under construction belongs to no created thread. -/
theorem built_wf (h : Wf I P (some k.cur) k) {t : Tid} (ht : t ∉ k.created) (prio : Nat) :
    Wf I P (some k.cur) (threadCreate (initThread k t prio) t) := by
  refine h.outside rfl rfl rfl rfl rfl (fun u hu => ?_)
  have hne : u ≠ t := fun e => ht (e ▸ hu)
  simp [threadCreate, initThread, setTask_task, hne]

/-- Both appends of a built thread. -/
theorem enlisted_wf (h : Wf I P (some k.cur) k) {t : Tid} (ht : t ∉ k.created) (htP : t ∉ P) (hx : Prepared (k.task t)) :
    Wf I P (some k.cur) (listed t (readied t k)) := by
  have h1 : Wf I {u | u = t ∨ u ∈ P} (some k.cur) (readied t k) := readied_wf h ht hx (fun _ => Iff.rfl)
  refine listed_wf h1 (List.mem_append_right _ (List.mem_singleton_self t)) (.inl rfl) (fun u => ?_)
  exact ⟨fun hu => ⟨.inr hu, fun e => htP (e ▸ hu)⟩, fun hu => hu.1.resolve_left hu.2⟩

theorem started_wf (h : Wf I P (some k.cur) k) {t : Tid} (ht : t ∉ k.created) (htP : t ∉ P)
    (prio : Nat) : Wf I P (some k.cur) (started t prio k) := by
  have hm : t ≠ k.mainThread := fun e => ht (e ▸ h.mainCreated)
  have h0 : Wf I P (some (threadCreate (initThread k t prio) t).cur) (threadCreate (initThread k t prio) t) :=
    built_wf h ht prio
  have e : started t prio k = listed t (readied t (threadCreate (initThread k t prio) t)) := by
    simp [started, listed, readied]
  rw [e]
  exact enlisted_wf h0 ht htP (prepared hm prio)

end TinyOs.Thread
