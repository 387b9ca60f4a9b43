/-
  TinyOs.Thread.Order — in which order threads wait and run.

  `Shift` is what a step does to the lists, as sequences: a dispatch takes the first of
  the ready list, perhaps with the running thread put behind the last one; a new thread
  goes behind the last one, a woken one before the first. The waiters of a semaphore
  are joined at the end and left at the front.

  A `thread_unblock` that goes on for a thread in `sema_down` breaks this order
  (`late_out_of_order`); the runs have none.
  - `runs_fifo`: whoever blocked on a semaphore first is woken first, in every run.
  - `runs_bounded`: until a ready thread with `p` others before it is dispatched, there are
    at most `p` dispatches more than wake-ups: a dispatch brings it one place forward, a
    wake-up one place back, and nothing else moves it.
-/

import Mathlib.Data.List.Nodup
import TinyOs.Thread.WakeUps

namespace TinyOs.Thread

open TinyOs.Kernel TinyOs.Lib TinyOs.Logic

/-- What a step does to the ready list and to the waiters of the semaphores of `I`. -/
inductive Shift (I : Set Sema) (k k' : Kernel Queues) : Prop
  | stay : k'.cur = k.cur → k'.queues .ready = k.queues .ready →
      (∀ s ∈ I, k'.queues (.waiters s) = k.queues (.waiters s)) → Shift I k k'
  | start (t : Tid) : t ∉ k.created → k'.cur = k.cur → k'.queues .ready = k.queues .ready ++ [t] →
      (∀ s ∈ I, k'.queues (.waiters s) = k.queues (.waiters s)) → Shift I k k'
  | wake (t : Tid) : t ∈ k.created → (k.task t).status.nonRunnable = true → k'.cur = k.cur →
      k'.queues .ready = t :: k.queues .ready →
      (∀ s ∈ I, k'.queues (.waiters s) = k.queues (.waiters s) ∨ k.queues (.waiters s) = t :: k'.queues (.waiters s)) →
        Shift I k k'
  | dispatch (back : List Tid) : back = [] ∨ back = [k.cur] → k.queues .ready ++ back = k'.cur :: k'.queues .ready →
      (∀ s ∈ I, k'.queues (.waiters s) = k.queues (.waiters s) ∨ k'.queues (.waiters s) = k.queues (.waiters s) ++ [k.cur]) →
      Shift I k k'

variable {I : Set Sema} {P : Set Tid} {k k' : Kernel Queues} {op : Op}

theorem Shift.same (hc : k'.cur = k.cur) (hq : k'.queues = k.queues) : Shift I k k' :=
  .stay hc (by rw [hq]) fun _ _ => by rw [hq]

theorem Shift.switch {k1 : Kernel Queues} {r : Resume} {back : List Tid} (hback : back = [] ∨ back = [k.cur])
    (hr : k1.queues .ready = k.queues .ready ++ back)
    (hw : ∀ s ∈ I, k1.queues (.waiters s) = k.queues (.waiters s) ∨ k1.queues (.waiters s) = k.queues (.waiters s) ++ [k.cur])
    (hk : switchToFirst r k1 = .ok k') : Shift I k k' := by
  obtain ⟨n, rest, hq, rfl⟩ := switchToFirst_ok hk
  refine .dispatch back hback ?_ fun s hs => ?_
  · rw [← hr, hq]
    simp [switchTo]
  · rw [switchTo_waiters]
    exact hw s hs

theorem requeue_shift {k1 : Kernel Queues} {r : Resume} {reload : Bool} (hc : k1.cur = k.cur) (hq : k1.queues = k.queues)
    (hk : switchToFirst r (requeue reload k1) = .ok k') : Shift I k k' := by
  refine Shift.switch (.inr rfl) ?_ (fun s _ => .inl ?_) hk
  · simp [requeue, hc, hq]
  · simp [requeue, hq]

theorem semaDownLoop_shift {k1 : Kernel Queues} (h : Wf I P (some k1.cur) k1) (hi : k1.intr = false) (hc : k1.cur = k.cur)
    (hq : k1.queues = k.queues) {s : Sema} (hs : s ∈ I) {old : Bool} (hk : semaDownLoop s old k1 = .ok k') : Shift I k k' := by
  rcases semaDownLoop_ok h hi hs hk with ⟨-, hk⟩ | ⟨-, rfl⟩
  · refine Shift.switch (.inl rfl) ?_ (fun s' _ => ?_) hk
    · simp [stopOn, stop, Kernel.setPc, hq]
    · by_cases e : s' = s
      · subst e
        right
        simp [stopOn, stop, Kernel.setPc, hc, hq]
      · left
        simp [stopOn, stop, Kernel.setPc, hq, e]
  · exact Shift.same hc hq

theorem semaUp_shift (h : Wf I P (some k.cur) k) {s : Sema} (hs : s ∈ I) (hk : semaUp s k = .ok k') : Shift I k k' := by
  obtain ⟨-, ⟨-, rfl⟩ | ⟨t, ts, hq, -, rfl⟩⟩ := semaUp_ok h hs hk
  · exact Shift.same rfl rfl
  · obtain ⟨hcr, hst, -, -⟩ := woken_wf h hs hq
    refine .wake t hcr (by rw [hst]; rfl) rfl ?_ fun s' _ => ?_
    · simp [gave, unblocked, Kernel.setPc, Kernel.setValue]
    · by_cases e : s' = s
      · subst e
        right
        rw [hq]
        simp [gave, unblocked, Kernel.setPc, Kernel.setValue]
      · left
        simp [gave, unblocked, Kernel.setPc, Kernel.setValue, e]

theorem exec_shift (h : Wf I P (some k.cur) k) (hr : (k.task k.cur).resume = none) (hf : Fresh k .go)
    (hk : exec k (k.task k.cur).pc = .ok k') : Shift I k k' := by
  have hsema := (h.tasks k.cur h.curCreated).sema
  cases hpc : (k.task k.cur).pc with
  | semaDown s =>
    rw [hpc] at hk hsema
    have h0 : Wf I P (some k.cur) { k with intr := false } := intrOff_wf h
    exact @semaDownLoop_shift I P k k' { k with intr := false } h0 rfl rfl rfl s (hsema s rfl) k.intr hk
  | semaLoop s old =>
    rw [hpc] at hk hsema
    exact semaDownLoop_shift h (h.intrOff (.inr (by rw [hpc]; rfl))) rfl rfl (hsema s rfl) hk
  | semaUp s =>
    rw [hpc] at hk hsema
    exact semaUp_shift h (hsema s rfl) hk
  | unblock t =>
    have ht := wakeable_of_fresh h hr hpc hf
    rw [hpc] at hk
    rcases execUnblock_ok hk with ⟨-, rfl⟩ | ⟨hs, rfl⟩
    · exact Shift.same rfl rfl
    · refine .wake t ht.created (ht.stopped hs).1 rfl ?_ fun s _ => .inl ?_
      · simp [unblocked, Kernel.setPc]
      · simp [unblocked, Kernel.setPc]
  | acqAssert l | relAssert l | relAssertOne l =>
    rw [hpc] at hk
    obtain ⟨-, -, hk⟩ := bind_ok_iff.mp hk
    cases hk
    exact Shift.same rfl rfl
  | run | acqTest l | acqHolder l | acqNr l | acqInc l | acqIncStore l nr | relTest l | relDec l | relDecStore l nr | relClear l
  | relZero l =>
    rw [hpc] at hk
    cases hk
    exact Shift.same rfl rfl

theorem enter_shift (h : Wf I P (some k.cur) k) {c : Call} (hl : Legal I k (.call c)) (hk : enter k c = .ok k') :
    Shift I k k' := by
  obtain ⟨⟨-, -, hl⟩, -⟩ := hl
  cases c with
  | threadStart page prio =>
    cases page with
    | none => cases hk
    | some t =>
      have ht : t ∉ k.created := hl
      rw [threadStart_ok h ht hk]
      refine .start t ht rfl ?_ fun s _ => ?_
      · simp [started, threadCreate, initThread]
      · simp [started, threadCreate, initThread]
  | threadYield =>
    have hk : threadYield k = .ok k' := hk
    rw [threadYield_eq h] at hk
    exact @requeue_shift I k k' { k with intr := false } _ _ rfl rfl hk
  | threadBlock stat =>
    obtain ⟨-, hk⟩ := threadBlock_ok hk
    refine Shift.switch (.inl rfl) ?_ (fun s _ => .inl ?_) hk
    · simp [stop]
    · simp [stop]
  | threadUnblock t =>
    rw [enterUnblock_ok hk]
    exact Shift.same rfl rfl
  | intrEnable | intrDisable | semaDown n | semaUp n | lockAcquire l | lockRelease l =>
    cases hk
    exact Shift.same rfl rfl

theorem step_shift (h : Wf I P (some k.cur) k) (hl : Legal I k op) (hk : TinyOs.Thread.step k op = .ok k') : Shift I k k' := by
  cases op with
  | timer =>
    rcases intrTimerHandler_ok h hk with ⟨-, hk⟩ | ⟨-, rfl⟩
    · exact @requeue_shift I k k' (counted k) _ _ rfl rfl hk
    · exact Shift.same rfl rfl
  | go =>
    cases hr : (k.task k.cur).resume with
    | none =>
      rw [step_go_exec hr] at hk
      exact exec_shift h hr hl.2 hk
    | some r =>
      rw [step_go_resume hr] at hk
      cases hk
      cases r <;> exact Shift.same rfl rfl
  | call c => exact enter_shift h hl hk

/-! ## Traces -/

/-- Thread `t` waits in `sema_down` of `s`. -/
def waitsFor {σ : Type} (k : Kernel σ) (s : Sema) (t : Tid) : Bool :=
  (k.task t).status = .blocked && match (k.task t).pc with
    | .semaLoop s' _ => s' = s
    | _ => false

/-- A kernel, and what has happened. No code reads that. -/
structure Traced where
  k : Kernel (Links Node)
  /-- The running thread, at each timer interrupt. -/
  interrupted : List Tid
  /-- The threads switched to. -/
  dispatched : List Tid
  /-- The threads made ready after they had stopped. -/
  wakes : List Tid
  /-- The threads that have come to wait for a semaphore, and those that no longer do. -/
  joined : Sema → List Tid
  left : Sema → List Tid

namespace Traced

def start (k : Kernel (Links Node)) : Traced := ⟨k, [], [], [], fun _ => [], fun _ => []⟩

def record (w : Traced) (op : Op) (k : Kernel (Links Node)) : Traced where
  k := k
  interrupted := w.interrupted ++ if op = .timer then [w.k.cur] else []
  dispatched := w.dispatched ++ if k.cur = w.k.cur then [] else [k.cur]
  wakes := w.wakes ++ w.k.created.filter fun t => (w.k.task t).status.nonRunnable && (k.task t).status = .ready
  joined s := w.joined s ++ w.k.created.filter fun t => !waitsFor w.k s t && waitsFor k s t
  left s := w.left s ++ w.k.created.filter fun t => waitsFor w.k s t && !waitsFor k s t

def step (w : Traced) (op : Op) : Except Stop Traced := do
  let k ← TinyOs.Thread.step w.k op
  .ok (w.record op k)

/-- The runs from `k0` on. -/
def Since (I : Set Sema) (E : Task → Op → Prop) (k0 : Kernel (Links Node)) : Traced → Prop :=
  Reach (fun w => w = start k0) (fun w op => Legal I w.k op ∧ E (w.k.task w.k.cur) op) step

end Traced

theorem waitsFor_iff (h : Wf I P (some k.cur) k) {s : Sema} (hs : s ∈ I) {t : Tid} (ht : t ∈ k.created) :
    waitsFor k s t = true ↔ t ∈ k.queues (.waiters s) := by
  rw [h.waitMem s hs t]
  unfold waitsFor
  rw [Bool.and_eq_true, decide_eq_true_eq]
  constructor
  · intro hw
    refine ⟨ht, hw.1, ?_⟩
    have hpc := hw.2
    split at hpc
    · next s' old he => exact ⟨old, by rw [he, of_decide_eq_true hpc]⟩
    · cases hpc
  · intro hw
    obtain ⟨-, hst, old, hpc⟩ := hw
    rw [hpc]
    exact ⟨hst, decide_eq_true rfl⟩

theorem filter_one {l : List Tid} {p : Tid → Bool} {t : Tid} (hl : l.Nodup) (ht : t ∈ l) (hp : ∀ u ∈ l, p u = true ↔ u = t) :
    l.filter p = [t] := by
  have hcongr : l.filter p = l.filter (· == t) := List.filter_congr fun u hu => by
    rw [Bool.eq_iff_iff, hp u hu, beq_iff_eq]
  rw [hcongr, List.filter_beq, List.count_eq_one_of_mem hl ht]
  rfl

/-- What has come to wait and what no longer does, along a step. -/
theorem fifo_step (h : Wf I ∅ (some k.cur) k) (h' : Wf I ∅ (some k'.cur) k')
    (hf : ∀ t ∈ k.created, t ∈ k'.created) (m : Shift I k k') {s : Sema} (hs : s ∈ I) :
    k.queues (.waiters s) ++ (k.created.filter fun t => !waitsFor k s t && waitsFor k' s t) =
      (k.created.filter fun t => waitsFor k s t && !waitsFor k' s t) ++ k'.queues (.waiters s) := by
  have hw : ∀ t ∈ k.created, (waitsFor k s t = true ↔ t ∈ k.queues (.waiters s)) ∧
    (waitsFor k' s t = true ↔ t ∈ k'.queues (.waiters s)) :=
    fun t ht => ⟨waitsFor_iff h hs ht, waitsFor_iff h' hs (hf t ht)⟩
  have hsame : k'.queues (.waiters s) = k.queues (.waiters s) →
      k.queues (.waiters s) ++ (k.created.filter fun t => !waitsFor k s t && waitsFor k' s t) =
        (k.created.filter fun t => waitsFor k s t && !waitsFor k' s t) ++ k'.queues (.waiters s) := by
    intro he
    have heq : ∀ t ∈ k.created, waitsFor k' s t = waitsFor k s t := fun t ht => by
      rw [Bool.eq_iff_iff, (hw t ht).1, (hw t ht).2, he]
    rw [List.filter_eq_nil_iff.mpr fun t ht => by simp [heq t ht],
      List.filter_eq_nil_iff.mpr fun t ht => by simp [heq t ht], he]
    simp
  cases m with
  | stay _ _ hq => exact hsame (hq s hs)
  | start t _ _ _ hq => exact hsame (hq s hs)
  | wake t ht _ _ _ hq =>
    rcases hq s hs with he | he
    · exact hsame he
    · -- the first waiter is the one that no longer waits
      have hnd := h.waitNodup s hs
      rw [he] at hnd
      have hnot := (List.nodup_cons.mp hnd).1
      have hone : ∀ u ∈ k.created, (waitsFor k s u && !waitsFor k' s u) = true ↔ u = t := by
        intro u hu
        rw [Bool.and_eq_true, (hw u hu).1, Bool.not_eq_true', ← Bool.not_eq_true, (hw u hu).2, he, List.mem_cons]
        constructor
        · intro hu'; exact hu'.1.resolve_right hu'.2
        · intro e; exact ⟨.inl e, e ▸ hnot⟩
      have hnone : ∀ u ∈ k.created, ¬ (!waitsFor k s u && waitsFor k' s u) = true := by
        intro u hu hu'
        rw [Bool.and_eq_true, Bool.not_eq_true', ← Bool.not_eq_true, (hw u hu).1, (hw u hu).2, he] at hu'
        exact hu'.1 (List.mem_cons_of_mem _ hu'.2)
      rw [filter_one h.created ht hone, List.filter_eq_nil_iff.mpr hnone, he]
      simp
  | dispatch back _ _ hq =>
    rcases hq s hs with he | he
    · exact hsame he
    · have hcur := h.cur_not_waiting hs
      have hone : ∀ u ∈ k.created, (!waitsFor k s u && waitsFor k' s u) = true ↔ u = k.cur := by
        intro u hu
        rw [Bool.and_eq_true, Bool.not_eq_true', ← Bool.not_eq_true, (hw u hu).1, (hw u hu).2, he, List.mem_append,
          List.mem_singleton]
        constructor
        · intro hu'; exact hu'.2.resolve_left hu'.1
        · intro e; exact ⟨e ▸ hcur, .inr e⟩
      have hnone : ∀ u ∈ k.created, ¬ (waitsFor k s u && !waitsFor k' s u) = true := by
        intro u hu hu'
        rw [Bool.and_eq_true, Bool.not_eq_true', ← Bool.not_eq_true, (hw u hu).1, (hw u hu).2, he] at hu'
        exact hu'.2 (List.mem_append_left _ hu'.1)
      rw [filter_one h.created h.curCreated hone, List.filter_eq_nil_iff.mpr hnone, he]
      simp

/-- Who is made ready after it had stopped, by the ready list of `k'`. -/
theorem wakes_mem (h' : Wf I ∅ (some k'.cur) k') (hf : ∀ t ∈ k.created, t ∈ k'.created) {t : Tid}
    (ht : t ∈ k.created) : ((k.task t).status.nonRunnable && (k'.task t).status = .ready) = true ↔
      (k.task t).status.nonRunnable = true ∧ t ∈ k'.queues .ready := by
  rw [Bool.and_eq_true, decide_eq_true_eq, h'.readyMem t]
  exact and_congr_right fun _ => ⟨fun e => ⟨hf t ht, e⟩, fun e => e.2⟩

theorem wakes_none (h : Wf I ∅ (some k.cur) k) (h' : Wf I ∅ (some k'.cur) k') (hf : ∀ t ∈ k.created, t ∈ k'.created)
    (hq : ∀ t ∈ k.created, t ∈ k'.queues .ready → t ∈ k.queues .ready ∨ t = k.cur) :
    (k.created.filter fun t => (k.task t).status.nonRunnable && (k'.task t).status = .ready) = [] := by
  refine List.filter_eq_nil_iff.mpr fun t ht hw => ?_
  obtain ⟨hn, hm⟩ := (wakes_mem h' hf ht).mp hw
  rcases hq t ht hm with hr | hc
  · exact (nonRunnable_ne hn).2 ((h.readyMem t).mp hr).2
  · exact (nonRunnable_ne hn).1 (hc ▸ h.cur_running)

/-- A ready thread is dispatched or keeps its place, brought forward by a dispatch and put back by a wake-up. -/
theorem ready_step (h : Wf I ∅ (some k.cur) k) (h' : Wf I ∅ (some k'.cur) k')
    (hf : ∀ t ∈ k.created, t ∈ k'.created) (m : Shift I k k')
    {t : Tid} {q : Nat} (hq : (k.queues .ready)[q]? = some t) : k'.cur = t ∧ k.cur ≠ t ∨
      ∃ q', (k'.queues .ready)[q']? = some t ∧ q' + (if k'.cur = k.cur then [] else [k'.cur]).length =
        q + (k.created.filter fun t => (k.task t).status.nonRunnable && (k'.task t).status = .ready).length := by
  cases m with
  | stay hc hr _ =>
    right
    rw [wakes_none h h' hf fun u _ hu => .inl (hr ▸ hu), if_pos hc]
    exact ⟨q, by rw [hr, hq], rfl⟩
  | start n hn hc hr _ =>
    right
    have hnew : ∀ u ∈ k.created, u ∈ k'.queues .ready → u ∈ k.queues .ready ∨ u = k.cur := by
      intro u hu hu'
      rw [hr, List.mem_append, List.mem_singleton] at hu'
      exact hu'.elim .inl fun e => absurd (e ▸ hu) hn
    rw [wakes_none h h' hf hnew, if_pos hc]
    exact ⟨q, by rw [hr, List.getElem?_append_left (List.getElem?_eq_some_iff.mp hq).1, hq], rfl⟩
  | wake n hn hst hc hr _ =>
    right
    have hone : ∀ u ∈ k.created, ((k.task u).status.nonRunnable && (k'.task u).status = .ready) = true ↔ u = n := by
      intro u hu
      rw [wakes_mem h' hf hu, hr, List.mem_cons]
      constructor
      · rintro ⟨hu', rfl | hm⟩
        · rfl
        · exact absurd ((h.readyMem u).mp hm).2 (nonRunnable_ne hu').2
      · rintro rfl
        exact ⟨hst, .inl rfl⟩
    rw [filter_one h.created hn hone, if_pos hc]
    exact ⟨q + 1, by rw [hr, List.getElem?_cons_succ, hq], rfl⟩
  | dispatch back hback hr _ =>
    have hnone : ∀ u ∈ k.created, u ∈ k'.queues .ready → u ∈ k.queues .ready ∨ u = k.cur := by
      intro u _ hu
      have hu' : u ∈ k.queues .ready ++ back := hr ▸ List.mem_cons_of_mem _ hu
      rcases hback with rfl | rfl
      · exact .inl (by simpa using hu')
      · simpa using hu'
    rw [wakes_none h h' hf hnone]
    obtain ⟨hlt, -⟩ := List.getElem?_eq_some_iff.mp hq
    have hat : (k'.cur :: k'.queues .ready)[q]? = some t := by rw [← hr, List.getElem?_append_left hlt, hq]
    -- a dispatch with somebody on the ready list leaves the running thread
    have hne : k'.cur ≠ k.cur := by
      intro e
      apply h.cur_not_ready
      cases hl : k.queues .ready with
      | nil => rw [hl] at hlt; simp at hlt
      | cons a as =>
        rw [hl, List.cons_append, List.cons.injEq] at hr
        rw [← e, ← hr.1]
        exact List.mem_cons_self
    cases q with
    | zero =>
      left
      have e : k'.cur = t := by simpa using hat
      exact ⟨e, fun e' => hne (e.trans e'.symm)⟩
    | succ q =>
      right
      rw [if_neg hne]
      exact ⟨q, by simpa using hat, rfl⟩

/-! ## Runs -/

/-- What a run from the queues `a0` has done to them by the time they are those of `a`. -/
structure Served (I : Set Sema) (a0 : Kernel Queues) (w : Traced) (a : Kernel Queues) : Prop where
  fifo : ∀ s ∈ I, a0.queues (.waiters s) ++ w.joined s = w.left s ++ a.queues (.waiters s)
  forward : ∀ t p, (a0.queues .ready)[p]? = some t → t ∉ w.dispatched →
    ∃ q, (a.queues .ready)[q]? = some t ∧ q + w.dispatched.length = p + w.wakes.length

theorem Served.record {a0 a a' : Kernel Queues} {w : Traced} {l : Kernel (Links Node)} (h : Served I a0 w a)
    (hw : Wf I ∅ (some a.cur) a) (hw' : Wf I ∅ (some a'.cur) a') (hl : Legal I a op) (hk : TinyOs.Thread.step a op = .ok a')
    (hst : Stand I w.k a) (hst' : Stand I l a') : Served I a0 (w.record op l) a' := by
  have hf := (step_effect hw hl hk).1.created
  have m := step_shift hw hl hk
  obtain ⟨hc, hcr, htask, -⟩ := hst.fields
  obtain ⟨hc', -, htask', -⟩ := hst'.fields
  refine ⟨fun s hs => ?_, fun t p hp hnot => ?_⟩
  · have hstep := fifo_step hw hw' hf m hs
    simp only [Traced.record, waitsFor, hcr, htask, htask']
    rw [← List.append_assoc, h.fifo s hs, List.append_assoc, List.append_assoc, List.append_cancel_left_eq]
    exact hstep
  · simp only [Traced.record, List.mem_append, not_or, hc, hc'] at hnot
    obtain ⟨q, hq, hlen⟩ := h.forward t p hp hnot.1
    rcases ready_step hw hw' hf m hq with ⟨he, hne⟩ | ⟨q', hq', hlen'⟩
    · have hne' : a'.cur ≠ a.cur := fun e => hne (e.symm.trans he)
      rw [if_neg hne'] at hnot
      exact absurd (List.mem_singleton.mpr he.symm) hnot.2
    · refine ⟨q', hq', ?_⟩
      simp only [Traced.record, List.length_append, hc, hcr, htask, hc', htask']
      omega

variable {F : (Sema → Nat) → (LockId → Lock) → Prop} {E : Task → Op → Prop} {k0 : Kernel (Links Node)} {w : Traced}

/-- What holds at the start, of the links and of the sequences they stand for, and is kept by every step. -/
theorem Traced.Since.invariant {Q : Traced → Kernel Queues → Prop} {a0 : Kernel Queues} (hst0 : Stand I k0 a0)
    (hw0 : Wf I ∅ (some a0.cur) a0) (h : Traced.Since I E k0 w) (h0 : Q (Traced.start k0) a0)
    (hs : ∀ w a op l a', Q w a → Stand I w.k a → Stand I l a' → Wf I ∅ (some a.cur) a → Wf I ∅ (some a'.cur) a' →
      Legal I a op → TinyOs.Thread.step a op = .ok a' → Q (w.record op l) a') :
    ∃ a, Stand I w.k a ∧ Wf I ∅ (some a.cur) a ∧ Q w a := by
  refine Reach.invariant (P := fun w => ∃ a, Stand I w.k a ∧ Wf I ∅ (some a.cur) a ∧ Q w a) ?_ ?_ h
  · rintro w rfl
    exact ⟨a0, hst0, hw0, h0⟩
  · rintro w w' op ⟨a, hst, hw, hq⟩ ⟨hl, -⟩ he
    obtain ⟨l, hk, he⟩ := bind_ok_iff.mp he
    cases he
    have hla := hst.legal hl
    obtain ⟨a', hk', hst'⟩ := (hst.step hw hla).of_ok hk
    have hw' := step_wf hw (by simp) hla hk'
    exact ⟨a', hst', hw', hs w a op l a' hq hst hst' hw hw' hla hk'⟩

theorem Served.start (I : Set Sema) (k0 : Kernel (Links Node)) (a0 : Kernel Queues) : Served I a0 (Traced.start k0) a0 :=
  ⟨fun s _ => by simp [Traced.start], fun _ p hp _ => ⟨p, hp, rfl⟩⟩

theorem Traced.Since.served {a0 : Kernel Queues} (hst0 : Stand I k0 a0) (hw0 : Wf I ∅ (some a0.cur) a0)
    (h : Traced.Since I E k0 w) : ∃ a, Stand I w.k a ∧ Wf I ∅ (some a.cur) a ∧ Served I a0 w a :=
  h.invariant hst0 hw0 (Served.start I k0 a0) fun _ _ _ _ _ hs hst hst' hw hw' hl hk => hs.record hw hw' hl hk hst hst'

/-- From where one thread is woken and one waits: the main thread takes the unit before the woken thread does, which
    blocks again, now behind the other one. -/
def overtaken : List Op :=
  [.call (.semaDown 0), .go, .call .threadYield, .go, .go, .go, .call (.semaUp 0), .go, .call .threadYield, .go, .go]

def afterOvertaken : Traced := overtaken.foldl (next Traced.step) (Traced.start (after oneWoken))

theorem afterOvertaken_since : Traced.Since {.free 0} (fun _ _ => True) (after oneWoken) afterOvertaken :=
  Reach.script (.first rfl) (by decide +kernel)

example : afterOvertaken.joined (.free 0) = [0xc0101000] ∧ afterOvertaken.left (.free 0) = [0xc0102000] ∧
    afterOvertaken.dispatched = [0xc0101000, 0xc009e000, 0xc0102000] ∧ afterOvertaken.wakes = [0xc0102000] := by decide +kernel

/-- Those that come to wait for a semaphore stop waiting in that order: the ones that no longer wait, and then the
    waiters list, are the first waiters and then the ones that have come. -/
theorem runs_fifo (hr : Runs I F E k0) (h : Traced.Since I E k0 w) : ∃ ts0 ts, InOrder I ∅ k0 ts0 ∧ InOrder I ∅ w.k ts ∧
    ∀ s ∈ I, ts0 (.waiters s) ++ w.joined s = w.left s ++ ts (.waiters s) := by
  obtain ⟨a0, hst0, hw0⟩ := hr.stand
  obtain ⟨a, hst, hw, hs⟩ := h.served hst0 hw0
  exact ⟨a0.queues, a.queues, hst0.inOrder hw0, hst.inOrder hw, hs.fifo⟩

/-- `runs_fifo` where a woken thread is overtaken. -/
theorem overtaken_fifo : ∃ ts0 ts, InOrder {.free 0} ∅ (after oneWoken) ts0 ∧ InOrder {.free 0} ∅ afterOvertaken.k ts ∧
    ∀ s ∈ ({.free 0} : Set Sema), ts0 (.waiters s) ++ afterOvertaken.joined s = afterOvertaken.left s ++ ts (.waiters s) :=
  runs_fifo oneWoken_runs afterOvertaken_since

/-- A thread with `p` others before it on the ready list, not dispatched since, has seen at most `p` dispatches more than
    wake-ups, and its place says how many are missing. -/
theorem runs_bounded (hr : Runs I F E k0) (h : Traced.Since I E k0 w) : ∃ ts0 ts, InOrder I ∅ k0 ts0 ∧ InOrder I ∅ w.k ts ∧
    ∀ t p, (ts0 .ready)[p]? = some t → t ∉ w.dispatched → w.dispatched.length ≤ p + w.wakes.length ∧
      (ts .ready)[p + w.wakes.length - w.dispatched.length]? = some t := by
  obtain ⟨a0, hst0, hw0⟩ := hr.stand
  obtain ⟨a, hst, hw, hs⟩ := h.served hst0 hw0
  refine ⟨a0.queues, a.queues, hst0.inOrder hw0, hst.inOrder hw, fun t p hp hnot => ?_⟩
  obtain ⟨q, hq, hlen⟩ := hs.forward t p hp hnot
  refine ⟨by omega, ?_⟩
  rw [show p + w.wakes.length - w.dispatched.length = q by omega]
  exact hq

/-- `runs_bounded` there. -/
theorem overtaken_bounded : ∃ ts0 ts, InOrder {.free 0} ∅ (after oneWoken) ts0 ∧ InOrder {.free 0} ∅ afterOvertaken.k ts ∧
    ∀ t p, (ts0 .ready)[p]? = some t → t ∉ afterOvertaken.dispatched →
      afterOvertaken.dispatched.length ≤ p + afterOvertaken.wakes.length ∧
      (ts .ready)[p + afterOvertaken.wakes.length - afterOvertaken.dispatched.length]? = some t :=
  runs_bounded oneWoken_runs afterOvertaken_since

end TinyOs.Thread
