/-
  TinyOs.Thread.Dispatch — which task a step leaves running.

  Only `schedule` gives the CPU away, and to the first task of the ready list. A running
  task that was put back there is its last, so it goes on where the list was empty.
-/

import TinyOs.Thread.Refine

namespace TinyOs.Thread

open TinyOs.Kernel TinyOs.Logic

/-- The first task on thread_ready_list. -/
def firstReady (k : Kernel (Links Node)) : Option Tid :=
  match k.queues.next (.head .ready) with
  | .generalTag t => some t
  | _ => none

/-- The step comes to `schedule`. -/
def schedules {σ : Type} (k : Kernel σ) : Op → Bool
  | .timer => (k.task k.cur).ticks = 0
  | .call .threadYield | .call (.threadBlock _) => true
  | .call _ => false
  | .go =>
    match (k.task k.cur).resume, (k.task k.cur).pc with
    | none, .semaDown s | none, .semaLoop s _ => k.value s = 0
    | _, _ => false

/-- The task that the step leaves running. -/
def dispatched (k : Kernel (Links Node)) (op : Op) : Tid := if schedules k op then (firstReady k).getD k.cur else k.cur

variable {I : Set Sema} {P : Set Tid} {k k' : Kernel Queues} {op : Op}

/-! ## On sequences -/

theorem switchToFirst_cur {r : Resume} (hk : switchToFirst r k = .ok k') : (k.queues .ready).head? = some k'.cur := by
  obtain ⟨n, rest, hq, rfl⟩ := switchToFirst_ok hk
  rw [hq]
  rfl

/-- The running task is the last one that can be first. -/
theorem requeued_cur {r : Resume} {reload : Bool} (hk : switchToFirst r (requeue reload k) = .ok k') :
    k'.cur = (k.queues .ready).head?.getD k.cur := by
  have hfirst := switchToFirst_cur hk
  have hq : (requeue reload k).queues .ready = k.queues .ready ++ [k.cur] := by simp [requeue]
  rw [hq] at hfirst
  cases he : k.queues .ready with
  | nil => rw [he] at hfirst; exact (Option.some.inj hfirst).symm
  | cons n rest => rw [he] at hfirst; exact (Option.some.inj hfirst).symm

/-- The running task is on no list any more. -/
theorem stopped_cur {r : Resume} {k1 : Kernel Queues} (hq : k1.queues .ready = k.queues .ready)
    (hk : switchToFirst r k1 = .ok k') : k'.cur = (k.queues .ready).head?.getD k.cur := by
  rw [← hq, switchToFirst_cur hk]
  rfl

theorem semaDownLoop_cur (h : Wf I P (some k.cur) k) (hi : k.intr = false) {s : Sema} (hs : s ∈ I) {old : Bool}
    (hk : semaDownLoop s old k = .ok k') :
    k'.cur = if k.value s = 0 then (k.queues .ready).head?.getD k.cur else k.cur := by
  rcases semaDownLoop_ok h hi hs hk with ⟨hv, hk⟩ | ⟨hv, rfl⟩
  · rw [if_pos hv]
    have hq : (stopOn s old k).queues .ready = k.queues .ready := by simp [stopOn, stop, Kernel.setPc]
    exact stopped_cur hq hk
  · rw [if_neg (by omega)]
    rfl

theorem semaUp_cur (h : Wf I P (some k.cur) k) {s : Sema} (hs : s ∈ I) (hk : semaUp s k = .ok k') : k'.cur = k.cur := by
  obtain ⟨-, ⟨-, rfl⟩ | ⟨t, ts, -, -, rfl⟩⟩ := semaUp_ok h hs hk
  · rfl
  · rfl

theorem exec_cur (h : Wf I P (some k.cur) k) (hr : (k.task k.cur).resume = none) (hk : exec k (k.task k.cur).pc = .ok k') :
    k'.cur = if schedules k .go then (k.queues .ready).head?.getD k.cur else k.cur := by
  have hsema := (h.tasks k.cur h.curCreated).sema
  cases hpc : (k.task k.cur).pc with
  | semaDown s =>
    rw [hpc] at hk hsema
    have h0 : Wf I P (some k.cur) { k with intr := false } := intrOff_wf h
    have hcur := @semaDownLoop_cur I P { k with intr := false } k' h0 rfl s (hsema s rfl) k.intr hk
    simpa [schedules, hr, hpc] using hcur
  | semaLoop s old =>
    have hi := h.intrOff (.inr (by rw [hpc]; rfl))
    rw [hpc] at hk hsema
    have hcur := semaDownLoop_cur h hi (hsema s rfl) hk
    simpa [schedules, hr, hpc] using hcur
  | semaUp s =>
    rw [hpc] at hk hsema
    have hcur := semaUp_cur h (hsema s rfl) hk
    simpa [schedules, hr, hpc] using hcur
  | unblock t =>
    rw [hpc] at hk
    simp only [schedules, hr, hpc]
    rcases execUnblock_ok hk with ⟨-, rfl⟩ | ⟨-, rfl⟩ <;> rfl
  | run | acqTest l | acqHolder l | acqNr l | acqInc l | acqIncStore l nr | relTest l | relDec l | relDecStore l nr
  | relClear l | relZero l =>
    rw [hpc] at hk
    cases hk
    simp only [schedules, hr, hpc]
    rfl
  | acqAssert l | relAssert l | relAssertOne l =>
    rw [hpc] at hk
    obtain ⟨-, -, hk⟩ := bind_ok_iff.mp hk
    cases hk
    simp only [schedules, hr, hpc]
    rfl

theorem enter_cur (h : Wf I P (some k.cur) k) {c : Call} (hl : Legal I k (.call c)) (hk : enter k c = .ok k') :
    k'.cur = if schedules k (.call c) then (k.queues .ready).head?.getD k.cur else k.cur := by
  obtain ⟨⟨-, -, hl⟩, -⟩ := hl
  cases c with
  | threadYield =>
    have hk : threadYield k = .ok k' := hk
    rw [threadYield_eq h] at hk
    have hcur := @requeued_cur { k with intr := false } k' _ _ hk
    exact hcur
  | threadBlock stat =>
    obtain ⟨-, hk⟩ := threadBlock_ok hk
    have hq : (stop stat k).queues .ready = k.queues .ready := rfl
    exact stopped_cur hq hk
  | threadUnblock t =>
    rw [enterUnblock_ok hk]
    rfl
  | threadStart page prio =>
    cases page with
    | none => cases hk
    | some t =>
      rw [threadStart_ok h hl hk]
      rfl
  | intrEnable | intrDisable | semaDown | semaUp | lockAcquire | lockRelease => cases hk; rfl

theorem step_cur (h : Wf I P (some k.cur) k) (hl : Legal I k op) (hk : step k op = .ok k') :
    k'.cur = if schedules k op then (k.queues .ready).head?.getD k.cur else k.cur := by
  cases op with
  | timer =>
    rcases intrTimerHandler_ok h hk with ⟨ht, hk⟩ | ⟨ht, rfl⟩
    · have hcur := requeued_cur hk
      simpa [schedules, ht, counted] using hcur
    · simp [schedules, ht, ticked, counted]
  | go =>
    cases hr : (k.task k.cur).resume with
    | none => rw [step_go_exec hr] at hk; exact exec_cur h hr hk
    | some r =>
      rw [step_go_resume hr] at hk
      cases hk
      simp only [schedules, hr]
      cases r <;> rfl
  | call c => exact enter_cur h hl hk

/-! ## On the links -/

variable {l l' : Kernel (Links Node)} {a : Kernel Queues}

theorem Stand.firstReady (h : Stand I l a) : firstReady l = (a.queues .ready).head? := by
  unfold TinyOs.Thread.firstReady
  cases hq : a.queues .ready with
  | nil => rw [h.stands.next_head ready_lists (B := []) (by rw [hq]; rfl)]; rfl
  | cons n rest => rw [h.stands.next_head ready_lists (by rw [hq]; rfl)]; rfl

theorem Stand.dispatched (h : Stand I l a) (hw : Wf I P (some a.cur) a) (hl : Legal I l op)
    (hk : TinyOs.Thread.step l op = .ok l') : l'.cur = dispatched l op := by
  have hl' := h.legal hl
  obtain ⟨a', ha, hst⟩ := (h.step hw hl').of_ok hk
  have hcur := step_cur hw hl' ha
  have hsame : schedules l op = schedules a op := by rw [h.onto]; rfl
  have hc : l'.cur = a'.cur := by rw [hst.onto]; rfl
  have hc' : l.cur = a.cur := by rw [h.onto]; rfl
  unfold TinyOs.Thread.dispatched
  rw [hc, hcur, hsame, hc', h.firstReady]

end TinyOs.Thread
