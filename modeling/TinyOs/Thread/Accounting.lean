/-
  TinyOs.Thread.Accounting — the timer interrupts of a run, counted.

  `intr_timer_handler` counts an interrupt in `ticks` and in the `elapsed_ticks` of the
  thread that it has met, and `init_thread` sets these to 0; no other statement writes
  either. The order of the lists does not matter: `runs_accounted` is about all runs,
  those too in which `thread_unblock` goes on for a thread that has stopped again.
-/

import Mathlib.Data.Nat.ModEq
import TinyOs.Thread.InOrder

namespace TinyOs.Thread

open TinyOs.Kernel TinyOs.Lib TinyOs.Logic

/-- What is counted. -/
inductive Charge where
  /-- An interrupt, met by `t`. -/
  | tick (t : Tid)
  /-- `t` is the page of a new thread. -/
  | start (t : Tid)
  deriving DecidableEq, Repr

def Charge.isTick : Charge → Bool
  | .tick _ => true
  | .start _ => false

variable {σ : Type}

def Op.charges (k : Kernel σ) : Op → List Charge
  | .timer => [.tick k.cur]
  | .call (.threadStart (some t) _) => [.start t]
  | _ => []

/-- A kernel and its charges, the latest first. No code reads these. -/
structure Metered where
  k : Kernel (Links Node)
  charges : List Charge

namespace Metered

def step (w : Metered) (op : Op) : Except Stop Metered := do
  let k ← TinyOs.Thread.step w.k op
  .ok ⟨k, op.charges w.k ++ w.charges⟩

/-- The runs from `k0` on. -/
def Since (I : Set Sema) (k0 : Kernel (Links Node)) : Metered → Prop :=
  Reach (fun w => w = ⟨k0, []⟩) (fun w op => Allowed I w.k op) step

end Metered

/-- What `t` has been charged: since it was started, if it was, or else on top of `base`. -/
def charged (t : Tid) (base : Nat) : List Charge → Nat
  | [] => base
  | .tick u :: cs => charged t base cs + if u = t then 1 else 0
  | .start u :: cs => if u = t then 0 else charged t base cs

variable {k k' : Kernel σ} {op : Op} {r : Resume} {s : Sema} {old : Bool} {t : Tid} {base : Nat}

/-! ## Charges -/

theorem charged_append (cs cs' : List Charge) : charged t base (cs ++ cs') = charged t (charged t base cs') cs := by
  induction cs with
  | nil => rfl
  | cons c cs ih => cases c <;> simp [charged, ih]

theorem charged_modEq {base' : Nat} (h : base ≡ base' [MOD 2 ^ 32]) (cs : List Charge) :
    charged t base cs ≡ charged t base' cs [MOD 2 ^ 32] := by
  induction cs with
  | nil => exact h
  | cons c cs ih =>
    cases c with
    | tick u => exact ih.add_right _
    | start u =>
      unfold charged
      split
      · rfl
      · exact ih

/-- A thread that has not been started. -/
theorem charged_of_notMem {cs : List Charge} (h : .start t ∉ cs) : charged t base cs = base + cs.count (.tick t) := by
  induction cs with
  | nil => rfl
  | cons c cs ih =>
    rw [List.mem_cons, not_or] at h
    obtain ⟨hc, hcs⟩ := h
    cases c with
    | tick u =>
      rw [charged, ih hcs, List.count_cons, Nat.add_assoc]
      simp
    | start u =>
      have hne : u ≠ t := fun e => hc (congrArg Charge.start e.symm)
      rw [charged, if_neg hne, ih hcs, List.count_cons_of_ne (by simp)]

/-! ## Nothing counted -/

structure Uncharged (k k' : Kernel σ) : Prop where
  elapsed : ∀ t, (k'.task t).elapsedTicks = (k.task t).elapsedTicks
  ticks : k'.ticks = k.ticks

theorem Uncharged.trans {k'' : Kernel σ} (h : Uncharged k k') (h' : Uncharged k' k'') : Uncharged k k'' :=
  ⟨fun t => (h'.elapsed t).trans (h.elapsed t), h'.ticks.trans h.ticks⟩

/-- A task changed, but for its count. -/
theorem Uncharged.one {x : Task} (ht : k'.task = Function.update k.task t x)
    (hx : x.elapsedTicks = (k.task t).elapsedTicks) (hn : k'.ticks = k.ticks) : Uncharged k k' := by
  refine ⟨fun u => ?_, hn⟩
  rw [ht]
  by_cases e : u = t
  · rw [e, Function.update_self, hx]
  · rw [Function.update_of_ne e]

/-- No task changed. -/
theorem Uncharged.same (ht : k'.task = k.task) (hn : k'.ticks = k.ticks) : Uncharged k k' := ⟨fun t => by rw [ht], hn⟩

/-- A step's charges, in the counters. -/
structure Counts (k k' : Kernel σ) (cs : List Charge) : Prop where
  elapsed : ∀ t, (k'.task t).elapsedTicks ≡ charged t (k.task t).elapsedTicks cs [MOD 2 ^ 32]
  ticks : k'.ticks ≡ k.ticks + cs.countP Charge.isTick [MOD 2 ^ 32]

theorem Counts.trans {k'' : Kernel σ} {cs cs' : List Charge} (h : Counts k k' cs) (h' : Counts k' k'' cs') :
    Counts k k'' (cs' ++ cs) where
  elapsed t := by
    rw [charged_append]
    exact (h'.elapsed t).trans (charged_modEq (h.elapsed t) cs')
  ticks := by
    rw [List.countP_append, Nat.add_comm (cs'.countP _), ← Nat.add_assoc]
    exact h'.ticks.trans (h.ticks.add_right _)

theorem Uncharged.counts (h : Uncharged k k') : Counts k k' [] :=
  ⟨fun t => by rw [h.elapsed]; rfl, by rw [h.ticks]; rfl⟩

variable [QueueStore σ]

theorem requeueRunning_uncharged (h : requeueRunning k = .ok k') : Uncharged k k' := by
  unfold requeueRunning at h
  split at h
  · obtain ⟨found, -, h⟩ := bind_ok_iff.mp h
    obtain ⟨-, -, h⟩ := bind_ok_iff.mp h
    cases h
    exact .one rfl rfl rfl
  · cases h
    exact .same rfl rfl

theorem switchToFirst_uncharged (h : switchToFirst r k = .ok k') : Uncharged k k' := by
  obtain ⟨-, -, h⟩ := bind_ok_iff.mp h
  obtain ⟨⟨next, queues⟩, -, h⟩ := bind_ok_iff.mp h
  cases h
  have hcur : Uncharged k (k.setTask k.cur fun x => { x with resume := some r }) := .one rfl rfl rfl
  exact hcur.trans (.one rfl rfl rfl)

theorem schedule_uncharged (h : schedule r k = .ok k') : Uncharged k k' := by
  obtain ⟨-, -, h⟩ := bind_ok_iff.mp h
  obtain ⟨k1, h1, h⟩ := bind_ok_iff.mp h
  exact (requeueRunning_uncharged h1).trans (switchToFirst_uncharged h)

theorem threadBlock_uncharged {stat : TaskStatus} (h : threadBlock stat k = .ok k') : Uncharged k k' := by
  obtain ⟨-, -, h⟩ := bind_ok_iff.mp h
  have hstop : Uncharged k (({ k with intr := false } : Kernel σ).setTask k.cur fun x => { x with status := stat }) :=
    .one rfl rfl rfl
  exact hstop.trans (schedule_uncharged h)

theorem threadYield_uncharged (h : threadYield k = .ok k') : Uncharged k k' := by
  obtain ⟨found, -, h⟩ := bind_ok_iff.mp h
  obtain ⟨-, -, h⟩ := bind_ok_iff.mp h
  refine Uncharged.trans ?_ (schedule_uncharged h)
  exact .one rfl rfl rfl

theorem wakeUp_uncharged (h : wakeUp t k = .ok k') : Uncharged k k' := by
  obtain ⟨k1, h1, h⟩ := bind_ok_iff.mp h
  cases h
  split at h1
  · obtain ⟨found, -, h1⟩ := bind_ok_iff.mp h1
    obtain ⟨-, -, h1⟩ := bind_ok_iff.mp h1
    obtain ⟨found', -, h1⟩ := bind_ok_iff.mp h1
    obtain ⟨-, -, h1⟩ := bind_ok_iff.mp h1
    cases h1
    exact .one rfl rfl rfl
  · cases h1
    exact .same rfl rfl

theorem threadUnblock_uncharged (h : threadUnblock t k = .ok k') : Uncharged k k' := by
  obtain ⟨-, -, h⟩ := bind_ok_iff.mp h
  exact wakeUp_uncharged h

/-! ## Statements -/

theorem semaDownLoop_uncharged (h : semaDownLoop s old k = .ok k') : Uncharged k k' := by
  unfold semaDownLoop at h
  split at h
  · obtain ⟨found, -, h⟩ := bind_ok_iff.mp h
    obtain ⟨-, -, h⟩ := bind_ok_iff.mp h
    obtain ⟨found', -, h⟩ := bind_ok_iff.mp h
    obtain ⟨-, -, h⟩ := bind_ok_iff.mp h
    refine Uncharged.trans ?_ (threadBlock_uncharged h)
    exact .one rfl rfl rfl
  · obtain ⟨-, -, h⟩ := bind_ok_iff.mp h
    cases h
    exact .one rfl rfl rfl

theorem semaDown_uncharged (h : semaDown s k = .ok k') : Uncharged k k' := by
  have hloop := semaDownLoop_uncharged h
  exact ⟨hloop.elapsed, hloop.ticks⟩

theorem semaUp_uncharged (h : semaUp s k = .ok k') : Uncharged k k' := by
  obtain ⟨-, -, h⟩ := bind_ok_iff.mp h
  obtain ⟨k1, h1, h⟩ := bind_ok_iff.mp h
  obtain ⟨-, -, h⟩ := bind_ok_iff.mp h
  cases h
  have hwoken : Uncharged k k1 := by
    split at h1
    · obtain ⟨⟨t, queues⟩, -, h1⟩ := bind_ok_iff.mp h1
      have hun := threadUnblock_uncharged h1
      exact ⟨hun.elapsed, hun.ticks⟩
    · cases h1
      exact .same rfl rfl
  exact hwoken.trans (.one rfl rfl rfl)

theorem exec_uncharged {pc : Pc} (h : exec k pc = .ok k') : Uncharged k k' := by
  have hbump : ∀ (l : LockId) (f : Nat → Nat), Uncharged k (k.setTask k.cur (bumpDepth l f)) := fun l f => .one rfl rfl rfl
  cases pc with
  | semaDown s => exact semaDown_uncharged h
  | semaLoop s old => exact semaDownLoop_uncharged h
  | semaUp s => exact semaUp_uncharged h
  | unblock t =>
    obtain ⟨k1, h1, h⟩ := bind_ok_iff.mp h
    cases h
    exact (wakeUp_uncharged h1).trans (.one rfl rfl rfl)
  | acqAssert l | relAssert l | relAssertOne l =>
    obtain ⟨-, -, h⟩ := bind_ok_iff.mp h
    cases h
    exact .one rfl rfl rfl
  | acqNr l | acqIncStore l nr | relDecStore l nr | relClear l =>
    cases h
    exact (hbump l _).trans (.one rfl rfl rfl)
  | run =>
    cases h
    exact .same rfl rfl
  | acqTest l | acqHolder l | acqInc l | relTest l | relDec l | relZero l =>
    cases h
    exact .one rfl rfl rfl

/-! ## What a step counts -/

theorem intrTimerHandler_counts (h : intrTimerHandler k = .ok k') : Counts k k' [.tick k.cur] := by
  obtain ⟨-, -, h⟩ := bind_ok_iff.mp h
  -- the two counters go up, then the slice is spent or the thread switched out
  have hcount : Uncharged { k with
      task := Function.update k.task k.cur { k.task k.cur with elapsedTicks := ((k.task k.cur).elapsedTicks + 1) % 2 ^ 32 }
      ticks := (k.ticks + 1) % 2 ^ 32 } k' := by
    simp only at h
    split at h
    · have hsched := schedule_uncharged h
      exact ⟨hsched.elapsed, hsched.ticks⟩
    · cases h
      exact .one rfl rfl rfl
  refine ⟨fun t => ?_, ?_⟩
  · rw [hcount.elapsed]
    show (Function.update k.task k.cur _ t).elapsedTicks ≡ (k.task t).elapsedTicks + (if k.cur = t then 1 else 0) [MOD 2 ^ 32]
    by_cases e : k.cur = t
    · rw [if_pos e, ← e, Function.update_self]
      exact Nat.mod_modEq _ _
    · rw [if_neg e, Function.update_of_ne (Ne.symm e)]
      rfl
  · rw [hcount.ticks]
    exact Nat.mod_modEq _ _

theorem threadStart_counts {prio : Nat} (h : threadStart (some t) prio k = .ok k') : Counts k k' [.start t] := by
  obtain ⟨found, -, h⟩ := bind_ok_iff.mp h
  obtain ⟨-, -, h⟩ := bind_ok_iff.mp h
  obtain ⟨found', -, h⟩ := bind_ok_iff.mp h
  obtain ⟨-, -, h⟩ := bind_ok_iff.mp h
  cases h
  refine ⟨fun u => ?_, rfl⟩
  by_cases e : t = u
  · simp [e, charged, threadCreate, initThread, Kernel.setTask, Nat.ModEq]
  · simp [e, Ne.symm e, charged, threadCreate, initThread, Kernel.setTask, Nat.ModEq]

theorem step_counts (h : step k op = .ok k') : Counts k k' (op.charges k) := by
  cases op with
  | timer => exact intrTimerHandler_counts h
  | go =>
    cases hr : (k.task k.cur).resume with
    | none =>
      rw [step_go_exec hr] at h
      exact (exec_uncharged h).counts
    | some r =>
      rw [step_go_resume hr] at h
      cases h
      have hres : Uncharged k (resumeWith r k) := by cases r <;> exact .one rfl rfl rfl
      exact hres.counts
  | call c =>
    cases c with
    | threadStart page prio =>
      cases page with
      | none => cases h
      | some t => exact threadStart_counts h
    | threadYield => exact (threadYield_uncharged h).counts
    | threadBlock stat => exact (threadBlock_uncharged h).counts
    | threadUnblock t =>
      obtain ⟨-, -, h⟩ := bind_ok_iff.mp h
      cases h
      exact Uncharged.counts (.one rfl rfl rfl)
    | semaDown n | semaUp n | lockAcquire l | lockRelease l =>
      cases h
      exact Uncharged.counts (.one rfl rfl rfl)
    | intrEnable | intrDisable =>
      cases h
      exact Uncharged.counts (.same rfl rfl)

/-! ## Runs -/

theorem Metered.Since.counts {I : Set Sema} {k0 : Kernel (Links Node)} {w : Metered} (h : Metered.Since I k0 w) :
    Counts k0 w.k w.charges := by
  refine Reach.invariant (P := fun w => Counts k0 w.k w.charges) ?_ ?_ h
  · rintro w rfl
    exact ⟨fun _ => rfl, rfl⟩
  · intro w w' op hw _ he
    obtain ⟨k, hk, he⟩ := bind_ok_iff.mp he
    cases he
    exact hw.trans (step_counts hk)

/-- Every interrupt is charged to the thread that it has met, and to no other; a new thread begins at 0. -/
theorem runs_accounted {I : Set Sema} {k0 : Kernel (Links Node)} {w : Metered} (h : Metered.Since I k0 w) :
    (∀ t, .start t ∉ w.charges → (w.k.task t).elapsedTicks ≡ (k0.task t).elapsedTicks + w.charges.count (.tick t) [MOD 2 ^ 32]) ∧
    (∀ t since before, w.charges = since ++ .start t :: before → .start t ∉ since →
      (w.k.task t).elapsedTicks ≡ since.count (.tick t) [MOD 2 ^ 32]) ∧
    w.k.ticks ≡ k0.ticks + w.charges.countP Charge.isTick [MOD 2 ^ 32] := by
  have hc := h.counts
  refine ⟨fun t ht => ?_, fun t since before hw ht => ?_, hc.ticks⟩
  · rw [← charged_of_notMem ht]
    exact hc.elapsed t
  · have helapsed := hc.elapsed t
    rw [hw, charged_append, charged_of_notMem ht, charged, if_pos rfl, Nat.zero_add] at helapsed
    exact helapsed

/-- A thread sleeps, one is late to wake it, and both lists are out of order at the end. -/
def lateRun : List Op := overslept ++ [.go, .call .intrEnable, .timer]

def afterLate : Metered := lateRun.foldl (next Metered.step) ⟨after [], []⟩

theorem afterLate_since : Metered.Since {.free 0} (after []) afterLate := Reach.script (.first rfl) (by decide +kernel)

example : afterLate.charges = [.tick 0xc0101000, .tick 0xc0101000, .start 0xc0102000, .start 0xc0101000] := by decide +kernel

theorem afterLate_accounted : (afterLate.k.task 0xc0101000).elapsedTicks ≡ 2 [MOD 2 ^ 32] ∧
    afterLate.k.ticks ≡ 0 + 2 [MOD 2 ^ 32] := by
  obtain ⟨-, hstarted, hticks⟩ := runs_accounted afterLate_since
  have hlog : afterLate.charges = [.tick 0xc0101000, .tick 0xc0101000, .start 0xc0102000] ++ .start 0xc0101000 :: [] := by
    decide +kernel
  have h1 := hstarted 0xc0101000 _ _ hlog (by decide)
  rw [hlog] at hticks
  exact ⟨h1, hticks⟩

end TinyOs.Thread
