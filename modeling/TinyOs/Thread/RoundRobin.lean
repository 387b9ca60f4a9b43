/-
  TinyOs.Thread.RoundRobin — the timer alone shares the CPU by priority.

  Nothing happens but timer interrupts, and what a thread does when it is switched to.
  The handler counts the interrupt for the running thread; `schedule` is called on the
  interrupt that finds `ticks` at 0, which it still counts, so a thread with priority
  `p` is interrupted `p + 1` times in a row. `list_append` and `list_pop` make the ready
  list the ring's order, and `schedule` reloads `ticks`: the kernel follows `Turn.tick`.

  The results are about the lists in memory; only thread_ready_list is needed.
-/

import Mathlib.Algebra.BigOperators.Group.List.Basic
import Mathlib.Data.Int.ModEq
import TinyOs.Logic.Turns
import TinyOs.Thread.Refine

namespace TinyOs.Thread

open TinyOs.Kernel TinyOs.Lib TinyOs.Logic

/-! ## The ready list in memory -/

/-- In the link words `m`, thread_ready_list holds `ts`. -/
def ReadyList (m : Links Node) (ts : List Tid) : Prop := ∃ q, Stands {.ready} m q ∧ q .ready = ts

variable {m : Links Node} {ts : List Tid}

theorem ReadyList.find (h : ReadyList m ts) {n : Nat} (hn : ts.length < n) (t : Tid) :
    QueueStore.find n m .ready t = .ok (decide (t ∈ ts)) := by
  obtain ⟨q, hs, rfl⟩ := h
  exact hs.find rfl hn t

theorem ReadyList.append (h : ReadyList m ts) {t : Tid} (ht : t ∉ ts) :
    ReadyList (QueueStore.append m .ready t) (ts ++ [t]) := by
  obtain ⟨q, hs, rfl⟩ := h
  refine ⟨QueueStore.append q .ready t, hs.append rfl ?_, ?_⟩
  · intro j hj _
    cases hj
    exact ht
  · rw [queues_append, Function.update_self]

theorem ReadyList.isEmpty (h : ReadyList m ts) : QueueStore.isEmpty m .ready = ts.isEmpty := by
  obtain ⟨q, hs, rfl⟩ := h
  exact hs.isEmpty rfl

theorem ReadyList.pop {t : Tid} (h : ReadyList m (t :: ts)) :
    ∃ m', QueueStore.pop m .ready = .ok (t, m') ∧ ReadyList m' ts := by
  obtain ⟨q, hs, hq⟩ := h
  have ha := hs.pop rfl (by simp)
  rw [queues_pop hq] at ha
  cases hp : QueueStore.pop m .ready with
  | error e => rw [hp] at ha; exact ha.elim
  | ok r =>
    rw [hp] at ha
    obtain ⟨t', m'⟩ := r
    obtain ⟨he, hs'⟩ := ha
    simp only at he hs'
    subst he
    exact ⟨m', rfl, _, hs', Function.update_self ..⟩

/-! ## One interrupt -/

variable {k : Kernel (Links Node)}

/-- The interrupt counted, for the running thread and in all. -/
def countTick (k : Kernel (Links Node)) : Kernel (Links Node) :=
  { { k with intr := false }.setTask k.cur fun x => { x with elapsedTicks := (x.elapsedTicks + 1) % 2 ^ 32 } with
    ticks := (k.ticks + 1) % 2 ^ 32 }

theorem countTick_task (k : Kernel (Links Node)) (t : Tid) :
    ((countTick k).task t).priority = (k.task t).priority ∧ ((countTick k).task t).stackMagic = (k.task t).stackMagic ∧
      ((countTick k).task t).ticks = (k.task t).ticks := by
  by_cases e : t = k.cur
  · subst e
    simp [countTick]
  · simp [countTick, setTask_task, e]

/-- With one tick of the slice used up. -/
theorem usedTick_task (k : Kernel (Links Node)) (t : Tid) :
    (((countTick k).setTask k.cur fun x => { x with ticks := x.ticks - 1 }).task t).priority = (k.task t).priority ∧
      (((countTick k).setTask k.cur fun x => { x with ticks := x.ticks - 1 }).task t).stackMagic = (k.task t).stackMagic := by
  obtain ⟨hprio, hmagic, -⟩ := countTick_task k t
  rw [setTask_task]
  split
  · next e => subst e; exact ⟨hprio, hmagic⟩
  · exact ⟨hprio, hmagic⟩

/-- The running thread behind the others, `n` running, and `m` the words of the lists. -/
def handOver (n : Tid) (m : Links Node) (k : Kernel (Links Node)) : Kernel (Links Node) :=
  let k := k.setTask k.cur fun x => { x with ticks := x.priority, status := .ready, resume := some .intrExit }
  { k.setTask n fun x => { x with status := .running } with queues := m, cur := n }

theorem schedule_ready (hq : ReadyList k.queues ts) (hf : ts.length < k.fuel) (hi : k.intr = false)
    (hr : (k.task k.cur).status = .running) (hc : k.cur ∉ ts) {n : Tid} {rest : List Tid} (hn : ts ++ [k.cur] = n :: rest) :
    ∃ m, schedule .intrExit k = .ok (handOver n m k) ∧ ReadyList m rest := by
  have happ := hq.append hc
  have hempty := happ.isEmpty
  rw [hn] at happ hempty
  obtain ⟨m, hpop, hm⟩ := happ.pop
  refine ⟨m, ?_, hm⟩
  simp [schedule, requeueRunning, switchToFirst, handOver, hi, hr, hc, hempty, hpop, hq.find hf, Kernel.setTask]

theorem timer_tick (hm : (k.task k.cur).stackMagic = 0x19870916) (ht : (k.task k.cur).ticks ≠ 0) :
    intrTimerHandler k = .ok { (countTick k).setTask k.cur fun x => { x with ticks := x.ticks - 1 } with intr := true } := by
  simp [intrTimerHandler, countTick, hm, ht]

theorem timer_schedule (hm : (k.task k.cur).stackMagic = 0x19870916) (ht : (k.task k.cur).ticks = 0) :
    intrTimerHandler k = schedule .intrExit (countTick k) := by
  simp [intrTimerHandler, countTick, hm, ht]

theorem handOver_task (n : Tid) (m : Links Node) (k : Kernel (Links Node)) (t : Tid) :
    ((handOver n m k).task t).ticks = (if t = k.cur then (k.task t).priority else (k.task t).ticks) ∧
      ((handOver n m k).task t).priority = (k.task t).priority ∧
      ((handOver n m k).task t).elapsedTicks = (k.task t).elapsedTicks ∧
      ((handOver n m k).task t).stackMagic = (k.task t).stackMagic := by
  by_cases e : t = k.cur
  · subst e
    by_cases en : k.cur = n
    · subst en
      simp [handOver]
    · simp [handOver, setTask_task, en]
  · by_cases en : t = n
    · subst en
      simp [handOver, setTask_task, e]
    · simp [handOver, setTask_task, e, en]

/-! ## Runs -/

/-- The kernel, and the thread that each timer interrupt hit, the first one first. -/
structure Watched where
  k : Kernel (Links Node)
  served : List Tid

def watch (w : Watched) (op : Op) : Except Stop Watched := do
  let k ← step w.k op
  .ok ⟨k, if op = .timer then w.served ++ [w.k.cur] else w.served⟩

/-- A thread only does what it does first after it was switched to. -/
def OnlyTimer (w : Watched) : Op → Prop
  | .timer => w.k.intr = true
  | .go => (w.k.task w.k.cur).resume ≠ none
  | .call _ => False

def TickRuns (k0 : Kernel (Links Node)) : Watched → Prop := Reach (fun w => w = ⟨k0, []⟩) OnlyTimer watch

/-- `k.cur` runs and `rest` wait in this order, each with a full slice. -/
structure Ring (k : Kernel (Links Node)) (rest : List Tid) : Prop where
  ready : ReadyList k.queues rest
  distinct : (k.cur :: rest).Nodup
  created : ∀ t ∈ k.cur :: rest, t ∈ k.created
  magic : ∀ t ∈ k.cur :: rest, (k.task t).stackMagic = 0x19870916
  running : (k.task k.cur).status = .running
  full : ∀ t ∈ k.cur :: rest, (k.task t).ticks = (k.task t).priority

/-- The ticks that the counters of `ts` have gone up by. -/
def elapsed (k0 k : Kernel (Links Node)) (ts : List Tid) : Int :=
  (ts.map fun t => ((k.task t).elapsedTicks : Int) - (k0.task t).elapsedTicks).sum

variable {k0 : Kernel (Links Node)} {ring : List Tid} {s : Turn Tid}

theorem mod_uint32 (n : Nat) : ((n % 2 ^ 32 : Nat) : Int) ≡ n [ZMOD 2 ^ 32] := by
  unfold Int.ModEq
  omega

/-- One member of the ring counts one tick. -/
theorem elapsed_succ (k0 : Kernel (Links Node)) {k k' : Kernel (Links Node)} {c : Tid} {rest : List Tid} (hp : (c :: rest).Perm ring)
    (hd : c ∉ rest) (hc : (k'.task c).elapsedTicks = ((k.task c).elapsedTicks + 1) % 2 ^ 32)
    (ho : ∀ t, t ≠ c → (k'.task t).elapsedTicks = (k.task t).elapsedTicks) :
    elapsed k0 k' ring ≡ elapsed k0 k ring + 1 [ZMOD 2 ^ 32] := by
  have hsum : ∀ k1, elapsed k0 k1 ring = ((k1.task c).elapsedTicks : Int) - (k0.task c).elapsedTicks + elapsed k0 k1 rest := by
    intro k1
    unfold elapsed
    rw [← (hp.map _).sum_eq, List.map_cons, List.sum_cons]
  have hrest : elapsed k0 k' rest = elapsed k0 k rest := by
    unfold elapsed
    congr 1
    apply List.map_congr_left
    intro t ht
    rw [ho t fun e => hd (e ▸ ht)]
  have hmod : ((k'.task c).elapsedTicks : Int) ≡ (k.task c).elapsedTicks + 1 [ZMOD 2 ^ 32] := by
    rw [hc]
    exact mod_uint32 _
  rw [hsum k', hsum k, hrest]
  unfold Int.ModEq at hmod ⊢
  omega

/-- The kernel `k` while `s` is the turn, in a run from `k0`. -/
structure Follows (k0 : Kernel (Links Node)) (ring : List Tid) (k : Kernel (Links Node)) (s : Turn Tid) : Prop where
  cur : k.cur = s.cur
  ready : ReadyList k.queues s.rest
  perm : (s.cur :: s.rest).Perm ring
  left : (k.task s.cur).ticks = s.left
  running : (k.task s.cur).status = .running
  waiting : ∀ t ∈ s.rest, (k.task t).ticks = (k0.task t).priority
  prio : ∀ t, (k.task t).priority = (k0.task t).priority
  magic : ∀ t ∈ ring, (k.task t).stackMagic = 0x19870916
  created : k.created = k0.created
  others : ∀ t, t ∉ ring → k.task t = k0.task t
  total : (k.ticks : Int) - k0.ticks ≡ elapsed k0 k ring [ZMOD 2 ^ 32]

variable {rest : List Tid}

/-- A thread's slice is its priority at the start. -/
abbrev slices (k0 : Kernel (Links Node)) (t : Tid) : Nat := (k0.task t).priority

theorem Follows.cur_notMem (h : Follows k0 ring k s) (hn : ring.Nodup) : s.cur ∉ s.rest :=
  (List.nodup_cons.mp (h.perm.nodup_iff.mpr hn)).1

theorem Follows.cur_mem (h : Follows k0 ring k s) : s.cur ∈ ring := h.perm.subset (List.mem_cons_self ..)

/-- The fields of `k'` that the turn `s'` fixes, once the interrupt is counted for `s.cur` and nothing else
of the other threads' counters has changed. -/
theorem Follows.counted (h : Follows k0 ring k s) (hn : ring.Nodup) {k' : Kernel (Links Node)}
    (ht : k'.ticks = (k.ticks + 1) % 2 ^ 32)
    (hc : (k'.task s.cur).elapsedTicks = ((k.task s.cur).elapsedTicks + 1) % 2 ^ 32)
    (ho : ∀ t, t ≠ s.cur → (k'.task t).elapsedTicks = (k.task t).elapsedTicks) :
    (k'.ticks : Int) - k0.ticks ≡ elapsed k0 k' ring [ZMOD 2 ^ 32] := by
  have hsum := elapsed_succ k0 h.perm (h.cur_notMem hn) hc ho
  have htot := h.total
  unfold Int.ModEq at hsum htot ⊢
  omega

/-- The slice goes on. -/
theorem Follows.tick (h : Follows k0 ring k s) (hn : ring.Nodup) (hl : s.left ≠ 0) :
    ∃ k', intrTimerHandler k = .ok k' ∧ Follows k0 ring k' (s.tick (slices k0)) := by
  have hm := h.magic s.cur h.cur_mem
  have hleft := h.left
  have hcm := h.cur_mem
  have hnm := h.cur_notMem hn
  rw [Turn.tick_pos hl]
  refine ⟨_, timer_tick (by rw [h.cur]; exact hm) (by rw [h.cur, hleft]; exact hl), ?_⟩
  refine ⟨h.cur, h.ready, h.perm, ?_, ?_, fun t ht => ?_, fun t => ?_, fun t ht => ?_, h.created, fun t ht => ?_,
    h.counted hn rfl ?_ fun t ht => ?_⟩
  · simp [countTick, h.cur, hleft]
  · simp [countTick, h.cur, h.running]
  · have hne : t ≠ s.cur := fun e => hnm (e ▸ ht)
    simp [countTick, setTask_task, h.cur, hne, h.waiting t ht]
  · exact (usedTick_task k t).1.trans (h.prio t)
  · exact (usedTick_task k t).2.trans (h.magic t ht)
  · have hne : t ≠ s.cur := fun e => ht (e ▸ hcm)
    simp [countTick, setTask_task, h.cur, hne, h.others t ht]
  · simp [countTick, h.cur]
  · simp [countTick, setTask_task, h.cur, ht]

/-- The slice is over. -/
theorem Follows.switch (h : Follows k0 ring k s) (hn : ring.Nodup) (hf : ring.length ≤ k0.created.length)
    (hl : s.left = 0) : ∃ k', intrTimerHandler k = .ok k' ∧ Follows k0 ring k' (s.tick (slices k0)) := by
  have hcm := h.cur_mem
  have hnm := h.cur_notMem hn
  have hmem : ∀ t ∈ s.rest, t ∈ ring := fun t ht => h.perm.subset (List.mem_cons_of_mem _ ht)
  have hc : (countTick k).cur = s.cur := h.cur
  have hfuel : s.rest.length < (countTick k).fuel := by
    have hlen := h.perm.length_eq
    rw [List.length_cons] at hlen
    have : (countTick k).created.length = k0.created.length := congrArg List.length h.created
    unfold Kernel.fuel
    omega
  rw [Turn.tick_zero hl]
  have hfresh := Turn.pass_fresh (slices k0) s
  obtain ⟨m, hs, hq⟩ := schedule_ready (k := countTick k) h.ready hfuel rfl (by simp [countTick, h.cur, h.running])
    (by rw [hc]; exact hnm) (by rw [hc]; exact hfresh.ring.symm)
  have hk : intrTimerHandler k = .ok (handOver (s.pass (slices k0)).cur m (countTick k)) := by
    rw [timer_schedule (by rw [h.cur]; exact h.magic s.cur hcm) (by rw [h.cur, h.left]; exact hl)]
    exact hs
  have hfield := handOver_task (s.pass (slices k0)).cur m (countTick k)
  have hprio : ∀ t, ((countTick k).task t).priority = (k0.task t).priority :=
    fun t => (countTick_task k t).1.trans (h.prio t)
  -- behind the ring and before it: every thread but the next one waits with a full slice
  have hslice : ∀ t ∈ s.rest ++ [s.cur],
      ((handOver (s.pass (slices k0)).cur m (countTick k)).task t).ticks = (k0.task t).priority := by
    intro t ht
    rw [(hfield t).1, hc]
    by_cases e : t = s.cur
    · rw [if_pos e, hprio]
    · have hw := h.waiting t ((List.mem_append.mp ht).resolve_right (by simpa using e))
      rw [if_neg e, ← hw]
      exact (countTick_task k t).2.2
  rw [← hfresh.ring] at hslice
  refine ⟨_, hk, rfl, hq, ?_, ?_, ?_, fun t ht => ?_, fun t => ?_, fun t ht => ?_, h.created, fun t ht => ?_,
    h.counted hn rfl ?_ fun t ht => ?_⟩
  · rw [hfresh.ring]
    exact (List.perm_append_singleton s.cur s.rest).trans h.perm
  · rw [hslice _ (List.mem_cons_self ..), hfresh.left]
  · simp [handOver]
  · exact hslice t (List.mem_cons_of_mem _ ht)
  · rw [(hfield t).2.1, hprio]
  · exact (hfield t).2.2.2.trans ((countTick_task k t).2.1.trans (h.magic t ht))
  · have hne : t ≠ s.cur := fun e => ht (e ▸ hcm)
    have hnext : t ≠ (s.pass (slices k0)).cur := by
      intro e
      have hin : t ∈ s.rest ++ [s.cur] := by
        rw [← hfresh.ring, e]
        exact List.mem_cons_self ..
      rcases List.mem_append.mp hin with hin | hin
      · exact ht (hmem t hin)
      · exact hne (List.mem_singleton.mp hin)
    simp [handOver, countTick, setTask_task, h.cur, hne, hnext, h.others t ht]
  · rw [(hfield s.cur).2.2.1]
    simp [countTick, h.cur]
  · rw [(hfield t).2.2.1]
    simp [countTick, setTask_task, h.cur, ht]

/-- What a thread does first after it was switched to. -/
theorem Follows.resume (h : Follows k0 ring k s) (r : Resume) : Follows k0 ring (resumeWith r k) s := by
  have htask : ∀ t, ((resumeWith r k).task t) = if t = k.cur then { k.task t with resume := none } else k.task t := by
    intro t
    cases r <;> simp only [resumeWith, setTask_task] <;> split <;> simp_all
  have hrest : (resumeWith r k).cur = k.cur ∧ (resumeWith r k).queues = k.queues ∧ (resumeWith r k).ticks = k.ticks ∧
      (resumeWith r k).created = k.created := by
    cases r <;> exact ⟨rfl, rfl, rfl, rfl⟩
  have hfield : ∀ t, ((resumeWith r k).task t).ticks = (k.task t).ticks ∧
      ((resumeWith r k).task t).status = (k.task t).status ∧ ((resumeWith r k).task t).priority = (k.task t).priority ∧
      ((resumeWith r k).task t).stackMagic = (k.task t).stackMagic ∧
      ((resumeWith r k).task t).elapsedTicks = (k.task t).elapsedTicks := by
    intro t
    rw [htask]
    split <;> exact ⟨rfl, rfl, rfl, rfl, rfl⟩
  refine ⟨hrest.1.trans h.cur, ?_, h.perm, ?_, ?_, fun t ht => ?_, fun t => ?_, fun t ht => ?_,
    hrest.2.2.2.trans h.created, fun t ht => ?_, ?_⟩
  · rw [hrest.2.1]; exact h.ready
  · rw [(hfield _).1]; exact h.left
  · rw [(hfield _).2.1]; exact h.running
  · rw [(hfield _).1]; exact h.waiting t ht
  · rw [(hfield _).2.2.1]; exact h.prio t
  · rw [(hfield _).2.2.2.1]; exact h.magic t ht
  · have hne : t ≠ k.cur := fun e => ht (e ▸ h.cur ▸ h.cur_mem)
    rw [htask, if_neg hne]
    exact h.others t ht
  · have he : elapsed k0 (resumeWith r k) ring = elapsed k0 k ring := by
      unfold elapsed
      simp only [(hfield _).2.2.2.2]
    rw [hrest.2.2.1, he]
    exact h.total

theorem Follows.interrupt (h : Follows k0 ring k s) (hn : ring.Nodup) (hf : ring.length ≤ k0.created.length) :
    ∃ k', intrTimerHandler k = .ok k' ∧ Follows k0 ring k' (s.tick (slices k0)) := by
  by_cases hl : s.left = 0
  · exact h.switch hn hf hl
  · exact h.tick hn hl

variable {w : Watched}

theorem Ring.length_le (hr : Ring k0 rest) : (k0.cur :: rest).length ≤ k0.created.length :=
  (hr.distinct.subperm hr.created).length_le

/-- The first turn. -/
def firstTurn (k0 : Kernel (Links Node)) (rest : List Tid) : Turn Tid := ⟨k0.cur, slices k0 k0.cur, rest⟩

theorem Ring.follows (hr : Ring k0 rest) : Follows k0 (k0.cur :: rest) k0 (firstTurn k0 rest) := by
  refine ⟨rfl, hr.ready, List.Perm.refl _, hr.full _ (List.mem_cons_self ..), hr.running, fun t ht => ?_, fun _ => rfl,
    hr.magic, rfl, fun _ _ => rfl, ?_⟩
  · exact hr.full t (List.mem_cons_of_mem _ ht)
  · unfold elapsed Int.ModEq
    simp

/-- The interrupts so far are the first ticks of the ring. -/
structure InStep (k0 : Kernel (Links Node)) (rest : List Tid) (w : Watched) : Prop where
  follows : Follows k0 (k0.cur :: rest) w.k ((Turn.tick (slices k0))^[w.served.length] (firstTurn k0 rest))
  served : w.served = Turn.serves (slices k0) w.served.length (firstTurn k0 rest)

theorem tickRuns_inStep (hr : Ring k0 rest) (h : TickRuns k0 w) : InStep k0 rest w := by
  apply h.invariant (P := InStep k0 rest)
  · intro w hw
    subst hw
    exact ⟨hr.follows, rfl⟩
  · intro w w' op hi hl he
    obtain ⟨k', hk, he⟩ := bind_ok_iff.mp he
    cases he
    cases op with
    | timer =>
      obtain ⟨k1, hk1, hf⟩ := hi.follows.interrupt hr.distinct hr.length_le
      have hk : intrTimerHandler w.k = .ok k' := hk
      rw [hk] at hk1
      cases hk1
      refine ⟨?_, ?_⟩
      · simp only [if_true, List.length_append, List.length_singleton, Function.iterate_succ_apply']
        exact hf
      · simp only [if_true, List.length_append, List.length_singleton]
        rw [Turn.serves_succ, ← hi.served, hi.follows.cur]
    | go =>
      cases hres : (w.k.task w.k.cur).resume with
      | none => exact absurd hres hl
      | some r =>
        rw [step_go_resume hres] at hk
        cases hk
        exact ⟨hi.follows.resume r, hi.served⟩
    | call c => exact hl.elim

theorem firstTurn_fresh (k0 : Kernel (Links Node)) (rest : List Tid) :
    Turn.Fresh (slices k0) (k0.cur :: rest) (firstTurn k0 rest) := ⟨rfl, rfl⟩

/-- Whole rounds, each one unbroken slice of each thread in order; after a whole number of them all is as at the
start. The handler does not stop, and the counters agree at every moment. -/
theorem round_robin (hr : Ring k0 rest) (h : TickRuns k0 w) :
    (∀ n, n * Turn.span (slices k0) (k0.cur :: rest) ≤ w.served.length →
      w.served.take (n * Turn.span (slices k0) (k0.cur :: rest)) =
        (List.replicate n (Turn.round (slices k0) (k0.cur :: rest))).flatten ∧
      ∀ t ∈ k0.cur :: rest, (w.served.take (n * Turn.span (slices k0) (k0.cur :: rest))).count t =
        n * ((k0.task t).priority + 1)) ∧
      (∀ n, w.served.length = n * Turn.span (slices k0) (k0.cur :: rest) →
        w.k.cur = k0.cur ∧ ReadyList w.k.queues rest ∧ ∀ t, (w.k.task t).ticks = (k0.task t).ticks) ∧
      ((w.k.ticks : Int) - k0.ticks ≡ elapsed k0 w.k (k0.cur :: rest) [ZMOD 2 ^ 32] ∧
        ∀ t, t ∉ k0.cur :: rest → (w.k.task t).elapsedTicks = (k0.task t).elapsedTicks) ∧
      (w.k.intr = true → ∃ k', step w.k .timer = .ok k') := by
  have hi := tickRuns_inStep hr h
  have hrounds := Turn.rounds (firstTurn_fresh k0 rest)
  refine ⟨fun n hn => ?_, fun n hn => ?_, ⟨hi.follows.total, fun t ht => ?_⟩, fun _ => ?_⟩
  · have htake : w.served.take (n * Turn.span (slices k0) (k0.cur :: rest)) =
        (List.replicate n (Turn.round (slices k0) (k0.cur :: rest))).flatten := by
      obtain ⟨d, hd⟩ := Nat.exists_eq_add_of_le hn
      rw [hi.served, hd, Turn.serves_add, ← (hrounds n).1]
      exact List.take_left' (Turn.length_serves _ _)
    refine ⟨htake, fun t ht => ?_⟩
    rw [htake]
    exact Turn.count_rounds hr.distinct ht n
  · have hf := hi.follows
    rw [hn, (hrounds n).2] at hf
    refine ⟨hf.cur, hf.ready, fun t => ?_⟩
    by_cases ht : t ∈ k0.cur :: rest
    · rw [hr.full t ht]
      rcases List.mem_cons.mp ht with rfl | ht
      · exact hf.left
      · exact hf.waiting t ht
    · rw [hf.others t ht]
  · rw [hi.follows.others t ht]
  · obtain ⟨k', hk, -⟩ := hi.follows.interrupt hr.distinct hr.length_le
    exact ⟨k', hk⟩

/-! ### Two threads -/

/-- The main thread runs with priority 2, and a new thread with priority 1 waits. -/
def pair : Kernel (Links Node) where
  cur := 0xc009e000
  mainThread := 0xc009e000
  task t := if t = 0xc009e000 then ⟨.running, 2, 2, 0, 0x19870916, .run, none, fun _ => 0⟩
    else ⟨.ready, 1, 1, 0, 0x19870916, .run, some .kernelThread, fun _ => 0⟩
  queues := QueueStore.append (QueueStore.init ⟨fun _ => .null, fun _ => .null⟩ .ready) .ready 0xc0101000
  value _ := 1
  lock _ := ⟨none, 0⟩
  intr := true
  ticks := 0
  created := [0xc009e000, 0xc0101000]

theorem readyList_init (m : Links Node) : ReadyList (QueueStore.init m .ready) [] := by
  have h0 : Stands ∅ m (fun _ => []) := ⟨by simp, by simp, by simp⟩
  have h := h0.init (i := .ready) (by simp)
  rw [insert_empty_eq] at h
  exact ⟨_, h, Function.update_self ..⟩

theorem pair_ring : Ring pair [0xc0101000] where
  ready := (readyList_init _).append List.not_mem_nil
  distinct := by decide
  created := by decide
  magic := by decide
  running := by decide
  full := by decide

instance (w : Watched) (op : Op) : Decidable (OnlyTimer w op) :=
  match op with
  | .timer => inferInstanceAs (Decidable (w.k.intr = true))
  | .go => inferInstanceAs (Decidable ((w.k.task w.k.cur).resume ≠ none))
  | .call _ => inferInstanceAs (Decidable False)

def pairRound : Watched := [.timer, .timer, .timer, .go, .timer, .timer, .go].foldl (next watch) ⟨pair, []⟩

theorem pairRound_runs : TickRuns pair pairRound := Reach.script (.first rfl) (by decide +kernel)

theorem pairRound_served : pairRound.served.take 5 = [0xc009e000, 0xc009e000, 0xc009e000, 0xc0101000, 0xc0101000] :=
  ((round_robin pair_ring pairRound_runs).1 1 (by decide +kernel)).1

end TinyOs.Thread
