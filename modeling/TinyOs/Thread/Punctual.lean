/-
  TinyOs.Thread.Punctual — how many timer interrupts a ready thread waits for.

  `intr_timer_handler` takes a tick off the slice of the thread that it has interrupted;
  a thread with no tick left gives way to the first ready one, its slice filled up.
  Nothing else touches the slices (`Timing`): a thread that yields, blocks or is woken
  keeps what is left of its own.

  - `runs_punctual`: while a ready thread with `p` others before it waits, each of the
    threads dispatched takes its slice at most, so there are fewer interrupts than 256
    times the places before it, those that wake-ups have put back included.
-/

import Mathlib.Algebra.Ring.Nat
import TinyOs.Thread.Order

namespace TinyOs.Thread

open TinyOs.Kernel TinyOs.Lib TinyOs.Logic

variable {I : Set Sema} {P : Set Tid} {k k' : Kernel Queues} {op : Op}

/-! ## Clocks -/

/-- `priority` and `ticks`. -/
def Task.clock (x : Task) : Nat × Nat := (x.priority, x.ticks)

/-- After an interrupt. -/
def Task.tick (x : Task) : Nat × Nat := (x.priority, if x.ticks = 0 then x.priority else x.ticks - 1)

/-- What a step does to the clocks. -/
structure Timing (k : Kernel Queues) (op : Op) (k' : Kernel Queues) : Prop where
  kept : ∀ t ∈ k.created, (k'.task t).clock = if op = .timer ∧ t = k.cur then (k.task t).tick else (k.task t).clock
  fresh : ∀ t ∈ k'.created, t ∉ k.created → ∃ prio < 256, (k'.task t).clock = (prio, prio)
  stays : op = .timer → (k.task k.cur).ticks ≠ 0 → k'.cur = k.cur
  switches : op = .timer → (k.task k.cur).ticks = 0 → k.queues .ready ≠ [] → k'.cur ≠ k.cur

/-- The clocks stand. -/
structure Untimed (k k' : Kernel Queues) : Prop where
  clock : ∀ t, (k'.task t).clock = (k.task t).clock
  created : k'.created = k.created

theorem Untimed.timing (h : Untimed k k') (hop : op ≠ .timer) : Timing k op k' where
  kept t _ := by rw [if_neg fun e => hop e.1, h.clock]
  fresh t ht hn := absurd (h.created ▸ ht) hn
  stays e := absurd e hop
  switches e := absurd e hop

theorem Untimed.trans {k'' : Kernel Queues} (h : Untimed k k') (h' : Untimed k' k'') : Untimed k k'' :=
  ⟨fun t => (h'.clock t).trans (h.clock t), h'.created.trans h.created⟩

/-- A task changed, but for its clock. -/
theorem Untimed.one {t : Tid} {x : Task} (ht : k'.task = Function.update k.task t x) (hx : x.clock = (k.task t).clock)
    (hc : k'.created = k.created) : Untimed k k' := by
  refine ⟨fun u => ?_, hc⟩
  rw [ht]
  by_cases e : u = t
  · rw [e, Function.update_self, hx]
  · rw [Function.update_of_ne e]

theorem switchToFirst_untimed {r : Resume} (hk : switchToFirst r k = .ok k') : Untimed k k' := by
  obtain ⟨n, rest, -, rfl⟩ := switchToFirst_ok hk
  have hcur : Untimed k (k.setTask k.cur fun x => { x with resume := some r }) := .one rfl rfl rfl
  exact hcur.trans (.one rfl rfl rfl)

theorem semaDownLoop_untimed (h : Wf I P (some k.cur) k) (hi : k.intr = false) {s : Sema} (hs : s ∈ I) {old : Bool}
    (hk : semaDownLoop s old k = .ok k') : Untimed k k' := by
  rcases semaDownLoop_ok h hi hs hk with ⟨-, hk⟩ | ⟨-, rfl⟩
  · have hpc : Untimed k (k.setPc (.semaLoop s old)) := .one rfl rfl rfl
    have hstop : Untimed (k.setPc (.semaLoop s old)) (stopOn s old k) := .one rfl rfl rfl
    exact (hpc.trans hstop).trans (switchToFirst_untimed hk)
  · exact .one rfl rfl rfl

theorem semaUp_untimed (h : Wf I P (some k.cur) k) {s : Sema} (hs : s ∈ I) (hk : semaUp s k = .ok k') : Untimed k k' := by
  obtain ⟨-, ⟨-, rfl⟩ | ⟨t, ts, -, -, rfl⟩⟩ := semaUp_ok h hs hk
  · exact .one rfl rfl rfl
  · have hwoken : Untimed k (unblocked t k) := .one rfl rfl rfl
    exact hwoken.trans (.one rfl rfl rfl)

theorem exec_untimed (h : Wf I P (some k.cur) k) (hk : exec k (k.task k.cur).pc = .ok k') : Untimed k k' := by
  have hsema := (h.tasks k.cur h.curCreated).sema
  have hbump : ∀ (l : LockId) (f : Nat → Nat), Untimed k (k.setTask k.cur (bumpDepth l f)) := fun l f => .one rfl rfl rfl
  cases hpc : (k.task k.cur).pc with
  | semaDown s =>
    rw [hpc] at hk hsema
    have h0 : Wf I P (some k.cur) { k with intr := false } := intrOff_wf h
    have hu := semaDownLoop_untimed (k := { k with intr := false }) h0 rfl (hsema s rfl) hk
    exact ⟨hu.clock, hu.created⟩
  | semaLoop s old =>
    rw [hpc] at hk hsema
    exact semaDownLoop_untimed h (h.intrOff (.inr (by rw [hpc]; rfl))) (hsema s rfl) hk
  | semaUp s =>
    rw [hpc] at hk hsema
    exact semaUp_untimed h (hsema s rfl) hk
  | unblock t =>
    have hwoken : Untimed k (unblocked t k) := .one rfl rfl rfl
    rw [hpc] at hk
    rcases execUnblock_ok hk with ⟨-, rfl⟩ | ⟨-, rfl⟩
    · exact .one rfl rfl rfl
    · exact hwoken.trans (.one rfl rfl rfl)
  | acqAssert l | relAssert l | relAssertOne l =>
    rw [hpc] at hk
    obtain ⟨-, -, hk⟩ := bind_ok_iff.mp hk
    cases hk
    exact .one rfl rfl rfl
  | acqNr l | acqIncStore l nr | relDecStore l nr | relClear l =>
    rw [hpc] at hk
    cases hk
    exact (hbump l _).trans (.one rfl rfl rfl)
  | run =>
    rw [hpc] at hk
    cases hk
    exact ⟨fun _ => rfl, rfl⟩
  | acqTest l | acqHolder l | acqInc l | relTest l | relDec l | relZero l =>
    rw [hpc] at hk
    cases hk
    exact .one rfl rfl rfl

/-- No call touches the clock of a thread that is there. -/
theorem enter_timing (h : Wf I P (some k.cur) k) {c : Call} (hl : Legal I k (.call c)) (hk : enter k c = .ok k') :
    Timing k (.call c) k' := by
  obtain ⟨⟨-, -, hl⟩, -⟩ := hl
  have hop : Op.call c ≠ .timer := by
    intro e
    cases e
  cases c with
  | threadStart page prio =>
    cases page with
    | none => cases hk
    | some t =>
      have ht : t ∉ k.created := hl
      rw [threadStart_ok h ht hk]
      have hc : (started t prio k).created = k.created ++ [t] := rfl
      refine ⟨fun u hu => ?_, fun u hu hn => ?_, fun e => absurd e hop, fun e => absurd e hop⟩
      · have hne : u ≠ t := fun e => ht (e ▸ hu)
        rw [if_neg (by simp), started_task_ne hne]
      · have hut : u = t := by simpa [hc, hn] using hu
        refine ⟨prio % 256, by omega, ?_⟩
        simp [hut, started, threadCreate, initThread, Kernel.setTask, Task.clock]
  | threadYield =>
    have hk : threadYield k = .ok k' := hk
    rw [threadYield_eq h] at hk
    have hback : Untimed k (requeue false { k with intr := false }) := .one rfl rfl rfl
    exact (hback.trans (switchToFirst_untimed hk)).timing hop
  | threadBlock stat =>
    obtain ⟨-, hk⟩ := threadBlock_ok hk
    have hstop : Untimed k (stop stat k) := .one rfl rfl rfl
    exact (hstop.trans (switchToFirst_untimed hk)).timing hop
  | threadUnblock t =>
    rw [enterUnblock_ok hk]
    exact Untimed.timing (.one rfl rfl rfl) hop
  | semaDown n | semaUp n | lockAcquire l | lockRelease l =>
    cases hk
    exact Untimed.timing (.one rfl rfl rfl) hop
  | intrEnable | intrDisable =>
    cases hk
    exact Untimed.timing ⟨fun _ => rfl, rfl⟩ hop

theorem intrTimerHandler_timing (h : Wf I P (some k.cur) k) (hk : intrTimerHandler k = .ok k') : Timing k .timer k' := by
  rcases intrTimerHandler_ok h hk with ⟨h0, hk⟩ | ⟨h0, rfl⟩
  · have hun := switchToFirst_untimed hk
    obtain ⟨n, rest, hq, hk'⟩ := switchToFirst_ok hk
    refine ⟨fun t ht => ?_, fun t ht hn => absurd (hun.created ▸ ht) hn, fun _ hne => absurd h0 hne, fun _ _ hr => ?_⟩
    · rw [hun.clock]
      by_cases e : t = k.cur
      · rw [if_pos ⟨rfl, e⟩, e]
        simp [requeue, counted, Kernel.setTask, Task.clock, Task.tick, h0]
      · rw [if_neg fun e' => e e'.2]
        simp [requeue, counted, Kernel.setTask, Task.clock, e]
    · -- the first of the ready list is not the running thread
      have hfirst : k.queues .ready ++ [k.cur] = n :: rest := by simpa [requeue, counted, Kernel.setTask] using hq
      obtain ⟨a, as, hl⟩ := List.exists_cons_of_ne_nil hr
      rw [hl, List.cons_append, List.cons.injEq] at hfirst
      rintro e
      apply h.cur_not_ready
      rw [← e, hk', hl, ← hfirst.1]
      exact List.mem_cons_self
  · refine ⟨fun t ht => ?_, fun t ht hn => absurd ht hn, fun _ _ => rfl, fun _ e => absurd e h0⟩
    by_cases e : t = k.cur
    · rw [if_pos ⟨rfl, e⟩, e]
      simp [ticked, counted, Kernel.setTask, Task.clock, Task.tick, h0]
    · rw [if_neg fun e' => e e'.2]
      simp [ticked, counted, Kernel.setTask, Task.clock, e]

theorem step_timing (h : Wf I P (some k.cur) k) (hl : Legal I k op) (hk : TinyOs.Thread.step k op = .ok k') : Timing k op k' := by
  cases op with
  | timer => exact intrTimerHandler_timing h hk
  | go =>
    cases hr : (k.task k.cur).resume with
    | none =>
      rw [step_go_exec hr] at hk
      exact (exec_untimed h hk).timing nofun
    | some r =>
      rw [step_go_resume hr] at hk
      cases hk
      have hresume : Untimed k (resumeWith r k) := by cases r <;> exact .one rfl rfl rfl
      exact hresume.timing nofun
  | call c => exact enter_timing h hl hk

theorem Timing.priority (m : Timing k op k') {t : Tid} (ht : t ∈ k.created) : (k'.task t).priority = (k.task t).priority := by
  have hclock := congrArg Prod.fst (m.kept t ht)
  split at hclock <;> exact hclock

theorem Timing.left (m : Timing k op k') {t : Tid} (ht : t ∈ k.created) : (k'.task t).ticks =
    if op = .timer ∧ t = k.cur then (if (k.task t).ticks = 0 then (k.task t).priority else (k.task t).ticks - 1)
    else (k.task t).ticks := by
  have hkept := m.kept t ht
  by_cases e : op = .timer ∧ t = k.cur
  · rw [if_pos e] at hkept ⊢
    exact congrArg Prod.snd hkept
  · rw [if_neg e] at hkept ⊢
    exact congrArg Prod.snd hkept

/-! ## Runs -/

/-- Slices are no longer than the priority, which is one byte. -/
def Sliced (a : Kernel Queues) : Prop := ∀ t ∈ a.created, (a.task t).priority < 256 ∧ (a.task t).ticks ≤ (a.task t).priority

theorem Sliced.step (h : Sliced k) (m : Timing k op k') : Sliced k' := by
  intro t ht
  by_cases hn : t ∈ k.created
  · obtain ⟨hp, htk⟩ := h t hn
    rw [m.priority hn, m.left hn]
    refine ⟨hp, ?_⟩
    split
    · split <;> omega
    · exact htk
  · obtain ⟨prio, hlt, hclock⟩ := m.fresh t ht hn
    rw [show (k'.task t).priority = prio from congrArg Prod.fst hclock,
      show (k'.task t).ticks = prio from congrArg Prod.snd hclock]
    exact ⟨hlt, Nat.le_refl _⟩

theorem Runs.sliced {F : (Sema → Nat) → (LockId → Lock) → Prop} {E : Task → Op → Prop} {l : Kernel (Links Node)}
    (h : Runs I F E l) : ∃ a, Stand I l a ∧ Wf I ∅ (some a.cur) a ∧ Sliced a := by
  refine h.invariant (fun k0 _ => ?_) fun a a' op hw hs hl _ hk => hs.step (step_timing hw hl hk)
  intro t ht
  have e : t = k0.cur := List.mem_singleton.mp ht
  rw [e, booted_task]
  decide

/-- The slices of the threads in `ts`, in interrupts. -/
def slicesOf {σ : Type} (k : Kernel σ) (ts : List Tid) : Nat := (ts.map fun t => (k.task t).priority + 1).sum

/-- What has been counted since `a0`. -/
structure Timekept (a0 : Kernel Queues) (w : Traced) (a : Kernel Queues) : Prop where
  grown : ∀ t ∈ a0.created, t ∈ a.created
  dispatched : ∀ t ∈ w.dispatched, t ∈ a.created
  sliced : Sliced a
  spent : ∀ t ∈ a0.queues .ready, t ∉ w.dispatched →
    w.interrupted.length + (a.task a.cur).ticks ≤ (a0.task a0.cur).ticks + slicesOf a w.dispatched

theorem Timekept.start {k0 : Kernel (Links Node)} {a0 : Kernel Queues} (h : Sliced a0) : Timekept a0 (Traced.start k0) a0 where
  grown _ h := h
  dispatched := nofun
  sliced := h
  spent _ _ _ := by simp [Traced.start, slicesOf]

theorem slicesOf_append {σ : Type} (k : Kernel σ) (ts us : List Tid) : slicesOf k (ts ++ us) = slicesOf k ts + slicesOf k us := by
  unfold slicesOf
  rw [List.map_append, List.sum_append]

theorem Timing.slicesOf (m : Timing k op k') {ts : List Tid} (h : ∀ t ∈ ts, t ∈ k.created) : slicesOf k' ts = slicesOf k ts := by
  unfold TinyOs.Thread.slicesOf
  rw [List.map_congr_left fun t ht => by rw [m.priority (h t ht)]]

theorem Sliced.slicesOf_le (h : Sliced k) {ts : List Tid} (hts : ∀ t ∈ ts, t ∈ k.created) : slicesOf k ts ≤ 256 * ts.length := by
  induction ts with
  | nil => exact Nat.zero_le _
  | cons t ts ih =>
    obtain ⟨hlt, -⟩ := h t (hts t List.mem_cons_self)
    have hrest := ih fun u hu => hts u (List.mem_cons_of_mem _ hu)
    have hcons : TinyOs.Thread.slicesOf k (t :: ts) = (k.task t).priority + 1 + TinyOs.Thread.slicesOf k ts := List.sum_cons
    rw [hcons, List.length_cons]
    omega

variable {a0 a a' : Kernel Queues} {w : Traced} {l : Kernel (Links Node)}

/-- No thread runs longer than its slice while another one is ready. -/
theorem Timekept.spend (h : Timekept a0 w a) (m : Timing a op a') (hs' : Sliced a') (hcur : a.cur ∈ a.created)
    (hcur' : a'.cur ∈ a'.created) (hready : a.queues .ready ≠ []) {t : Tid} (ht : t ∈ a0.queues .ready) (hnot : t ∉ w.dispatched) :
    w.interrupted.length + (if op = .timer then 1 else 0) + (a'.task a'.cur).ticks ≤ (a0.task a0.cur).ticks +
      slicesOf a w.dispatched + if a'.cur = a.cur then 0 else (a'.task a'.cur).priority + 1 := by
  have hspent := h.spent t ht hnot
  have hle := (hs' _ hcur').2
  by_cases e : a'.cur = a.cur
  · have hleft := m.left hcur
    rw [if_pos e, e, hleft]
    by_cases hop : op = .timer
    · have hne : (a.task a.cur).ticks ≠ 0 := fun h0 => m.switches hop h0 hready e
      rw [if_pos hop, if_pos ⟨hop, rfl⟩, if_neg hne]
      omega
    · rw [if_neg hop, if_neg fun e' => hop e'.1]
      omega
  · rw [if_neg e]
    by_cases hop : op = .timer
    · have h0 : (a.task a.cur).ticks = 0 := by
        by_contra hne
        exact e (m.stays hop hne)
      rw [if_pos hop]
      omega
    · rw [if_neg hop]
      omega

theorem Timekept.record (h : Timekept a0 w a) (hv : Served I a0 w a) (hst : Stand I w.k a) (hst' : Stand I l a')
    (hw : Wf I ∅ (some a.cur) a) (hw' : Wf I ∅ (some a'.cur) a') (hl : Legal I a op)
    (hk : TinyOs.Thread.step a op = .ok a') : Timekept a0 (w.record op l) a' := by
  have m := step_timing hw hl hk
  have hf := (step_effect hw hl hk).1.created
  have hc := hst.fields.1
  have hc' := hst'.fields.1
  have hs' := h.sliced.step m
  refine ⟨fun t ht => hf t (h.grown t ht), fun t ht => ?_, hs', fun t ht hnot => ?_⟩
  · rcases List.mem_append.mp ht with ht | ht
    · exact hf t (h.dispatched t ht)
    · split at ht
      · cases ht
      · rw [List.mem_singleton.mp ht, hc']
        exact hw'.curCreated
  · simp only [Traced.record, List.mem_append, not_or] at hnot
    obtain ⟨p, hp⟩ := List.getElem?_of_mem ht
    obtain ⟨q, hq, -⟩ := hv.forward t p hp hnot.1
    have hready : a.queues .ready ≠ [] := fun e => by simp [e] at hq
    have hspend := h.spend m hs' hw.curCreated hw'.curCreated hready ht hnot.1
    simp only [Traced.record, List.length_append, hc, hc', slicesOf_append, m.slicesOf h.dispatched]
    have hone : (if op = .timer then [a.cur] else []).length = if op = .timer then 1 else 0 := by split <;> rfl
    have hlast : slicesOf a' (if a'.cur = a.cur then [] else [a'.cur]) =
        if a'.cur = a.cur then 0 else (a'.task a'.cur).priority + 1 := by split <;> rfl
    rw [hone, hlast]
    omega

variable {F : (Sema → Nat) → (LockId → Lock) → Prop} {E : Task → Op → Prop} {k0 : Kernel (Links Node)}

theorem Traced.Since.timekept (hr : Runs I F E k0) (h : Traced.Since I E k0 w) :
    ∃ a0 a, Stand I k0 a0 ∧ Wf I ∅ (some a0.cur) a0 ∧ Stand I w.k a ∧ Wf I ∅ (some a.cur) a ∧ Sliced a0 ∧
      Served I a0 w a ∧ Timekept a0 w a := by
  obtain ⟨a0, hst0, hw0, hs0⟩ := hr.sliced
  obtain ⟨a, hst, hw, hv, hk⟩ := h.invariant (Q := fun w a => Served I a0 w a ∧ Timekept a0 w a) hst0 hw0
    ⟨Served.start I k0 a0, .start hs0⟩ fun _ _ _ _ _ hq hst hst' hw hw' hl hk =>
      ⟨hq.1.record hw hw' hl hk hst hst', hq.2.record hq.1 hst hst' hw hw' hl hk⟩
  exact ⟨a0, a, hst0, hw0, hst, hw, hs0, hv, hk⟩

/-- Two new threads behind the main thread, of priority 1 and 2. -/
def queued : List Op := [.call .intrEnable, .call (.threadStart (some 0xc0101000) 1), .call (.threadStart (some 0xc0102000) 2)]

theorem queued_runs : Runs {.free 0} (fun _ _ => True) (fun _ _ => True) (after queued) := after_runs trivial (by decide +kernel)

/-- The slice of the main thread, and the first new thread up to its last tick. -/
def sliced : List Op := List.replicate 32 .timer ++ [.go, .timer]

def afterSliced : Traced := sliced.foldl (next Traced.step) (Traced.start (after queued))

theorem afterSliced_since : Traced.Since {.free 0} (fun _ _ => True) (after queued) afterSliced :=
  Reach.script (.first rfl) (by decide +kernel)

/-- A thread that is ready, with `p` others before it, and has not been dispatched since: no more interrupts have come
    than the slices of the threads that were. -/
theorem runs_punctual (hr : Runs I F E k0) (h : Traced.Since I E k0 w) : ∃ ts0 ts, InOrder I ∅ k0 ts0 ∧ InOrder I ∅ w.k ts ∧
    ∀ t p, (ts0 .ready)[p]? = some t → t ∉ w.dispatched →
      w.interrupted.length ≤ (k0.task k0.cur).ticks + slicesOf w.k w.dispatched ∧
      w.interrupted.length < 256 * (p + w.wakes.length + 1) := by
  obtain ⟨a0, a, hst0, hw0, hst, hw, hs0, hv, hk⟩ := h.timekept hr
  refine ⟨a0.queues, a.queues, hst0.inOrder hw0, hst.inOrder hw, fun t p hp hnot => ?_⟩
  obtain ⟨q, -, hlen⟩ := hv.forward t p hp hnot
  have hspent := hk.spent t (List.mem_of_getElem? hp) hnot
  have hslices := hk.sliced.slicesOf_le hk.dispatched
  obtain ⟨hlt, hle⟩ := hs0 _ hw0.curCreated
  have htask : slicesOf w.k w.dispatched = slicesOf a w.dispatched := by
    unfold slicesOf
    rw [hst.fields.2.2.1]
  rw [hst0.fields.2.2.1, hst0.fields.1, htask]
  constructor <;> omega

/-- No interrupt fewer. -/
example : afterSliced.interrupted.length = 33 ∧ ((after queued).task (after queued).cur).ticks = 31 ∧
    slicesOf afterSliced.k afterSliced.dispatched = 2 := by decide +kernel

theorem afterSliced_punctual : ∃ ts0 ts, InOrder {.free 0} ∅ (after queued) ts0 ∧ InOrder {.free 0} ∅ afterSliced.k ts ∧
    ∀ t p, (ts0 .ready)[p]? = some t → t ∉ afterSliced.dispatched →
      afterSliced.interrupted.length ≤ ((after queued).task (after queued).cur).ticks + slicesOf afterSliced.k afterSliced.dispatched ∧
      afterSliced.interrupted.length < 256 * (p + afterSliced.wakes.length + 1) :=
  runs_punctual queued_runs afterSliced_since

end TinyOs.Thread
