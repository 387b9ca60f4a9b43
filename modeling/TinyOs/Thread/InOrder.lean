/-
  TinyOs.Thread.InOrder — the scheduler's lists in memory, over all runs.

  `InOrder`: exactly the current thread is TASK_RUNNING, the ready list links exactly the
  TASK_READY tasks, a waiters list exactly the tasks blocked on its semaphore,
  thread_all_list every task, each once, and no `general_tag` is linked twice.

  - `runs_inOrder`: so it is after every step of every run from `threads_init` on in which
    no `thread_unblock` goes on for a thread that has stopped in `sema_down` since its
    ASSERT; the checks by `elem_find` never fail, and the first step that breaks the order
    is such a one.
  - `late_out_of_order`: a run with one. The woken thread waits for a semaphore, and its
    tag is put on the ready list without being taken off the waiters list.
-/

import TinyOs.Thread.Refine

namespace TinyOs.Thread

open TinyOs.Kernel TinyOs.Lib TinyOs.Logic

/-- The ASSERTs and the PANIC on the answer of `elem_find`. -/
def findSites : List Site :=
  [.makeMainFind, .startReadyFind, .startAllFind, .scheduleFind, .unblockFind, .unblockPanic, .yieldFind, .semaDownFind,
    .semaDownPanic]

/-- The lists of `k` link the tasks `ts` says, and these are the ones the statuses call for.
    The tasks of `P` are not yet on thread_all_list. -/
structure InOrder (I : Set Sema) (P : Set Tid) (k : Kernel (Links Node)) (ts : Qid → List Tid) : Prop where
  linked : ∀ i ∈ lists I, IsList k.queues i.plist ((ts i).map i.node)
  nodup : ∀ i ∈ lists I, (ts i).Nodup
  curCreated : k.cur ∈ k.created
  running : ∀ t ∈ k.created, (k.task t).status = .running ↔ t = k.cur
  ready : ∀ t, t ∈ ts .ready ↔ t ∈ k.created ∧ (k.task t).status = .ready
  waiting : ∀ s ∈ I, ∀ t, t ∈ ts (.waiters s) ↔
    t ∈ k.created ∧ (k.task t).status = .blocked ∧ ∃ old, (k.task t).pc = .semaLoop s old
  all : ∀ t, t ∈ ts .all ↔ t ∈ k.created ∧ t ∉ P
  oneList : ∀ i ∈ lists I, ∀ j ∈ lists I, i ≠ .all → j ≠ .all → ∀ t, t ∈ ts i → t ∈ ts j → i = j

variable {I : Set Sema} {P : Set Tid} {F : (Sema → Nat) → (LockId → Lock) → Prop} {E : Task → Op → Prop}
  {k : Kernel (Links Node)} {a : Kernel Queues}

theorem Stand.fields (h : Stand I k a) : k.cur = a.cur ∧ k.created = a.created ∧ k.task = a.task ∧ k.value = a.value ∧
    k.lock = a.lock ∧ k.intr = a.intr := by
  rw [h.onto]; exact ⟨rfl, rfl, rfl, rfl, rfl, rfl⟩

theorem Stand.inOrder (h : Stand I k a) (hw : Wf I P (some a.cur) a) : InOrder I P k a.queues := by
  obtain ⟨hcur, hcr, htask, -⟩ := h.fields
  refine ⟨fun i hi => h.stands.isList hi, fun i hi => ?_, ?_, fun t ht => ?_, fun t => ?_, fun s hs t => ?_, fun t => ?_,
    fun i hi j hj hia hja t hti htj => ?_⟩
  · cases i with
    | ready => exact hw.readyNodup
    | all => exact hw.allNodup
    | waiters s => exact hw.waitNodup s (hi s rfl)
  · rw [hcur, hcr]; exact hw.curCreated
  · rw [htask, hcur]
    rw [hcr] at ht
    simpa [eq_comm] using hw.running t ht
  · rw [hcr, htask]; exact hw.readyMem t
  · rw [hcr, htask]; exact hw.waitMem s hs t
  · rw [hcr]; exact hw.allMem t
  · -- a shared tag would be an address shared by two chains
    by_contra hij
    have h1 : i.node t ∈ nodesOf a.queues i := mem_nodesOf.mpr (.inr (.inl ⟨t, hti, rfl⟩))
    have h2 : i.node t ∈ nodesOf a.queues j :=
      mem_nodesOf.mpr (.inr (.inl ⟨t, htj, node_inj.mpr ⟨rfl, by simp [hia, hja]⟩⟩))
    exact h.stands.disjoint i hi j hj hij _ h1 h2

/-- Nothing is kept but the queue invariant itself. -/
theorem Runs.stand (h : Runs I F E k) : ∃ a, Stand I k a ∧ Wf I ∅ (some a.cur) a := by
  obtain ⟨a, hst, hw, -⟩ := h.invariant (Q := fun _ => True) (fun _ _ => trivial) (fun _ _ _ _ _ _ _ _ => trivial)
  exact ⟨a, hst, hw⟩

/-- What stops a step on links is what stops it on sequences. -/
theorem Stand.stops (h : Stand I k a) (hw : Wf I P (some a.cur) a) {op : Op} (hl : Legal I k op) {e : Stop}
    (hk : TinyOs.Thread.step k op = .error e) : ∃ site, e = .assert site ∧ Stops I a op site :=
  step_stops hw (h.legal hl) ((h.step hw (h.legal hl)).of_error hk)

theorem Stops.not_find {op : Op} {site : Site} (h : Stops I a op site) : site ∉ findSites := by
  cases h <;> simp [findSites]

/-! ## A wake-up that comes too late -/

/-- Behind the tag of a task is the tail of its list, or the tag of another task. -/
theorem Stands.behind {J : Set Qid} {m : Links Node} {q : Queues} (h : Stands J m q) {i : Qid} (hi : i ∈ J) {t : Tid}
    (ht : t ∈ q i) : ∃ y ∈ nodesOf q i, m.prev y = i.node t ∧ y ≠ i.node t ∧ (y = .tail i ∨ ∃ v ∈ q i, v ≠ t ∧ y = i.node v) := by
  obtain ⟨A, B, hq⟩ := List.append_of_mem ht
  obtain ⟨y, C, hy⟩ : ∃ y C, B.map i.node ++ [Node.tail i] = y :: C := List.exists_cons_of_ne_nil (by simp)
  have e : nodesOf q i = (Node.head i :: A.map i.node) ++ (i.node t :: y :: C) := by
    show Node.head i :: ((q i).map i.node ++ [Node.tail i]) = _
    rw [hq, ← hy]; simp
  have hc : m.Chain (nodesOf q i) := h.chain i hi
  have hnd := h.nodup i hi
  rw [e] at hc hnd
  have hne : y ≠ i.node t := fun e' => by simp [List.nodup_append, e'] at hnd
  refine ⟨y, by rw [e]; simp, (List.isChain_cons_cons.mp (List.isChain_append.mp hc).2.1).1.2, hne, ?_⟩
  have hmem : y ∈ B.map i.node ++ [Node.tail i] := by rw [hy]; exact List.mem_cons_self
  rcases List.mem_append.mp hmem with hm | hm
  · obtain ⟨v, hv, rfl⟩ := List.mem_map.mp hm
    exact .inr ⟨v, by rw [hq]; simp [hv], fun e' => hne (by rw [e']), rfl⟩
  · exact .inl (List.mem_singleton.mp hm)

/-- The push leaves the link back from behind the tag on the waiters list. -/
theorem Stands.push_behind {J : Set Qid} {m : Links Node} {q : Queues} (h : Stands J m q) {i : Qid} (hi : i ∈ J)
    (hr : Qid.ready ∈ J) (hne : i ≠ .ready) {t : Tid} {y : Node} (hy : y ∈ nodesOf q i) (hyt : y ≠ .generalTag t) :
    (QueueStore.push m .ready t).prev y = m.prev y := by
  obtain ⟨b, B, hb⟩ : ∃ b B, (q .ready).map Qid.ready.node ++ [Node.tail .ready] = b :: B := List.exists_cons_of_ne_nil (by simp)
  have hmem : b ∈ nodesOf q .ready := by
    show b ∈ Node.head .ready :: ((q .ready).map Qid.ready.node ++ [Node.tail .ready])
    rw [hb]; simp
  have hyb : y ≠ m.next (.head .ready) := fun e => by
    rw [h.next_head hr hb] at e
    exact h.disjoint i hi .ready hr hne y hy (e ▸ hmem)
  show (m.insertBefore (m.next (.head .ready)) (.generalTag t)).prev y = _
  rw [Links.insertBefore_prev, if_neg hyb, if_neg hyt]

theorem wakeUp_push {σ : Type} [QueueStore σ] {k : Kernel σ} {t : Tid} (hst : (k.task t).status ≠ .ready)
    (hf : QueueStore.find k.fuel k.queues .ready t = .ok false) :
    wakeUp t k = .ok { k.setTask t fun x => { x with status := .ready } with queues := QueueStore.push k.queues .ready t } := by
  have hf' : QueueStore.find ({ k with intr := false } : Kernel σ).fuel k.queues .ready t = .ok false := hf
  simp [wakeUp, hst, hf', Kernel.setTask]

/-- A `thread_unblock` that goes on for a thread stopped in `sema_down` pushes its tag while the
    waiters list still links it. -/
theorem Stand.late (h : Stand I k a) (hw : Wf I P (some a.cur) a) (hf : ¬ Fresh k .go) :
    ∃ k', TinyOs.Thread.step k .go = .ok k' ∧ ∀ ts, ¬ InOrder I P k' ts := by
  obtain ⟨hcur, hcr, htask, -⟩ := h.fields
  simp only [Fresh, not_forall, not_not] at hf
  obtain ⟨⟨-, hr⟩, t, ht, hst, hloop⟩ := hf
  have hpc : (k.task k.cur).pc = .unblock t := by
    cases hpc : (k.task k.cur).pc <;> rw [hpc] at ht <;> cases ht
    rfl
  obtain ⟨s, old, hp⟩ : ∃ s old, (k.task t).pc = .semaLoop s old := by
    cases hp : (k.task t).pc <;> rw [hp] at hloop <;> first | exact ⟨_, _, rfl⟩ | cases hloop
  obtain ⟨htc, hne⟩ : t ∈ a.created ∧ t ≠ a.cur := by
    have hok := (hw.tasks a.cur hw.curCreated).pc
    rw [← htask, ← hcur, hpc] at hok
    rwa [← hcur]
  have hs : s ∈ I := by
    have hok := (hw.tasks t htc).pc
    rwa [← htask, hp] at hok
  have hwait : t ∈ a.queues (.waiters s) := (hw.waitMem s hs t).mpr ⟨htc, htask ▸ hst, old, htask ▸ hp⟩
  have hnr : t ∉ a.queues .ready := hw.not_ready (by rw [← htask, hst]; simp)
  have hfind : QueueStore.find k.fuel k.queues .ready t = .ok false := by
    rw [Kernel.fuel, hcr, h.stands.find ready_lists (hw.fuel ready_lists) t]
    simp [hnr]
  obtain ⟨k1, hk1, hq1, htask1⟩ : ∃ k1, wakeUp t k = .ok k1 ∧ k1.queues = QueueStore.push k.queues .ready t ∧
      k1.task = Function.update k.task t { k.task t with status := .ready } :=
    ⟨_, wakeUp_push (by rw [hst]; simp) hfind, rfl, rfl⟩
  have hk1c : k1.cur = k.cur ∧ k1.created = k.created := by
    cases (wakeUp_push (by rw [hst]; simp) hfind).symm.trans hk1
    exact ⟨rfl, rfl⟩
  refine ⟨k1.setPc .run, by rw [step_go_exec hr, hpc]; simp only [exec, hk1, ok_bind], fun ts ho => ?_⟩
  -- the others keep their status and program point
  have hother : ∀ v, v ≠ t → v ≠ k.cur → (k1.setPc .run).task v = k.task v := fun v h1 h2 => by
    simp [Kernel.setPc, setTask_task, hk1c.1, htask1, h1, h2]
  have hready : ((k1.setPc .run).task t).status = .ready := by
    simp [Kernel.setPc, setTask_task, hk1c.1, htask1, hcur, hne]
  -- the node behind the tag is still on the list, and leads back to it
  obtain ⟨y, hy, hprev, hyt, hcase⟩ := h.stands.behind (waiters_lists hs) hwait
  have hnew : (k1.setPc .run).queues.prev y = .generalTag t := by
    show k1.queues.prev y = _
    rw [hq1]
    exact (h.stands.push_behind (waiters_lists hs) ready_lists (by simp) hy hyt).trans hprev
  have hthere : y ∈ (ts (.waiters s)).map (Qid.waiters s).node ++ [Node.tail (.waiters s)] := by
    rcases hcase with rfl | ⟨v, hv, hvt, rfl⟩
    · simp
    · obtain ⟨hvc, hvs, old', hvp⟩ := (hw.waitMem s hs v).mp hv
      have hvcur : v ≠ k.cur := fun e => by rw [e, hcur, hw.cur_running] at hvs; cases hvs
      have hvin := (ho.waiting s hs v).mpr
        ⟨by rw [show (k1.setPc .run).created = _ from hk1c.2, hcr]; exact hvc, by rw [hother v hvt hvcur, htask]; exact hvs,
          old', by rw [hother v hvt hvcur, htask]; exact hvp⟩
      exact List.mem_append_left _ (List.mem_map_of_mem hvin)
  have hlist : Links.Chain (k1.setPc .run).queues
      (Node.head (.waiters s) :: ((ts (.waiters s)).map (Qid.waiters s).node ++ [Node.tail (.waiters s)])) :=
    ho.linked _ (waiters_lists hs)
  have hmem := hlist.prev_mem hthere
  rw [hnew] at hmem
  have htw : t ∈ ts (.waiters s) := by simpa [Qid.node] using hmem
  have hblocked := ((ho.waiting s hs t).mp htw).2.1
  rw [hready] at hblocked
  cases hblocked

theorem Stand.inOrder_iff (h : Stand I k a) (hw : Wf I P (some a.cur) a) (hP : ∀ t ∈ P, t ∈ a.created) {op : Op}
    (hl : Allowed I k op) {k' : Kernel (Links Node)} (hk : TinyOs.Thread.step k op = .ok k') :
    (∃ ts, InOrder I P k' ts) ↔ Fresh k op := by
  constructor
  · intro ho
    by_contra hf
    have hop : op = .go := by
      by_contra hne
      exact hf fun hgo => absurd hgo.1 hne
    subst hop
    obtain ⟨k1, hk1, hno⟩ := h.late hw hf
    obtain ⟨ts, ho⟩ := ho
    cases hk1.symm.trans hk
    exact hno ts ho
  · intro hf
    have hl' := h.legal ⟨hl, hf⟩
    obtain ⟨a', ha, hst⟩ := (h.step hw hl').of_ok hk
    exact ⟨_, hst.inOrder (step_wf hw hP hl' ha)⟩

/-- The lists stay in order as long as no `thread_unblock` goes on too late, and no longer. -/
theorem runs_inOrder (h : Runs I F E k) : (∃ ts, InOrder I ∅ k ts) ∧
    ∀ op, Allowed I k op →
      (∀ e, TinyOs.Thread.step k op = .error e → ∃ site, e = .assert site ∧ site ∉ findSites) ∧
      ∀ k', TinyOs.Thread.step k op = .ok k' → ((∃ ts, InOrder I ∅ k' ts) ↔ Fresh k op) := by
  obtain ⟨a, hst, hw⟩ := h.stand
  refine ⟨⟨a.queues, hst.inOrder hw⟩, fun op hl => ⟨fun e hk => ?_, fun k' hk =>
    hst.inOrder_iff hw (fun t ht => absurd ht (Set.notMem_empty t)) hl hk⟩⟩
  by_cases hf : Fresh k op
  · obtain ⟨site, rfl, hs⟩ := hst.stops hw ⟨hl, hf⟩ hk
    exact ⟨site, rfl, hs.not_find⟩
  · have hop : op = .go := by
      by_contra hne
      exact hf fun hgo => absurd hgo.1 hne
    subst hop
    obtain ⟨k', hk', -⟩ := hst.late hw hf
    cases hk'.symm.trans hk

/-! ## A kernel that boots -/

/-- Before `threads_init`, every list memory holds an empty list; the main thread's PCB is
    the page at 0xc009e000. -/
def quiet : Kernel (Links Node) where
  cur := 0xc009e000
  mainThread := 0
  task _ := ⟨.running, 0, 0, 0, 0, .run, none, fun _ => 0⟩
  queues := ⟨fun | .tail q => .head q | _ => .null, fun | .head q => .tail q | _ => .null⟩
  value _ := 1
  lock _ := ⟨none, 0⟩
  intr := false
  ticks := 0
  created := []

theorem quiet_boot (I : Set Sema) : Boot I quiet := ⟨rfl, fun _ _ => isList_nil.mpr ⟨rfl, rfl⟩⟩

/-- The state after `threads_init` and some operations. -/
def after (ops : List Op) : Kernel (Links Node) := ops.foldl (next step) ((threadsInit quiet).toOption.getD quiet)

theorem after_nil_runs (hF : F (fun _ => 1) (fun _ => ⟨none, 0⟩)) : Runs I F E (after []) :=
  .first ⟨⟨quiet, quiet_boot I, rfl⟩, hF⟩

theorem after_runs [DecidablePred (· ∈ I)] [∀ x op, Decidable (E x op)] {ops : List Op}
    (hF : F (fun _ => 1) (fun _ => ⟨none, 0⟩))
    (hl : legalRun (fun k op => Legal I k op ∧ E (k.task k.cur) op) step (after []) ops = true) : Runs I F E (after ops) :=
  Reach.script (after_nil_runs hF) hl

/-- The main thread starts another one and waits for a semaphore that has no unit left. -/
def waiting : List Op :=
  [.call (.threadStart (some 0xc0101000) 5), .call (.semaDown 0), .go, .call (.semaDown 0), .go]

theorem waiting_runs : Runs {.free 0} (fun _ _ => True) (fun _ _ => True) (after waiting) :=
  after_runs trivial (by decide +kernel)

example : (after waiting).cur = 0xc0101000 := by decide +kernel

/-- `runs_inOrder` where a thread waits. -/
theorem waiting_inOrder : (∃ ts, InOrder {.free 0} ∅ (after waiting) ts) ∧
    ∀ op, Allowed {.free 0} (after waiting) op →
      (∀ e, step (after waiting) op = .error e → ∃ site, e = .assert site ∧ site ∉ findSites) ∧
      ∀ k', step (after waiting) op = .ok k' → ((∃ ts, InOrder {.free 0} ∅ k' ts) ↔ Fresh (after waiting) op) :=
  runs_inOrder waiting_runs

/-- B (0xc0102000) stops itself. W (0xc0101000, priority 0) is preempted in `thread_unblock` of B,
    behind the ASSERT; the main thread wakes B, and B waits for a semaphore. -/
def overslept : List Op :=
  [.call (.threadStart (some 0xc0101000) 0), .call (.threadStart (some 0xc0102000) 5), .call .threadYield, .go,
    .call .threadYield, .go, .call (.threadBlock .blocked), .go, .call (.semaDown 0), .go, .call .threadYield, .go,
    .call (.threadUnblock 0xc0102000), .timer, .go, .call (.threadUnblock 0xc0102000), .go, .call .threadYield, .go,
    .call (.semaDown 0), .go, .go]

example : (after overslept).cur = 0xc0101000 ∧ (after overslept).pc = .unblock 0xc0102000 ∧
    ¬ Fresh (after overslept) .go := by decide +kernel

/-- W goes on: both lists now begin with the tag of B. -/
example : (next step (after overslept) .go).queues.next (.head .ready) = .generalTag 0xc0102000 ∧
    (next step (after overslept) .go).queues.next (.head (.waiters (.free 0))) = .generalTag 0xc0102000 := by decide +kernel

theorem late_out_of_order : ¬ ∀ k, Reach (Booted {.free 0}) (Allowed {.free 0}) step k → ∃ ts, InOrder {.free 0} ∅ k ts := by
  intro hall
  have hruns : Runs {.free 0} (fun _ _ => True) (fun _ _ => True) (after overslept) := after_runs trivial (by decide +kernel)
  obtain ⟨a, hst, hw⟩ := hruns.stand
  obtain ⟨k', hk, hno⟩ := hst.late hw (by decide +kernel)
  have hreach : Reach (Booted {.free 0}) (Allowed {.free 0}) step (after overslept) :=
    hruns.mono (fun _ hk => hk.1) (fun _ _ hl => hl.1.1)
  obtain ⟨ts, ho⟩ := hall k' (hreach.step .go trivial hk)
  exact hno ts ho

end TinyOs.Thread
