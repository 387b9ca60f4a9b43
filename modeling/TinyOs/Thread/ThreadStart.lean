/-
  TinyOs.Thread.ThreadStart — `thread_start`, preempted between any two statements and
  any two iterations of its searches.

  A thread inside `thread_start` has a `Job`: the statement it is at and, inside
  `elem_find`, the node its cursor is on. The links are atomic under `list_append`, but
  a search runs with interrupts as its caller left them (`process_execute` turns them
  off), so the list may change under the cursor.

  A search can be kept from its end for ever: a thread that the cursor has passed is
  preempted, goes to the tail of the ready list, and is in front of the cursor again. So
  `Watched` counts the iterations of each search, and by how much what is in front of
  its cursor has grown while it was preempted.

  - `start_safe`: as long as a search of the ready list goes on only while the thread
    its cursor is on is TASK_READY, every search stays on its list and never reads a NULL
    link; while what is in front of the cursors grows by at most `N`, a search makes at
    most `N` iterations more than it had to make when it began; it ends with false, and
    both lists link the new thread exactly once.
  - `walk_reads_null`: a run without that. The thread under the cursor blocks on a
    semaphore, its tag moves to the waiters list, and the search runs off its end.
-/

import TinyOs.Thread.LockInit

namespace TinyOs.Thread

open TinyOs.Kernel TinyOs.Lib TinyOs.Logic

/-- The two lists `thread_start` searches and appends to, in this order. -/
inductive Target where
  | ready
  | all
  deriving DecidableEq, Repr

def Target.qid : Target → Qid
  | .ready => .ready
  | .all => .all

/-- The ASSERT that the search found nothing. -/
def Target.site : Target → Site
  | .ready => .startReadyFind
  | .all => .startAllFind

/-- The next statement of a thread in `thread_start` that got page `thread`. -/
inductive Job where
  | init (thread : Tid) (prio : Nat)
  | create (thread : Tid)
  /-- `elem_find` reads `plist->head.next`. -/
  | find (thread : Tid) (i : Target)
  /-- At the head of the loop of `elem_find`. -/
  | walk (thread : Tid) (i : Target) (elem : Node)
  | append (thread : Tid) (i : Target)
  deriving DecidableEq, Repr

def Job.thread : Job → Tid
  | .init t _ | .create t | .find t _ | .walk t _ _ | .append t _ => t

/-- The new thread is on the ready list and not yet on thread_all_list. -/
def Job.late : Job → Bool
  | .find _ .all | .walk _ .all _ | .append _ .all => true
  | _ => false

structure System where
  k : Kernel (Links Node)
  job : Tid → Option Job

namespace System

variable {I : Set Sema}

/-- The running thread goes to its next statement. -/
def goto (s : System) (k : Kernel (Links Node)) (j : Option Job) : System := ⟨k, Function.update s.job s.k.cur j⟩

/-- One iteration of the loop of `elem_find`, and the ASSERT after it. -/
def iterate (m : Links Node) (thread : Tid) (i : Target) (elem : Node) : Except Stop Job :=
  if elem = .tail i.qid then .ok (.append thread i)
  else if elem = i.qid.node thread then .error (.assert i.site)
  else if elem = .null then .error .fault
  else .ok (.walk thread i (m.next elem))

def exec (s : System) : Job → Except Stop System
  | .init t prio => .ok (s.goto (initThread s.k t prio) (some (.create t)))
  | .create t => .ok (s.goto (threadCreate s.k t) (some (.find t .ready)))
  | .find t i => .ok (s.goto s.k (some (.walk t i (s.k.queues.next (.head i.qid)))))
  | .walk t i elem => do
    let j ← iterate s.k.queues t i elem
    .ok (s.goto s.k (some j))
  | .append t .ready =>
    let k := { s.k with queues := QueueStore.append s.k.queues .ready t, created := s.k.created ++ [t] }
    .ok (s.goto k (some (.find t .all)))
  | .append t .all => .ok (s.goto { s.k with queues := QueueStore.append s.k.queues .all t } none)

def step (s : System) : Op → Except Stop System
  | .call (.threadStart none _) => .error (.assert .memsetDst)
  | .call (.threadStart (some t) prio) => .ok (s.goto s.k (some (.init t prio)))
  | .go =>
    match (s.k.task s.k.cur).resume, s.job s.k.cur with
    | none, some j => s.exec j
    | _, _ => do
      let k ← TinyOs.Thread.step s.k .go
      .ok { s with k := k }
  | op => do
    let k ← TinyOs.Thread.step s.k op
    .ok { s with k := k }

/-- A thread in `thread_start` makes no other call, and every call gets a page of its own. -/
def Legal (I : Set Sema) (s : System) (op : Op) : Prop :=
  TinyOs.Thread.Legal I s.k op ∧
    match op with
    | .call (.threadStart (some t) _) =>
      s.job s.k.cur = none ∧ ∀ w ∈ s.k.created, (s.job w).map Job.thread ≠ some t
    | .call _ => s.job s.k.cur = none
    | _ => True

/-- The thread whose tag is under the cursor, when the running thread is about to go on
    with a search of the ready list. -/
def underCursor (s : System) : Option Tid :=
  match (s.k.task s.k.cur).resume, s.job s.k.cur with
  | none, some (.walk _ .ready (.generalTag u)) => some u
  | _, _ => none

/-- A search of the ready list goes on only from a thread that is TASK_READY. -/
def Steady (s : System) (op : Op) : Prop := op = .go → ∀ u ∈ s.underCursor, (s.k.task u).status = .ready

instance [DecidablePred (· ∈ I)] (s : System) (op : Op) : Decidable (s.Legal I op) :=
  match op with
  | .timer | .go => inferInstanceAs (Decidable (_ ∧ True))
  | .call (.threadStart (some t) prio) =>
    inferInstanceAs (Decidable (TinyOs.Thread.Legal I s.k (.call (.threadStart (some t) prio)) ∧
      s.job s.k.cur = none ∧ ∀ w ∈ s.k.created, (s.job w).map Job.thread ≠ some t))
  | .call (.threadStart none _) | .call .intrEnable | .call .intrDisable | .call .threadYield | .call (.threadBlock _)
  | .call (.threadUnblock _) | .call (.semaDown _) | .call (.semaUp _) | .call (.lockAcquire _) | .call (.lockRelease _) =>
    inferInstanceAs (Decidable (TinyOs.Thread.Legal I s.k _ ∧ s.job s.k.cur = none))

instance (s : System) (op : Op) : Decidable (s.Steady op) :=
  inferInstanceAs (Decidable (op = .go → ∀ u ∈ s.underCursor, (s.k.task u).status = .ready))

/-- The iterations that a search at `elem` still makes if the list stays as it is. -/
def roundsLeft (m : Links Node) (tail : Node) : Nat → Node → Nat
  | 0, _ => 0
  | n + 1, elem => if elem = tail then 1 else roundsLeft m tail n (m.next elem) + 1

/-- Those of the search that thread `c` is in. -/
def rounds (s : System) (c : Tid) : Nat :=
  match s.job c with
  | some (.walk _ i elem) => roundsLeft s.k.queues (.tail i.qid) s.k.fuel elem
  | _ => 0

/-- The running thread is about to go on with a search. -/
def inSearch (s : System) : Bool :=
  match (s.k.task s.k.cur).resume, s.job s.k.cur with
  | none, some (.walk _ _ _) => true
  | _, _ => false

/-- After `threads_init`, no thread is in `thread_start`. -/
def First (I : Set Sema) (s : System) : Prop := Booted I s.k ∧ s.job = fun _ => none

/-- What is counted of a thread's search. No code reads it. -/
structure Search where
  /-- The iterations it had to make when it began. -/
  first : Nat
  made : Nat
  /-- The iterations left after the last one it has made. -/
  left : Nat
  /-- What has been added to those, in all, while the thread was preempted. -/
  grown : Nat
  deriving DecidableEq, Repr

structure Watched where
  s : System
  search : Tid → Search

namespace Watched

/-- `grown`, once the running thread goes on with its search. -/
def grown (w : Watched) : Nat :=
  let x := w.search w.s.k.cur
  x.grown + (w.s.rounds w.s.k.cur - x.left)

/-- What the statement of job `j`, which leads to `s`, adds. -/
def count (w : Watched) (s : System) (j : Job) : Tid → Search :=
  let c := w.s.k.cur
  match j with
  | .find _ _ => Function.update w.search c ⟨s.rounds c, 0, s.rounds c, 0⟩
  | .walk _ _ _ => Function.update w.search c ⟨(w.search c).first, (w.search c).made + 1, s.rounds c, w.grown⟩
  | _ => w.search

def watch (w : Watched) (op : Op) (s : System) : Watched where
  s := s
  search :=
    match op, (w.s.k.task w.s.k.cur).resume, w.s.job w.s.k.cur with
    | .go, none, some j => w.count s j
    | _, _, _ => w.search

def step (w : Watched) (op : Op) : Except Stop Watched := do
  let s ← w.s.step op
  .ok (w.watch op s)

/-- A search goes on only while what is in front of its cursor has grown by `N` at most. -/
def Within (N : Nat) (w : Watched) (op : Op) : Prop := op = .go ∧ w.s.inSearch = true → w.grown ≤ N

instance (N : Nat) (w : Watched) (op : Op) : Decidable (w.Within N op) := inferInstanceAs (Decidable (_ → _))

end Watched

end System

variable {I : Set Sema} {J : Set Qid} {P : Set Tid} {m : Links Node} {q : Queues} {a a' : Kernel Queues} {s s' : System}
  {t u : Tid} {op : Op}

/-! ## A cursor on a list -/

/-- Address `elem` is the tag of a task on list `i`, or its tail. -/
def OnList (q : Queues) (i : Qid) (elem : Node) : Prop := elem = .tail i ∨ ∃ u ∈ q i, elem = i.node u

/-- From a task on a list the links lead through tasks on the list to its tail. -/
theorem Stands.suffix (h : Stands J m q) {i : Qid} (hi : i ∈ J) (hu : u ∈ q i) : ∃ B : List Tid, (∀ v ∈ B, v ∈ q i) ∧
    B.length < (q i).length ∧ m.Chain (i.node u :: (B.map i.node ++ [.tail i])) := by
  obtain ⟨A, B, hq⟩ := List.append_of_mem hu
  have hc : m.Chain (nodesOf q i) := h.chain i hi
  have e : nodesOf q i = (Node.head i :: A.map i.node) ++ (i.node u :: (B.map i.node ++ [.tail i])) := by
    show Node.head i :: ((q i).map i.node ++ [Node.tail i]) = _
    rw [hq]; simp
  rw [e] at hc
  refine ⟨B, fun v hv => by rw [hq]; simp [hv], by rw [hq]; simp; omega, ?_⟩
  exact (List.isChain_append.mp hc).2.1

theorem Stands.next_onList (h : Stands J m q) {i : Qid} (hi : i ∈ J) (hu : u ∈ q i) : OnList q i (m.next (i.node u)) := by
  obtain ⟨B, hB, -, hc⟩ := h.suffix hi hu
  cases B with
  | nil => exact .inl (List.isChain_cons_cons.mp hc).1.1
  | cons v B => exact .inr ⟨v, hB v (by simp), (List.isChain_cons_cons.mp hc).1.1⟩

theorem Stands.first_onList (h : Stands J m q) {i : Qid} (hi : i ∈ J) : OnList q i (m.next (.head i)) := by
  cases hq : q i with
  | nil => exact .inl (h.next_head hi (B := []) (by rw [hq]; rfl))
  | cons v B => exact .inr ⟨v, by rw [hq]; simp, h.next_head hi (B := B.map i.node ++ [.tail i]) (by rw [hq]; rfl)⟩

namespace System

/-! ## Searches left alone -/

/-- The running thread makes `n` steps of its own. -/
def goes : Nat → System → Except Stop System
  | 0, s => .ok s
  | n + 1, s => do goes n (← s.step .go)

theorem step_job (hr : (s.k.task s.k.cur).resume = none) {j : Job} (hj : s.job s.k.cur = some j) :
    s.step .go = s.exec j := by
  simp only [step, hr, hj]

theorem goto_goto (s : System) (j j' : Option Job) : (s.goto s.k j).goto s.k j' = s.goto s.k j' := by
  simp [goto]

/-- Along the rest of the list the search ends with false. -/
theorem goes_walk (hr : (s.k.task s.k.cur).resume = none) {i : Target} {B : List Tid} (ht : t ∉ u :: B)
    (hc : s.k.queues.Chain (i.qid.node u :: (B.map i.qid.node ++ [.tail i.qid])))
    (hj : s.job s.k.cur = some (.walk t i (i.qid.node u))) :
    s.goes (B.length + 2) = .ok (s.goto s.k (some (.append t i))) := by
  have hnext : ∀ {s : System} {v}, (s.k.task s.k.cur).resume = none → s.job s.k.cur = some (.walk t i (i.qid.node v)) → v ≠ t →
      s.step .go = .ok (s.goto s.k (some (.walk t i (s.k.queues.next (i.qid.node v))))) := fun hr hj hv => by
    rw [step_job hr hj]
    simp [exec, iterate, node_ne_tail, node_ne_null, node_inj, hv]
  induction B generalizing s u with
  | nil =>
    have hlast : s.k.queues.next (i.qid.node u) = .tail i.qid := (List.isChain_cons_cons.mp hc).1.1
    have hut : u ≠ t := fun e => ht (by simp [e])
    show (do goes 1 (← s.step .go)) = _
    rw [hnext hr hj hut, hlast, ok_bind]
    show (do goes 0 (← (s.goto s.k (some (.walk t i (.tail i.qid)))).step .go)) = _
    rw [step_job (s := s.goto s.k (some (.walk t i (.tail i.qid)))) hr (Function.update_self ..)]
    simp [exec, iterate, goes, goto]
  | cons v B ih =>
    have hlast : s.k.queues.next (i.qid.node u) = i.qid.node v := (List.isChain_cons_cons.mp hc).1.1
    have hut : u ≠ t := fun e => ht (by simp [e])
    show (do goes (B.length + 2) (← s.step .go)) = _
    rw [hnext hr hj hut, hlast, ok_bind]
    have := ih (s := s.goto s.k (some (.walk t i (i.qid.node v)))) hr (fun hm => ht (List.mem_cons_of_mem _ hm))
      (List.isChain_cons_cons.mp hc).2 (Function.update_self ..)
    rw [this]
    exact congrArg _ (goto_goto _ _ _)

/-! ## The invariant -/

/-- The threads on the ready list but not yet on thread_all_list. -/
def pending (job : Tid → Option Job) : Set Tid := {t | ∃ w j, job w = some j ∧ j.late = true ∧ j.thread = t}

/-- What the statements so far have made of the PCB. -/
def Built (x : Task) : Job → Prop
  | .create _ => x.status = .ready ∧ x.pc = .run ∧ x.stackMagic = 0x19870916
  | .find _ .ready | .walk _ .ready _ | .append _ .ready => Prepared x
  | _ => True

/-- Where the cursor of a search can be. Threads are only added to thread_all_list. -/
def CursorOk (a : Kernel Queues) : Job → Prop
  | .walk _ .ready elem => elem = .tail .ready ∨ ∃ u ∈ a.created, elem = .generalTag u
  | .walk _ .all elem => OnList a.queues .all elem
  | _ => True

structure JobOk (a : Kernel Queues) (w : Tid) (j : Job) : Prop where
  worker : w ∈ a.created
  created : j.thread ∈ a.created ↔ j.late = true
  built : Built (a.task j.thread) j
  cursor : CursorOk a j

structure JobsOk (job : Tid → Option Job) (a : Kernel Queues) : Prop where
  each : ∀ w j, job w = some j → JobOk a w j
  distinct : ∀ w w' j j', job w = some j → job w' = some j' → j.thread = j'.thread → w = w'

structure Inv (I : Set Sema) (s : System) (a : Kernel Queues) : Prop where
  stand : Stand I s.k a
  wf : Wf I (pending s.job) (some a.cur) a
  jobs : JobsOk s.job a

theorem pending_created {job : Tid → Option Job} (h : JobsOk job a) : ∀ t ∈ pending job, t ∈ a.created := by
  intro t hex
  obtain ⟨w, j, hj, hl, rfl⟩ := hex
  exact (h.each w j hj).created.mpr hl

theorem first_inv (h : First I s) : ∃ a, Inv I s a := by
  obtain ⟨⟨k0, hb, hk⟩, hjob⟩ := h
  obtain ⟨k', hk', hst⟩ := threadsInit_stand hb
  have hnone : ∀ w j, s.job w ≠ some j := fun w j => by rw [hjob]; simp
  have hp : pending s.job = ∅ := by
    ext t
    simp only [Set.mem_empty_iff_false, iff_false]
    intro hex
    obtain ⟨w, j, hj, -⟩ := hex
    exact hnone w j hj
  rw [hk] at hk'
  cases hk'
  refine ⟨booted k0, hst, by rw [hp]; exact booted_wf hb.intrOff, ?_⟩
  exact ⟨fun w j hj => absurd hj (hnone w j), fun w _ j _ hj => absurd hj (hnone w j)⟩

/-! ## A step of the rest of the kernel -/

/-- A job speaks of the created tasks, thread_all_list, and its own PCB before it is created. -/
theorem JobOk.congr {w : Tid} {j : Job} (h : JobOk a w j) (hsub : ∀ t ∈ a.created, t ∈ a'.created)
    (hc : j.thread ∈ a'.created ↔ j.thread ∈ a.created) (hall : ∀ t ∈ a.queues .all, t ∈ a'.queues .all)
    (ht : j.thread ∉ a.created → a'.task j.thread = a.task j.thread) : JobOk a' w j := by
  refine ⟨hsub w h.worker, hc.trans h.created, ?_, ?_⟩
  · by_cases hl : j.late = true
    · cases j with
      | init | create => cases hl
      | find t i | walk t i | append t i => cases i <;> first | exact trivial | cases hl
    · rw [ht (fun hm => hl (h.created.mp hm))]; exact h.built
  · have := h.cursor
    cases j with
    | walk t i elem =>
      cases i with
      | ready => exact this.imp_right (fun ⟨u, hu, e⟩ => ⟨u, hsub u hu, e⟩)
      | all => exact this.imp_right (fun ⟨u, hu, e⟩ => ⟨u, hall u hu, e⟩)
    | _ => trivial

/-- Timer interrupts, the other calls, and the code outside `thread_start`. -/
theorem Inv.kernel {k' : Kernel (Links Node)} (h : Inv I s a) (hl : TinyOs.Thread.Legal I s.k op)
    (hop : ∀ t prio, op ≠ .call (.threadStart (some t) prio)) (hk : TinyOs.Thread.step s.k op = .ok k') :
    ∃ a', Inv I { s with k := k' } a' := by
  have hl' := h.stand.legal hl
  obtain ⟨a', ha, hst⟩ := (h.stand.step h.wf hl').of_ok hk
  have hw := step_wf h.wf (pending_created h.jobs) hl' ha
  obtain ⟨f, -⟩ := step_effect h.wf hl' ha
  have hc : ∀ t, t ∈ a'.created ↔ t ∈ a.created := fun t => by
    refine ⟨fun ht => ?_, f.created t⟩
    by_contra hn
    obtain ⟨⟨prio, e⟩, -⟩ := f.fresh t ht hn
    exact hop t prio e
  refine ⟨a', hst, hw, fun w j hj => (h.jobs.each w j hj).congr f.created (hc _) (fun t ht => ?_)
    (fun hn => f.outside _ (fun hm => hn ((hc _).mp hm))), h.jobs.distinct⟩
  have := (h.wf.allMem t).mp ht
  exact (hw.allMem t).mpr ⟨(hc t).mpr this.1, this.2⟩

/-! ## A statement of `thread_start` -/

/-- The other threads' jobs when the running thread's PCB, or the lists, changed for page `t`. -/
structure Touched (t : Tid) (a a' : Kernel Queues) : Prop where
  cur : a'.cur = a.cur
  created : ∀ u ∈ a.created, u ∈ a'.created
  others : ∀ u, u ≠ t → (u ∈ a'.created ↔ u ∈ a.created)
  all : ∀ u ∈ a.queues .all, u ∈ a'.queues .all
  task : ∀ u, u ≠ t → u ∉ a.created → a'.task u = a.task u

theorem JobsOk.goto {job : Tid → Option Job} {c : Tid} {j j' : Job} (h : JobsOk job a) (hj : job c = some j)
    (f : Touched j.thread a a') (ht : j'.thread = j.thread) (hok : JobOk a' c j') :
    JobsOk (Function.update job c (some j')) a' := by
  have hother : ∀ {w j1}, w ≠ c → job w = some j1 → j1.thread ≠ j.thread := fun ew h1 e =>
    ew (h.distinct _ c _ j h1 hj e)
  refine ⟨fun w j1 h1 => ?_, distinct_update h.distinct fun j1 h1 w j2 ew h2 => ?_⟩
  · rcases job_update h1 with ⟨rfl, e⟩ | ⟨ew, h1⟩
    · cases e; exact hok
    · have hne := hother ew h1
      exact (h.each w j1 h1).congr f.created (f.others _ hne) f.all (f.task _ hne)
  · cases h1
    rw [ht]
    exact hother ew h2

theorem JobsOk.done {job : Tid → Option Job} {c : Tid} {j : Job} (h : JobsOk job a) (hj : job c = some j)
    (f : Touched j.thread a a') : JobsOk (Function.update job c none) a' := by
  refine ⟨fun w j1 h1 => ?_, distinct_update h.distinct fun j1 h1 => by cases h1⟩
  rcases job_update h1 with ⟨-, e⟩ | ⟨ew, h1⟩
  · cases e
  · have hne : j1.thread ≠ j.thread := fun e => ew (h.distinct w c j1 j h1 hj e)
    exact (h.each w j1 h1).congr f.created (f.others _ hne) f.all (f.task _ hne)

theorem pending_goto {job : Tid → Option Job} {c : Tid} {j : Job} (h : JobsOk job a) (hj : job c = some j)
    (o : Option Job) (u : Tid) : u ∈ pending (Function.update job c o) ↔
      (∃ j', o = some j' ∧ j'.late = true ∧ j'.thread = u) ∨ u ∈ pending job ∧ u ≠ j.thread := by
  constructor
  · intro hex
    obtain ⟨w, j1, h1, hl, rfl⟩ := hex
    rcases job_update h1 with ⟨-, h1⟩ | ⟨ew, h1⟩
    · exact .inl ⟨j1, h1, hl, rfl⟩
    · exact .inr ⟨⟨w, j1, h1, hl, rfl⟩, fun e => ew (h.distinct w c j1 j h1 hj e)⟩
  · intro hex
    rcases hex with ⟨j', rfl, hl, rfl⟩ | ⟨⟨w, j1, h1, hl, rfl⟩, hne⟩
    · exact ⟨c, j', Function.update_self .., hl, rfl⟩
    · have ew : w ≠ c := fun e => hne (by rw [e, hj] at h1; cases h1; rfl)
      exact ⟨w, j1, by rw [Function.update_of_ne ew]; exact h1, hl, rfl⟩

theorem Inv.goto (h : Inv I s a) {j j' : Job} (hj : s.job s.k.cur = some j) {k' : Kernel (Links Node)}
    (hst : Stand I k' a') (f : Touched j.thread a a') (ht : j'.thread = j.thread) (hok : JobOk a' s.k.cur j')
    (hw : ∀ P', (∀ u, u ∈ P' ↔ (j'.late = true ∧ u = j.thread) ∨ u ∈ pending s.job ∧ u ≠ j.thread) →
      Wf I P' (some a'.cur) a') : Inv I (s.goto k' (some j')) a' := by
  refine ⟨hst, hw _ (fun u => ?_), h.jobs.goto hj f ht hok⟩
  show u ∈ pending (Function.update s.job s.k.cur (some j')) ↔ _
  rw [pending_goto h.jobs hj]
  simp only [Option.some.injEq, exists_eq_left', ht, @eq_comm _ j.thread u]

/-- A statement that changes nothing but where the thread is. -/
theorem Inv.same (h : Inv I s a) {j j' : Job} (hj : s.job s.k.cur = some j) (ht : j'.thread = j.thread)
    (hl : j'.late = j.late) (hb : Built (a.task j.thread) j → Built (a.task j'.thread) j') (hc : CursorOk a j') :
    Inv I (s.goto s.k (some j')) a := by
  have hold := h.jobs.each _ _ hj
  refine h.goto hj h.stand ⟨rfl, fun _ hu => hu, fun _ _ => Iff.rfl, fun _ hu => hu, fun _ _ _ => rfl⟩ ht
    ⟨hold.worker, by rw [ht, hl]; exact hold.created, hb hold.built, hc⟩ (fun P' hP => ?_)
  have : P' = pending s.job := by
    ext u
    rw [hP, hl]
    by_cases e : u = j.thread
    · subst e
      simp only [and_true, ne_eq, not_true_eq_false, and_false, or_false]
      refine ⟨fun hl => ⟨_, j, hj, hl, rfl⟩, ?_⟩
      intro hex
      obtain ⟨w, j1, h1, hl1, e1⟩ := hex
      obtain rfl := h.jobs.distinct w _ j1 j h1 hj e1
      rw [hj] at h1; cases h1; exact hl1
    · simp [e]
  rw [this]; exact h.wf

/-- A statement that writes the new thread's PCB only. -/
theorem Inv.build (h : Inv I s a) {j j' : Job} (hj : s.job s.k.cur = some j) {k' : Kernel (Links Node)} (hst : Stand I k' a')
    (hlate : j.late = false ∧ j'.late = false) (ht : j'.thread = j.thread)
    (hsame : a'.cur = a.cur ∧ a'.mainThread = a.mainThread ∧ a'.created = a.created ∧ a'.queues = a.queues ∧ a'.intr = a.intr)
    (htask : ∀ u, u ≠ j.thread → a'.task u = a.task u) (hb : Built (a'.task j.thread) j') (hc : CursorOk a' j') :
    Inv I (s.goto k' (some j')) a' := by
  obtain ⟨hcur, hmain, hcr, hq, hi⟩ := hsame
  have hold := h.jobs.each _ _ hj
  have hn : j.thread ∉ a.created := fun hm => by
    have := hold.created.mp hm
    rw [hlate.1] at this; cases this
  refine h.goto hj hst ⟨hcur, fun u hu => hcr ▸ hu, fun u _ => by rw [hcr], fun u hu => hq ▸ hu, fun u hu _ => htask u hu⟩ ht
    ⟨hcr ▸ hold.worker, by rw [ht, hcr, hlate.2, ← hlate.1]; exact hold.created, by rw [ht]; exact hb, hc⟩ (fun P' hP => ?_)
  have : P' = pending s.job := by
    ext u
    rw [hP, hlate.2]
    simp only [Bool.false_eq_true, false_and, false_or, and_iff_left_iff_imp]
    intro hu e
    exact hn (e ▸ pending_created h.jobs u hu)
  rw [this, hcur]
  exact h.wf.outside hcur hmain hcr hq hi (fun u hu => htask u (fun e => hn (e ▸ hu)))

theorem Inv.absent (h : Inv I s a) {j : Job} (hj : s.job s.k.cur = some j) (hl : j.late = false) : j.thread ∉ a.created :=
  fun hm => by
    have := (h.jobs.each _ _ hj).created.mp hm
    rw [hl] at this; cases this

theorem Inv.init (h : Inv I s a) {prio : Nat} (hj : s.job s.k.cur = some (.init t prio)) :
    Inv I (s.goto (initThread s.k t prio) (some (.create t))) (initThread a t prio) := by
  have hn := h.absent hj rfl
  have hm : t ≠ a.mainThread := fun e => hn (e ▸ h.wf.mainCreated)
  have hst : Stand I (initThread s.k t prio) (initThread a t prio) :=
    ⟨by rw [h.stand.onto]; rfl, h.stand.stands.zeroTags (h.wf.off_of_absent hn)⟩
  refine h.build hj hst ⟨rfl, rfl⟩ rfl ⟨rfl, rfl, rfl, rfl, rfl⟩ (fun u hu => ?_) ?_ trivial
  · exact Function.update_of_ne hu ..
  · simp [Built, Job.thread, initThread, hm]

theorem Inv.create (h : Inv I s a) (hj : s.job s.k.cur = some (.create t)) :
    Inv I (s.goto (threadCreate s.k t) (some (.find t .ready))) (threadCreate a t) := by
  have hst : Stand I (threadCreate s.k t) (threadCreate a t) := ⟨by rw [h.stand.onto]; rfl, h.stand.stands⟩
  refine h.build hj hst ⟨rfl, rfl⟩ rfl ⟨rfl, rfl, rfl, rfl, rfl⟩ (fun u hu => ?_) ?_ trivial
  · exact Function.update_of_ne hu ..
  · obtain ⟨h1, h2, h3⟩ := (h.jobs.each _ _ hj).built
    exact ⟨by simpa [threadCreate, Job.thread] using h1, by simpa [threadCreate, Job.thread] using h2,
      by simp [threadCreate, Job.thread], by simpa [threadCreate, Job.thread] using h3⟩

theorem target_lists (i : Target) : i.qid ∈ lists I := by cases i <;> simp [lists, Target.qid]

/-- A node on the list searched is where a cursor may be. -/
theorem cursorOk_of_onList (hw : Wf I P (some a.cur) a) {i : Target} {elem : Node} (h : OnList a.queues i.qid elem) :
    CursorOk a (.walk t i elem) := by
  cases i with
  | ready => exact h.imp_right (fun ⟨u, hu, e⟩ => ⟨u, ((hw.readyMem u).mp hu).1, e⟩)
  | all => exact h

/-- The new thread is not on the list it is searched in. -/
theorem Inv.not_found (h : Inv I s a) {i : Target} {j : Job} (hj : s.job s.k.cur = some j)
    (hi : j.late = decide (i = .all)) : j.thread ∉ a.queues i.qid := by
  cases i with
  | ready => exact h.wf.off_of_absent (h.absent hj hi) .ready (target_lists .ready)
  | all => exact fun hm => ((h.wf.allMem _).mp hm).2 ⟨_, j, hj, hi, rfl⟩

theorem Inv.find (h : Inv I s a) {i : Target} (hj : s.job s.k.cur = some (.find t i)) :
    Inv I (s.goto s.k (some (.walk t i (s.k.queues.next (.head i.qid))))) a := by
  refine h.same hj rfl (by cases i <;> rfl) (fun hb => by cases i <;> exact hb) ?_
  exact cursorOk_of_onList h.wf (h.stand.stands.first_onList (target_lists i))

/-- An iteration of a search whose cursor is on its list. -/
theorem Inv.walk (h : Inv I s a) {i : Target} {elem : Node} (hj : s.job s.k.cur = some (.walk t i elem))
    (ho : OnList a.queues i.qid elem) : ∃ j', iterate s.k.queues t i elem = .ok j' ∧ Inv I (s.goto s.k (some j')) a := by
  have hnf : t ∉ a.queues i.qid := h.not_found hj (by cases i <;> rfl)
  rcases ho with rfl | ⟨u, hu, rfl⟩
  · refine ⟨.append t i, by simp [iterate], ?_⟩
    exact h.same hj rfl (by cases i <;> rfl) (fun hb => by cases i <;> exact hb) trivial
  · have hut : u ≠ t := fun e => hnf (e ▸ hu)
    refine ⟨.walk t i (s.k.queues.next (i.qid.node u)), by simp [iterate, node_ne_tail, node_ne_null, node_inj, hut], ?_⟩
    refine h.same hj rfl (by cases i <;> rfl) (fun hb => by cases i <;> exact hb) ?_
    exact cursorOk_of_onList h.wf (h.stand.stands.next_onList (target_lists i) hu)

/-- The ready list gets the new thread. -/
theorem Inv.append_ready (h : Inv I s a) (hj : s.job s.k.cur = some (.append t .ready)) :
    ∃ s', s.exec (.append t .ready) = .ok s' ∧ Inv I s' (readied t a) := by
  have hold := h.jobs.each _ _ hj
  have hn : t ∉ a.created := h.absent hj rfl
  have hst : Stand I { s.k with queues := QueueStore.append s.k.queues .ready t, created := s.k.created ++ [t] } (readied t a) := by
    refine ⟨?_, h.stand.stands.append ready_lists (fun i hi _ => h.wf.off_of_absent hn i hi)⟩
    rw [h.stand.onto]; rfl
  refine ⟨_, rfl, h.goto hj hst ⟨rfl, fun u hu => List.mem_append_left _ hu, fun u hu => ?_, fun u hu => ?_, fun _ _ _ => rfl⟩ rfl
    ⟨List.mem_append_left _ hold.worker, ?_, trivial, trivial⟩ (fun P' hP => readied_wf h.wf hn hold.built (fun u => ?_))⟩
  · have hu : u ≠ t := hu
    simp [readied, hu]
  · simpa [readied] using hu
  · simp [readied, Job.thread, Job.late]
  · rw [hP]
    by_cases e : u = t
    · simp [e, Job.late, Job.thread]
    · simp [e, Job.late, Job.thread]

/-- thread_all_list gets the new thread, and `thread_start` is done. -/
theorem Inv.append_all (h : Inv I s a) (hj : s.job s.k.cur = some (.append t .all)) :
    ∃ s', s.exec (.append t .all) = .ok s' ∧ Inv I s' (listed t a) := by
  have hold := h.jobs.each _ _ hj
  have hc : t ∈ a.created := hold.created.mpr rfl
  have hnf : t ∉ a.queues .all := h.not_found (i := .all) hj rfl
  have hst : Stand I { s.k with queues := QueueStore.append s.k.queues .all t } (listed t a) := by
    refine ⟨?_, h.stand.stands.append all_lists (fun i hi hia => ?_)⟩
    · rw [h.stand.onto]; rfl
    · rw [hia.mp rfl]; exact hnf
  have hw : Wf I (pending (Function.update s.job s.k.cur none)) (some (listed t a).cur) (listed t a) := by
    refine listed_wf h.wf hc ⟨_, _, hj, rfl, rfl⟩ (fun u => ?_)
    rw [pending_goto h.jobs hj]
    simp [Job.thread]
  refine ⟨_, rfl, hst, hw, h.jobs.done hj ⟨rfl, fun _ hu => hu, fun _ _ => Iff.rfl, fun u hu => ?_, fun _ _ _ => rfl⟩⟩
  simp [listed, hu]

/-! ## A step of the system -/

/-- A call of `thread_start`. -/
theorem Inv.call (h : Inv I s a) {prio : Nat} (hl : s.Legal I (.call (.threadStart (some t) prio))) :
    Inv I (s.goto s.k (some (.init t prio))) a := by
  obtain ⟨⟨⟨-, -, ht⟩, -⟩, hnone, hpages⟩ := hl
  obtain ⟨hcur, hcr, -⟩ := h.stand.fields
  have ht : t ∉ a.created := by rw [← hcr]; exact ht
  have hnew : ∀ w j, s.job w = some j → j.thread ≠ t := fun w j hj e =>
    hpages w (hcr ▸ (h.jobs.each w j hj).worker) (by rw [hj, ← e]; rfl)
  have hjob : ∀ w j, (s.goto s.k (some (.init t prio))).job w = some j →
      w = s.k.cur ∧ some (.init t prio) = some j ∨ w ≠ s.k.cur ∧ s.job w = some j := fun w j hj => job_update hj
  have hp : pending (s.goto s.k (some (.init t prio))).job = pending s.job := by
    ext u
    constructor
    · intro hex
      obtain ⟨w, j, hj, hl, rfl⟩ := hex
      rcases hjob w j hj with ⟨-, e⟩ | ⟨-, hj⟩
      · cases e; cases hl
      · exact ⟨w, j, hj, hl, rfl⟩
    · intro hex
      obtain ⟨w, j, hj, hl, rfl⟩ := hex
      have hw : w ≠ s.k.cur := fun e => by rw [e, hnone] at hj; cases hj
      exact ⟨w, j, by simpa [System.goto, hw] using hj, hl, rfl⟩
  refine ⟨h.stand, hp ▸ h.wf, fun w j hj => ?_, distinct_update h.jobs.distinct fun j' e w j _ hj => ?_⟩
  · rcases hjob w j hj with ⟨rfl, e⟩ | ⟨-, hj⟩
    · cases e
      exact ⟨hcur ▸ h.wf.curCreated, by simpa [Job.thread, Job.late] using ht, trivial, trivial⟩
    · exact h.jobs.each w j hj
  · cases e
    exact hnew w j hj

/-- A search goes on from its list exactly when it goes on steadily. -/
theorem Inv.steady_iff (h : Inv I s a) {i : Target} {elem : Node} (hj : s.job s.k.cur = some (.walk t i elem))
    (hr : (s.k.task s.k.cur).resume = none) : s.Steady .go ↔ OnList a.queues i.qid elem := by
  have hcursor := (h.jobs.each _ _ hj).cursor
  obtain ⟨-, -, htask, -⟩ := h.stand.fields
  cases i with
  | all =>
    have hu : s.underCursor = none := by simp [underCursor, hr, hj]
    exact ⟨fun _ => hcursor, fun _ _ u hm => by rw [hu] at hm; cases hm⟩
  | ready =>
    rcases hcursor with rfl | ⟨u, hu, rfl⟩
    · have hu : s.underCursor = none := by simp [underCursor, hr, hj]
      exact ⟨fun _ => .inl rfl, fun _ _ u hm => by rw [hu] at hm; cases hm⟩
    · have huc : s.underCursor = some u := by simp [underCursor, hr, hj]
      constructor
      · intro hs
        have := hs rfl u huc
        rw [htask] at this
        exact .inr ⟨u, (h.wf.readyMem u).mpr ⟨hu, this⟩, rfl⟩
      · rintro (e | ⟨v, hv, e⟩) - u' hu'
        · cases e
        · cases e
          rw [huc] at hu'
          cases hu'
          rw [htask]; exact ((h.wf.readyMem u).mp hv).2

/-- What a legal and steady step does: it keeps the invariant, or stops for a reason that
    has nothing to do with the searches. -/
theorem Inv.step (h : Inv I s a) (hl : s.Legal I op) (hs : s.Steady op) :
    (∀ s', s.step op = .ok s' → ∃ a', Inv I s' a') ∧
      ∀ e, s.step op = .error e → ∃ site, e = .assert site ∧ site ∉ findSites := by
  -- the steps the rest of the kernel takes
  have hkernel : (∀ t prio, op ≠ .call (.threadStart (some t) prio)) →
      s.step op = (do let k ← TinyOs.Thread.step s.k op; .ok { s with k := k }) →
      (∀ s', s.step op = .ok s' → ∃ a', Inv I s' a') ∧
        ∀ e, s.step op = .error e → ∃ site, e = .assert site ∧ site ∉ findSites := fun hop he => by
    rw [he]
    refine ⟨fun s' hs' => ?_, fun e hk => ?_⟩
    · obtain ⟨k', hk, e⟩ := bind_ok_iff.mp hs'
      cases e
      exact h.kernel hl.1 hop hk
    · rcases bind_error_iff.mp hk with hk | ⟨_, -, hk⟩
      · obtain ⟨site, rfl, hst⟩ := h.stand.stops h.wf hl.1 hk
        exact ⟨site, rfl, hst.not_find⟩
      · cases hk
  -- the steps of `thread_start`
  have hgood : ∀ {s1 a1}, s.step op = .ok s1 → Inv I s1 a1 → (∀ s', s.step op = .ok s' → ∃ a', Inv I s' a') ∧
      ∀ e, s.step op = .error e → ∃ site, e = .assert site ∧ site ∉ findSites := fun he hi => by
    rw [he]
    exact ⟨fun s' e => by cases e; exact ⟨_, hi⟩, fun e he => by cases he⟩
  cases op with
  | timer => exact hkernel (by simp) rfl
  | call c =>
    cases c with
    | threadStart page prio =>
      cases page with
      | none =>
        refine ⟨fun s' he => (by cases he), fun e he => ?_⟩
        cases he
        exact ⟨.memsetDst, rfl, by simp [findSites]⟩
      | some t => exact hgood rfl (h.call hl)
    | _ => exact hkernel (by simp) rfl
  | go =>
    cases hr : (s.k.task s.k.cur).resume with
    | some r =>
      apply hkernel (by simp)
      simp only [System.step, hr]
    | none =>
      cases hj : s.job s.k.cur with
      | none =>
        apply hkernel (by simp)
        simp only [System.step, hr, hj]
      | some j =>
        have he := step_job hr hj
        cases j with
        | init t prio => exact hgood he (h.init hj)
        | create t => exact hgood he (h.create hj)
        | find t i => exact hgood he (h.find hj)
        | walk t i elem =>
          obtain ⟨j', hj', hi⟩ := h.walk hj ((h.steady_iff hj hr).mp hs)
          refine hgood (he.trans ?_) hi
          simp [exec, hj']
        | append t i =>
          cases i with
          | ready =>
            obtain ⟨s', hs', hi⟩ := h.append_ready hj
            exact hgood (he.trans hs') hi
          | all =>
            obtain ⟨s', hs', hi⟩ := h.append_all hj
            exact hgood (he.trans hs') hi

/-! ## How long a search goes on -/

theorem roundsLeft_chain {tail elem : Node} {L : List Node} {n : Nat} (he : (L ++ [tail]).head? = some elem)
    (hc : m.Chain (L ++ [tail])) (ht : tail ∉ L) (hn : L.length < n) : roundsLeft m tail n elem = L.length + 1 := by
  induction L generalizing elem n with
  | nil =>
    obtain ⟨n, rfl⟩ := Nat.exists_eq_add_one_of_ne_zero (by omega : n ≠ 0)
    cases he
    simp [roundsLeft]
  | cons x L ih =>
    obtain ⟨n, rfl⟩ := Nat.exists_eq_add_one_of_ne_zero (by omega : n ≠ 0)
    cases he
    have hne : x ≠ tail := fun e => ht (by simp [e])
    obtain ⟨y, M, hy⟩ := List.exists_cons_of_ne_nil (by simp : L ++ [tail] ≠ [])
    rw [List.cons_append, hy] at hc
    have hnext : m.next x = y := (List.isChain_cons_cons.mp hc).1.1
    rw [roundsLeft, if_neg hne, hnext, ih (by rw [hy]; rfl) (hy ▸ (List.isChain_cons_cons.mp hc).2)
      (fun hm => ht (List.mem_cons_of_mem _ hm)) (by simpa using hn)]
    rfl

/-- What is in front of a cursor that is on its list. -/
theorem Inv.roundsLeft_onList (h : Inv I s a) {i : Target} {elem : Node} (ho : OnList a.queues i.qid elem) :
    ∃ r, r ≤ (a.queues i.qid).length ∧ ∀ n, r < n → roundsLeft s.k.queues (.tail i.qid) n elem = r + 1 := by
  rcases ho with rfl | ⟨u, hu, rfl⟩
  · exact ⟨0, Nat.zero_le _, fun n hn => roundsLeft_chain (L := []) rfl (List.isChain_singleton _) (by simp) hn⟩
  · obtain ⟨B, -, hlen, hc⟩ := h.stand.stands.suffix (target_lists i) hu
    refine ⟨B.length + 1, by omega, fun n hn => ?_⟩
    have hrounds := roundsLeft_chain (m := s.k.queues) (L := i.qid.node u :: B.map i.qid.node) (n := n)
      rfl hc (by simp [node_ne_tail, (node_ne_tail _ _ _).symm]) (by simpa using hn)
    simpa using hrounds

/-- A search that begins has the whole list in front of it. -/
theorem Inv.roundsLeft_first (h : Inv I s a) (i : Target) {n : Nat} (hn : (a.queues i.qid).length < n) :
    roundsLeft s.k.queues (.tail i.qid) n (s.k.queues.next (.head i.qid)) = (a.queues i.qid).length + 1 := by
  have hc : s.k.queues.Chain (.head i.qid :: ((a.queues i.qid).map i.qid.node ++ [.tail i.qid])) :=
    h.stand.stands.chain i.qid (target_lists i)
  obtain ⟨y, M, hy⟩ := List.exists_cons_of_ne_nil (by simp : (a.queues i.qid).map i.qid.node ++ [Node.tail i.qid] ≠ [])
  rw [hy] at hc
  have hnext : s.k.queues.next (.head i.qid) = y := (List.isChain_cons_cons.mp hc).1.1
  rw [hnext]
  have hrounds := roundsLeft_chain (L := (a.queues i.qid).map i.qid.node) (n := n) (by rw [hy]; rfl)
    (hy ▸ (List.isChain_cons_cons.mp hc).2) (by simp [node_ne_tail]) (by simpa using hn)
  simpa using hrounds

theorem Inv.fuel (h : Inv I s a) (i : Target) : (a.queues i.qid).length < s.k.fuel := by
  rw [Kernel.fuel, h.stand.fields.2.1]
  exact h.wf.fuel (target_lists i)

/-- An iteration that does not end the search. -/
theorem iterate_walk {thread t' : Tid} {i i' : Target} {elem elem' : Node}
    (h : iterate m thread i elem = .ok (.walk t' i' elem')) :
    elem ≠ .tail i.qid ∧ t' = thread ∧ i' = i ∧ elem' = m.next elem := by
  unfold iterate at h
  split at h
  · cases h
  · next hne =>
    split at h
    · cases h
    split at h
    · cases h
    cases h
    exact ⟨hne, rfl, rfl, rfl⟩

/-- A statement of `thread_start` is about the running thread's job. -/
theorem exec_job {j : Job} (he : s.exec j = .ok s') {c : Tid} (hc : c ≠ s.k.cur) : s'.job c = s.job c := by
  have hgoto : ∀ k o, (s.goto k o).job c = s.job c := fun k o => Function.update_of_ne hc ..
  cases j with
  | walk t i elem =>
    obtain ⟨j', -, e⟩ := bind_ok_iff.mp he
    cases e
    exact hgoto ..
  | append t i => cases i <;> cases he <;> exact hgoto ..
  | init t prio => cases he; exact hgoto ..
  | create t => cases he; exact hgoto ..
  | find t i => cases he; exact hgoto ..

/-- What a step does to the jobs. -/
theorem step_cases (hk : s.step op = .ok s') :
    (s'.job = s.job ∧ (op = .go → (s.k.task s.k.cur).resume = none → s.job s.k.cur = none)) ∨
      (∃ t prio, op = .call (.threadStart (some t) prio) ∧ s' = s.goto s.k (some (.init t prio))) ∨
      ∃ j, op = .go ∧ (s.k.task s.k.cur).resume = none ∧ s.job s.k.cur = some j ∧ s.exec j = .ok s' := by
  have hsame : (do let k ← TinyOs.Thread.step s.k op; .ok { s with k := k }) = Except.ok s' → s'.job = s.job := fun hk => by
    obtain ⟨k', -, e⟩ := bind_ok_iff.mp hk
    cases e; rfl
  cases op with
  | timer => exact .inl ⟨hsame hk, nofun⟩
  | call c =>
    cases c with
    | threadStart page prio =>
      cases page with
      | none => cases hk
      | some t => exact .inr (.inl ⟨t, prio, rfl, (Except.ok.inj hk).symm⟩)
    | _ => exact .inl ⟨hsame hk, nofun⟩
  | go =>
    cases hr : (s.k.task s.k.cur).resume with
    | some r =>
      simp only [System.step, hr] at hk
      exact .inl ⟨hsame hk, fun _ => nofun⟩
    | none =>
      cases hj : s.job s.k.cur with
      | none =>
        simp only [System.step, hr, hj] at hk
        exact .inl ⟨hsame hk, fun _ _ => rfl⟩
      | some j =>
        rw [step_job hr hj] at hk
        exact .inr (.inr ⟨j, rfl, rfl, rfl, hk⟩)

/-- A search has made no more iterations than it had to, and than have been added. -/
structure Search.Ok (N : Nat) (x : Search) : Prop where
  left : 0 < x.left
  sum : x.made + x.left ≤ x.first + x.grown
  grown : x.grown ≤ N

namespace Watched

variable {N : Nat} {w w' : Watched}

structure Inv (I : Set Sema) (N : Nat) (w : Watched) (a : Kernel Queues) : Prop where
  system : System.Inv I w.s a
  search : ∀ c t i elem, w.s.job c = some (.walk t i elem) → (w.search c).Ok N

theorem watch_exec (hr : (w.s.k.task w.s.k.cur).resume = none) {j : Job} (hj : w.s.job w.s.k.cur = some j) :
    (w.watch .go s').search = w.count s' j := by
  simp only [watch, hr, hj]

theorem count_other (s : System) (j : Job) {c : Tid} (hc : c ≠ w.s.k.cur) : w.count s j c = w.search c := by
  cases j <;> first | rfl | exact Function.update_of_ne hc ..

/-- A search that begins. -/
theorem Inv.begin (h : Inv I N w a) {i : Target} (hr : (w.s.k.task w.s.k.cur).resume = none)
    (hj : w.s.job w.s.k.cur = some (.find t i)) : ∃ w', w.step .go = .ok w' ∧
      w'.search w.s.k.cur = ⟨(a.queues i.qid).length + 1, 0, (a.queues i.qid).length + 1, 0⟩ := by
  let s' := w.s.goto w.s.k (some (.walk t i (w.s.k.queues.next (.head i.qid))))
  have hs' : w.s.step .go = .ok s' := step_job hr hj
  refine ⟨w.watch .go s', by rw [step, hs']; rfl, ?_⟩
  have hrounds : s'.rounds w.s.k.cur = (a.queues i.qid).length + 1 := by
    rw [rounds, show s'.job w.s.k.cur = _ from Function.update_self ..]
    exact h.system.roundsLeft_first i (h.system.fuel i)
  rw [watch_exec hr hj, count, hrounds]
  exact Function.update_self ..

/-- An iteration: one more is made, one less is left. -/
theorem Inv.iteration (h : Inv I N w a) {i : Target} {elem : Node} (hr : (w.s.k.task w.s.k.cur).resume = none)
    (hj : w.s.job w.s.k.cur = some (.walk t i elem)) (ho : OnList a.queues i.qid elem) (hN : w.Within N .go)
    (hk : w.s.step .go = .ok s') {t' : Tid} {i' : Target} {elem' : Node} (hj' : s'.job w.s.k.cur = some (.walk t' i' elem')) :
    ((w.watch .go s').search w.s.k.cur).Ok N := by
  have hold := h.search _ _ _ _ hj
  have hgrown : w.grown ≤ N := hN ⟨rfl, by simp only [inSearch, hr, hj]⟩
  obtain ⟨r, hr', hrounds⟩ := h.system.roundsLeft_onList ho
  have hfuel := h.system.fuel i
  have hbefore : w.s.rounds w.s.k.cur = r + 1 := by
    rw [rounds, hj]; exact hrounds _ (by omega)
  obtain ⟨j', hit, he⟩ := bind_ok_iff.mp ((step_job hr hj).symm.trans hk)
  cases he
  cases (Function.update_self ..).symm.trans hj'
  obtain ⟨hne, rfl, rfl, rfl⟩ := iterate_walk hit
  have hafter : (w.s.goto w.s.k (some (.walk t' i' (w.s.k.queues.next elem)))).rounds w.s.k.cur = r := by
    rw [rounds, show (w.s.goto w.s.k (some (.walk t' i' (w.s.k.queues.next elem)))).job w.s.k.cur = _ from Function.update_self ..]
    have hsucc := hrounds (w.s.k.fuel + 1) (by omega)
    rw [roundsLeft, if_neg hne] at hsucc
    exact Nat.succ.inj hsucc
  have hpos : r ≠ 0 := by
    rintro rfl
    have hsucc := hrounds 2 (by omega)
    rw [roundsLeft, if_neg hne, roundsLeft] at hsucc
    split at hsucc <;> omega
  rw [watch_exec hr hj, count, Function.update_self, hafter]
  refine ⟨by dsimp only; omega, ?_, hgrown⟩
  have hsum := hold.sum
  simp only [grown, hbefore]
  omega

/-- What a step that keeps to the conditions does. -/
theorem Inv.step (h : Inv I N w a) {op : Op} (hl : w.s.Legal I op) (hs : w.s.Steady op) (hN : w.Within N op)
    (hk : w.step op = .ok w') : ∃ a', Inv I N w' a' := by
  obtain ⟨s', hs', e⟩ := bind_ok_iff.mp hk
  cases e
  obtain ⟨a', ha'⟩ := (h.system.step hl hs).1 s' hs'
  refine ⟨a', ha', fun c t i elem hj' => ?_⟩
  rcases step_cases hs' with ⟨hjob, hnot⟩ | ⟨t0, prio, rfl, rfl⟩ | ⟨j, rfl, hr, hj, he⟩
  · -- no statement of `thread_start`
    have hsearch : (w.watch op s').search = w.search := by
      unfold watch
      split
      · next hr hj => rw [hnot rfl hr] at hj; cases hj
      · rfl
    have hj' : s'.job c = some (.walk t i elem) := hj'
    rw [hsearch]
    exact h.search c t i elem (hjob ▸ hj')
  · rcases job_update hj' with ⟨-, e⟩ | ⟨-, hj⟩
    · cases e
    · exact h.search c t i elem hj
  · by_cases hc : c = w.s.k.cur
    · subst hc
      have hj' : s'.job w.s.k.cur = some (.walk t i elem) := hj'
      cases j with
      | find t1 i1 =>
        obtain ⟨w1, hw1, hsearch⟩ := h.begin hr hj
        obtain rfl : w1 = w.watch .go s' := Except.ok.inj (hw1.symm.trans hk)
        rw [hsearch]
        exact ⟨by dsimp only; omega, by dsimp only; omega, Nat.zero_le _⟩
      | walk t1 i1 elem1 =>
        exact h.iteration hr hj ((h.system.steady_iff hj hr).mp hs) hN hs' hj'
      | init t1 prio => cases he; cases (Function.update_self ..).symm.trans hj'
      | create t1 => cases he; cases (Function.update_self ..).symm.trans hj'
      | append t1 i1 => cases i1 <;> cases he <;> cases (Function.update_self ..).symm.trans hj'
    · rw [watch_exec hr hj, count_other s' j hc]
      refine h.search c t i elem ?_
      have hj' : s'.job c = some (.walk t i elem) := hj'
      rwa [exec_job he hc] at hj'

end Watched

/-! ## Runs -/

/-- The states of all legal runs in which every search goes on steadily, and what is in front
    of its cursor grows by at most `N`. -/
def SteadyRuns (I : Set Sema) (N : Nat) : Watched → Prop :=
  Reach (fun w => First I w.s) (fun w op => w.s.Legal I op ∧ w.s.Steady op ∧ w.Within N op) Watched.step

/-- `thread_start` among other threads, in every such run. -/
theorem start_safe {N : Nat} {w : Watched} (h : SteadyRuns I N w) : ∃ ts, InOrder I (pending w.s.job) w.s.k ts ∧
    (∀ t i, w.s.job w.s.k.cur = some (.find t i) → (w.s.k.task w.s.k.cur).resume = none → ∃ w', w.step .go = .ok w' ∧
      w'.search w.s.k.cur = ⟨(ts i.qid).length + 1, 0, (ts i.qid).length + 1, 0⟩) ∧
    (∀ c t i elem, w.s.job c = some (.walk t i elem) → (w.search c).made < (w.search c).first + N) ∧
    (∀ t i elem, w.s.job w.s.k.cur = some (.walk t i elem) → (w.s.k.task w.s.k.cur).resume = none →
      (w.s.Steady .go ↔ OnList ts i.qid elem) ∧
      (w.s.Steady .go → ∃ n ≤ (ts i.qid).length + 1, w.s.goes n = .ok (w.s.goto w.s.k (some (.append t i))))) ∧
    (∀ t i, w.s.job w.s.k.cur = some (.append t i) → (w.s.k.task w.s.k.cur).resume = none → t ∉ ts i.qid ∧
      ∃ s', w.s.step .go = .ok s' ∧
        InOrder I (pending s'.job) s'.k (Function.update ts i.qid (ts i.qid ++ [t]))) ∧
    ∀ op, w.s.Legal I op → w.s.Steady op → ∀ e, w.step op = .error e → ∃ site, e = .assert site ∧ site ∉ findSites := by
  obtain ⟨a, hi⟩ : ∃ a, Watched.Inv I N w a := by
    refine h.invariant (P := fun w => ∃ a, Watched.Inv I N w a) (fun w hw => ?_)
      (fun w w' op ⟨a, hi⟩ hl hk => hi.step hl.1 hl.2.1 hl.2.2 hk)
    obtain ⟨a, ha⟩ := first_inv hw
    exact ⟨a, ha, fun c t i elem hj => by rw [hw.2] at hj; cases hj⟩
  have hs := hi.system
  refine ⟨a.queues, hs.stand.inOrder hs.wf, fun t i hj hr => hi.begin hr hj, fun c t i elem hj => ?_,
    fun t i elem hj hr => ⟨hs.steady_iff hj hr, fun hst => ?_⟩, fun t i hj hr => ?_, fun op hl hst e he => ?_⟩
  · have hok := hi.search c t i elem hj
    have hleft := hok.left
    have hsum := hok.sum
    have hgrown := hok.grown
    omega
  · have hnf : t ∉ a.queues i.qid := hs.not_found hj (by cases i <;> rfl)
    rcases (hs.steady_iff hj hr).mp hst with rfl | ⟨u, hu, rfl⟩
    · refine ⟨1, by omega, ?_⟩
      show (do goes 0 (← w.s.step .go)) = _
      rw [step_job hr hj]
      simp [exec, iterate, goes]
    · obtain ⟨B, hB, hlen, hc⟩ := hs.stand.stands.suffix (target_lists i) hu
      refine ⟨B.length + 2, by omega, goes_walk hr (fun hm => ?_) hc hj⟩
      rcases List.mem_cons.mp hm with e | hm
      · exact hnf (e ▸ hu)
      · exact hnf (hB t hm)
  · refine ⟨hs.not_found hj (by cases i <;> rfl), ?_⟩
    cases i with
    | ready =>
      obtain ⟨s', hs', hi'⟩ := hs.append_ready hj
      exact ⟨s', (step_job hr hj).trans hs', hi'.stand.inOrder hi'.wf⟩
    | all =>
      obtain ⟨s', hs', hi'⟩ := hs.append_all hj
      exact ⟨s', (step_job hr hj).trans hs', hi'.stand.inOrder hi'.wf⟩
  · rcases bind_error_iff.mp he with he | ⟨_, -, he⟩
    · exact (hs.step hl hst).2 e he
    · cases he

/-! ## A search that leaves its list -/

/-- The system after `threads_init` and some operations. -/
def after (ops : List Op) : System := ops.foldl (next System.step) ⟨TinyOs.Thread.after [], fun _ => none⟩

theorem after_first : First I ⟨TinyOs.Thread.after [], fun _ => none⟩ := ⟨⟨quiet, quiet_boot I, rfl⟩, rfl⟩

/-- The main thread (0xc009e000) starts A (0xc0101000) and W (0xc0102000), takes the unit of a
    semaphore and yields. W starts another thread; its search of the ready list comes to A. -/
def searching : List Op :=
  [.call (.threadStart (some 0xc0101000) 5)] ++ List.replicate 9 .go ++ [.call (.threadStart (some 0xc0102000) 0)] ++
    List.replicate 11 .go ++ [.call (.semaDown 0), .go, .call .threadYield, .go, .call .threadYield, .go,
    .call (.threadStart (some 0xc0103000) 5), .go, .go, .go, .go]

/-- Nothing is counted yet. -/
def unwatched (s : System) : Watched := ⟨s, fun _ => ⟨0, 0, 0, 0⟩⟩

/-- W is preempted before it looks at A; the main thread, which the cursor has passed, stops, is
    woken by A and goes behind it. -/
def overtaking : List Op :=
  searching ++ [.timer, .go, .call (.threadBlock .waiting), .go, .call (.threadUnblock 0xc009e000), .go, .call .threadYield,
    .go, .call .threadYield, .go, .go]

def overtaken : Watched := overtaking.foldl (next Watched.step) (unwatched ⟨TinyOs.Thread.after [], fun _ => none⟩)

theorem overtaken_runs : SteadyRuns {.free 0} 1 overtaken := Reach.script (.first after_first) (by decide +kernel)

/-- Two more nodes to go, after two of what were three iterations. -/
example : overtaken.search 0xc0102000 = ⟨3, 2, 2, 1⟩ := by decide +kernel

/-- `start_safe` there. -/
theorem overtaken_safe : ∃ ts, InOrder {.free 0} (pending overtaken.s.job) overtaken.s.k ts ∧
    (∀ t i, overtaken.s.job overtaken.s.k.cur = some (.find t i) → (overtaken.s.k.task overtaken.s.k.cur).resume = none →
      ∃ w', overtaken.step .go = .ok w' ∧
        w'.search overtaken.s.k.cur = ⟨(ts i.qid).length + 1, 0, (ts i.qid).length + 1, 0⟩) ∧
    (∀ c t i elem, overtaken.s.job c = some (.walk t i elem) → (overtaken.search c).made < (overtaken.search c).first + 1) ∧
    (∀ t i elem, overtaken.s.job overtaken.s.k.cur = some (.walk t i elem) →
      (overtaken.s.k.task overtaken.s.k.cur).resume = none → (overtaken.s.Steady .go ↔ OnList ts i.qid elem) ∧
      (overtaken.s.Steady .go →
        ∃ n ≤ (ts i.qid).length + 1, overtaken.s.goes n = .ok (overtaken.s.goto overtaken.s.k (some (.append t i))))) ∧
    (∀ t i, overtaken.s.job overtaken.s.k.cur = some (.append t i) → (overtaken.s.k.task overtaken.s.k.cur).resume = none →
      t ∉ ts i.qid ∧ ∃ s', overtaken.s.step .go = .ok s' ∧
        InOrder {.free 0} (pending s'.job) s'.k (Function.update ts i.qid (ts i.qid ++ [t]))) ∧
    ∀ op, overtaken.s.Legal {.free 0} op → overtaken.s.Steady op → ∀ e, overtaken.step op = .error e →
      ∃ site, e = .assert site ∧ site ∉ findSites := start_safe overtaken_runs

/-- W is preempted, A waits for the semaphore, and W goes on. -/
def astray : List Op :=
  searching ++ [.timer, .go, .call .threadYield, .go, .call (.semaDown 0), .go, .go, .go, .go]

example : (after searching).job (after searching).k.cur = some (.walk 0xc0103000 .ready (.generalTag 0xc0101000)) := by
  decide +kernel

/-- The search runs off the end of the semaphore's waiters list and reads a NULL link. -/
theorem walk_reads_null : ¬ ∀ s, Reach (First {.free 0}) (fun s op => s.Legal {.free 0} op) System.step s →
    ∀ op, s.Legal {.free 0} op → s.step op ≠ .error .fault := by
  intro h
  have hs : Reach (First {.free 0}) (fun s op => s.Legal {.free 0} op) System.step (after astray) :=
    Reach.script (.first after_first) (by decide +kernel)
  refine h _ hs .go (by decide +kernel) ?_
  exact errorOf_eq.mp (by decide +kernel)

end System

end TinyOs.Thread
