/-
  TinyOs.Userprog.Process — processes among the kernel threads (userprog/process.c).

  `process_execute` is cut where a timer interrupt can come: after the PCB is made, and
  after `create_page_dir`; its appends run with interrupts off. The other steps are those
  of the scheduler, and PCBs and page directories are pages of the kernel heap.

  `process_activate` gives a task its address space (CR3) and a process the stack for its
  interrupts (tss.esp0). No function calls it: `schedule` only switches stacks. So CR3 and
  esp0 stay as the boot leaves them, which is right for kernel threads alone.
  - `settled_iff_calm`: a step leaves the running task settled exactly where it does not
    leave a process running.
  - `processActivate_settles`: after any step, the missing call would settle that task.
-/

import TinyOs.Memory.HeapPages
import TinyOs.Thread.Dispatch
import TinyOs.Thread.InOrder
import TinyOs.Userprog.Tss

namespace TinyOs.Userprog

open TinyOs.Kernel TinyOs.Lib TinyOs.Logic TinyOs.Logic.X86 TinyOs.Thread

/-- The next statement of a thread in `process_execute` that got page `thread`. -/
inductive ProcJob where
  | createPageDir (thread : Tid)
  | append (thread : Tid)
  deriving DecidableEq, Repr

def ProcJob.thread : ProcJob → Tid
  | .createPageDir t | .append t => t

structure TaskSystem where
  k : Kernel (Links Node)
  /-- Its `cr3` is the register. -/
  mem : Memory.Mem
  /-- The address of the TSS. -/
  tssAddr : Word
  tss : Machine
  /-- The PCBs' field. -/
  pgdir : Tid → Nat
  job : Tid → Option ProcJob

inductive TaskOp where
  | kernel (op : Op)
  | threadStart (prio : Nat)
  | processExecute

def defaultPrio : Nat := 31

namespace TaskSystem

def esp0 (s : TaskSystem) : Word := s.tss.mem.read32 (s.tssAddr + 4)

/-! ## The code -/

/-- The running thread calls the allocator. Nothing writes userprog_vaddr, which `init_thread` clears. -/
def calls (s : TaskSystem) : Memory.Mem := s.mem.activate s.mem.cr3 ⟨s.k.cur, s.pgdir s.k.cur, Memory.noRange⟩

def pageDirActivate (pThread : Tid) (s : TaskSystem) : Except Stop TaskSystem := do
  let pagedirPhyAddr ← (if s.pgdir pThread ≠ 0 then Memory.addrV2p (s.pgdir pThread) s.mem else .ok 0x100000)
  .ok { s with mem := { s.mem with cr3 := pagedirPhyAddr } }

def processActivate (pThread : Tid) (s : TaskSystem) : Except Stop TaskSystem := do
  assert (pThread ≠ 0) .activateThread
  let s ← pageDirActivate pThread s
  .ok (if s.pgdir pThread ≠ 0 then { s with tss := updateTssEsp s.tssAddr (BitVec.ofNat 32 pThread) s.tss } else s)

/-- To the end of `thread_create`. A page of NULL trips the ASSERT of `memset`. -/
def processExecute (s : TaskSystem) : Except Stop TaskSystem := do
  let (thread, mem) ← Memory.getKernelPages 1 s.calls
  assert (thread ≠ 0) .memsetDst
  let k := Thread.threadCreate (Thread.initThread s.k thread defaultPrio) thread
  .ok { s with
    k := k
    mem := mem
    pgdir := Function.update s.pgdir thread 0
    job := Function.update s.job s.k.cur (some (.createPageDir thread)) }

/-- Both appends, from `intr_disable` to `intr_set_status`. -/
def enlist (thread : Tid) (k : Kernel (Links Node)) : Except Stop (Kernel (Links Node)) := do
  let found ← QueueStore.find k.fuel k.queues .ready thread
  assert (!found) .executeReadyFind
  let k := { k with queues := QueueStore.append k.queues .ready thread }
  let found ← QueueStore.find k.fuel k.queues .all thread
  assert (!found) .executeAllFind
  .ok { k with queues := QueueStore.append k.queues .all thread, created := k.created ++ [thread] }

def exec (s : TaskSystem) : ProcJob → Except Stop TaskSystem
  | .createPageDir thread => do
    let (pgdir, mem) ← Memory.createPageDir s.calls
    .ok { s with
      mem := mem
      pgdir := Function.update s.pgdir thread pgdir
      job := Function.update s.job s.k.cur (some (.append thread)) }
  | .append thread => do
    let k ← enlist thread s.k
    .ok { s with k := k, job := Function.update s.job s.k.cur none }

def threadStart (prio : Nat) (s : TaskSystem) : Except Stop TaskSystem := do
  let (thread, mem) ← Memory.getKernelPages 1 s.calls
  let k ← Thread.threadStart (if thread = 0 then none else some thread) prio s.k
  .ok { s with k := k, mem := mem, pgdir := Function.update s.pgdir thread 0 }

def kernelStep (s : TaskSystem) (op : Op) : Except Stop TaskSystem := do
  let k ← Thread.step s.k op
  .ok { s with k := k }

def step (s : TaskSystem) : TaskOp → Except Stop TaskSystem
  | .kernel .go =>
    match (s.k.task s.k.cur).resume, s.job s.k.cur with
    | none, some j => s.exec j
    | _, _ => s.kernelStep .go
  | .kernel op => s.kernelStep op
  | .threadStart prio => s.threadStart prio
  | .processExecute => s.processExecute

/-- The running thread is in its own code. -/
def OwnCode (s : TaskSystem) : Prop :=
  (s.k.task s.k.cur).resume = none ∧ (s.k.task s.k.cur).pc = .run ∧ s.job s.k.cur = none

def Legal (I : Set Sema) (s : TaskSystem) : TaskOp → Prop
  | .kernel (.call (.threadStart _ _)) => False
  | .kernel (.call c) => Thread.Legal I s.k (.call c) ∧ s.job s.k.cur = none
  | .kernel op => Thread.Legal I s.k op
  | .threadStart _ => s.OwnCode
  | .processExecute => s.OwnCode

/-- After `threads_init`, `tss_init` and mem_pool_init, in the directory of `setup_page`. -/
structure First (I : Set Sema) (s : TaskSystem) : Prop where
  booted : Booted I s.k
  main : s.k.cur = 0xc009e000
  mem : ∃ allMem s0 m, s0.phys = Memory.setupPage m ∧ Memory.memPoolInit allMem s0 = .ok s.mem
  cr3 : s.mem.cr3 = 0x100000
  tss : ∃ s0, s.tss = tssInit s.tssAddr s0
  pgdir : s.pgdir s.k.cur = 0
  job : ∀ w, s.job w = none

def Runs (I : Set Sema) : TaskSystem → Prop := Reach (First I) (Legal I) step

/-! ## Its own address space -/

/-- The physical address of a task's page directory. -/
def pageDir (s : TaskSystem) (t : Tid) : Option Nat :=
  if s.pgdir t = 0 then some 0x100000 else Memory.translate s.mem.phys 0x100000 (s.pgdir t)

/-- The running task is in its own address space, and a process has its own stack for interrupts. -/
structure Settled (s : TaskSystem) : Prop where
  cr3 : s.pageDir s.k.cur = some s.mem.cr3
  esp0 : s.pgdir s.k.cur ≠ 0 → s.esp0 = BitVec.ofNat 32 (s.k.cur + 4096)

/-- The task that a step leaves running. -/
def dispatched (s : TaskSystem) : TaskOp → Tid
  | .kernel .go =>
    match (s.k.task s.k.cur).resume, s.job s.k.cur with
    | none, some _ => s.k.cur
    | _, _ => Thread.dispatched s.k .go
  | .kernel op => Thread.dispatched s.k op
  | .threadStart _ => s.k.cur
  | .processExecute => s.k.cur

/-- The step leaves no process running. -/
def Calm (s : TaskSystem) (op : TaskOp) : Prop := s.pgdir (s.dispatched op) = 0

/-- The runs whose steps are all calm. -/
def CalmRuns (I : Set Sema) : TaskSystem → Prop := Reach (First I) (fun s op => s.Legal I op ∧ s.Calm op) step

/-! ## The invariant -/

/-- A page of the heap that holds a PCB, with its page directory. -/
structure OnHeap (mem : Memory.Mem) (pgdir : Tid → Nat) (t : Tid) : Prop where
  taken : mem.TakenPage t
  dir : pgdir t ≠ 0 → ∃ F, Memory.DirAt mem (pgdir t) F ∧ F ≠ 0x100000

/-- The main thread's PCB lies below the heap, and it is no process. -/
def PcbOk (s : TaskSystem) (t : Tid) : Prop := t = 0xc009e000 ∧ s.pgdir t = 0 ∨ OnHeap s.mem s.pgdir t

structure ProcJobOk (s : TaskSystem) (a : Kernel Queues) (j : ProcJob) : Prop where
  absent : j.thread ∉ a.created
  built : Prepared (a.task j.thread)
  page : OnHeap s.mem s.pgdir j.thread

/-- No two threads make the same process. -/
def Distinct (job : Tid → Option ProcJob) : Prop :=
  ∀ w w' j j', job w = some j → job w' = some j' → j.thread = j'.thread → w = w'

structure Inv (I : Set Sema) (s : TaskSystem) (a : Kernel Queues) (dirs : List Nat) : Prop where
  stand : Stand I s.k a
  wf : Wf I ∅ (some a.cur) a
  space : Memory.SpaceInv s.mem dirs
  boot : 0x100000 ∈ dirs
  cr3 : s.mem.cr3 = 0x100000
  tss : Tss s.tssAddr 0 s.tss
  tasks : ∀ t ∈ a.created, s.PcbOk t
  jobs : ∀ w j, s.job w = some j → s.ProcJobOk a j
  distinct : Distinct s.job

variable {I : Set Sema} {s s' : TaskSystem} {a a' : Kernel Queues} {dirs : List Nat} {op : TaskOp} {t v : Tid}
  {mem' : Memory.Mem} {pgdir' : Tid → Nat} {j j' : ProcJob}

/-- After a call of the allocator, for the tasks whose field was not written. -/
theorem OnHeap.mono (h : OnHeap s.mem s.pgdir t) (hn : Memory.NewPage s.calls mem' v) (hp : pgdir' t = s.pgdir t) :
    OnHeap mem' pgdir' t := by
  refine ⟨hn.stays.takenPage h.taken, ?_⟩
  intro hne
  rw [hp] at hne ⊢
  obtain ⟨F, hd, hF⟩ := h.dir hne
  exact ⟨F, hn.dirAt ⟨hd.taken, hd.aligned, hd.entry⟩, hF⟩

theorem PcbOk.mono (h : s.PcbOk t) (hn : Memory.NewPage s.calls s'.mem v) (hp : s'.pgdir t = s.pgdir t) : s'.PcbOk t :=
  h.imp (fun hm => ⟨hm.1, hp.trans hm.2⟩) fun hm => hm.mono hn hp

theorem first_inv (h : First I s) : ∃ a, Inv I s a [0x100000] := by
  obtain ⟨k0, hb, hk⟩ := h.booted
  obtain ⟨k', hk', hst⟩ := threadsInit_stand hb
  rw [hk] at hk'
  cases hk'
  have hmain : k0.cur = 0xc009e000 := by
    have hc : s.k.cur = k0.cur := by rw [hst.onto]; rfl
    rw [← hc]
    exact h.main
  obtain ⟨allMem, s0, m, hp, hi⟩ := h.mem
  obtain ⟨t0, ht0⟩ := h.tss
  have hnone : ∀ w j, s.job w ≠ some j := by
    intro w j
    rw [h.job]
    exact Option.some_ne_none j ∘ Eq.symm
  refine ⟨booted k0, hst, booted_wf hb.intrOff, ?_, List.mem_singleton.mpr rfl, h.cr3, ?_, ?_, ?_, ?_⟩
  · rw [Memory.memPoolInit_eq] at hi
    rw [← Except.ok.inj hi]
    exact .boot hp
  · rw [ht0]
    exact tssInit_tss _ _
  · intro t ht
    have ht : t ∈ [k0.cur] := ht
    rw [List.mem_singleton, hmain] at ht
    refine .inl ⟨ht, ?_⟩
    rw [ht, ← h.main]
    exact h.pgdir
  · intro w j hj
    exact absurd hj (hnone w j)
  · intro w w' j j' hj
    exact absurd hj (hnone w j)

/-! ## What the invariant says of the running task -/

theorem Inv.cur (h : Inv I s a dirs) : s.k.cur = a.cur := h.stand.fields.1

theorem Inv.created (h : Inv I s a dirs) : s.k.created = a.created := h.stand.fields.2.1

theorem Inv.cur_pcb (h : Inv I s a dirs) : s.PcbOk s.k.cur := by
  rw [h.cur]
  exact h.tasks _ h.wf.curCreated

theorem Inv.esp0 (h : Inv I s a dirs) : s.esp0 = 0 := by
  have hb : ∀ i, i < 4 → s.tss.mem (s.tssAddr + BitVec.ofNat 32 (4 + i)) = 0 := by
    intro i hi
    rw [h.tss.bytes (4 + i) (by unfold sizeofTss; omega)]
    have hz : ∀ i < 4, tssByte 0 (4 + i) = 0 := by decide
    exact hz i hi
  have h0 := hb 0 (by omega)
  have h1 := hb 1 (by omega)
  have h2 := hb 2 (by omega)
  have h3 := hb 3 (by omega)
  unfold TaskSystem.esp0 Ram.read32
  have e1 : s.tssAddr + 4 + 1 = s.tssAddr + BitVec.ofNat 32 (4 + 1) := by grind
  have e2 : s.tssAddr + 4 + 2 = s.tssAddr + BitVec.ofNat 32 (4 + 2) := by grind
  have e3 : s.tssAddr + 4 + 3 = s.tssAddr + BitVec.ofNat 32 (4 + 3) := by grind
  rw [e1, e2, e3, h1, h2, h3]
  exact congrArg _ h0

/-- A process runs neither in its own address space nor on its own stack for interrupts. -/
theorem Inv.astray (h : Inv I s a dirs) (hp : s.pgdir s.k.cur ≠ 0) :
    (∃ F, s.pageDir s.k.cur = some F ∧ s.mem.cr3 ≠ F) ∧ s.esp0 ≠ BitVec.ofNat 32 (s.k.cur + 4096) := by
  rcases h.cur_pcb with ⟨-, h0⟩ | hheap
  · exact absurd h0 hp
  constructor
  · obtain ⟨F, hd, hF⟩ := hheap.dir hp
    refine ⟨F, ?_, ?_⟩
    · unfold pageDir
      rw [if_neg hp]
      exact hd.translate h.space h.boot
    · rw [h.cr3]
      exact Ne.symm hF
  · obtain ⟨-, -, hlow, hhigh⟩ := h.space.takenPage_addr hheap.taken
    rw [h.esp0]
    intro e
    have e := congrArg BitVec.toNat e
    rw [BitVec.toNat_ofNat] at e
    unfold Memory.kHeapStart at hlow
    unfold Memory.pgSize at hhigh
    have hmod : (s.k.cur + 4096) % 2 ^ 32 = s.k.cur + 4096 := Nat.mod_eq_of_lt (by omega)
    rw [hmod] at e
    have hz : (0 : Word).toNat = 0 := rfl
    omega

theorem Inv.settled_iff (h : Inv I s a dirs) : s.Settled ↔ s.pgdir s.k.cur = 0 := by
  constructor
  · intro hs
    by_contra hp
    exact (h.astray hp).2 (hs.esp0 hp)
  · intro hp
    refine ⟨?_, fun hne => absurd hp hne⟩
    unfold pageDir
    rw [if_pos hp, h.cr3]

/-! ## A step -/

/-- What a step that is no switch does with CR3 and the fields of the running task. -/
structure Leaves (s s' : TaskSystem) : Prop where
  cur : s'.k.cur = s.k.cur
  pgdir : s'.pgdir s.k.cur = s.pgdir s.k.cur

theorem Inv.calls (h : Inv I s a dirs) : Memory.SpaceInv s.calls dirs := h.space.activate _ _

/-- The active directory is the boot's. -/
theorem Inv.active (h : Inv I s a dirs) : s.calls.cr3 ∈ dirs := by
  show s.mem.cr3 ∈ dirs
  rw [h.cr3]
  exact h.boot

/-- The page of a new PCB is nobody's yet. -/
theorem Inv.new_page (h : Inv I s a dirs) (hn : Memory.NewPage s.calls mem' v) (hinv : Memory.SpaceInv mem' dirs)
    (hv : v ≠ 0) : v ∉ a.created ∧ ∀ w j, s.job w = some j → j.thread ≠ v := by
  obtain ⟨htaken, hfree⟩ := hn.fresh hv
  constructor
  · intro hm
    rcases h.tasks v hm with ⟨hmain, -⟩ | hheap
    · obtain ⟨-, -, hlow, -⟩ := hinv.takenPage_addr htaken
      rw [hmain] at hlow
      exact absurd hlow (by decide)
    · exact hfree hheap.taken
  · intro w j hj e
    exact hfree (e ▸ (h.jobs w j hj).page.taken)

/-- A step of the kernel that creates nothing. -/
theorem Inv.kernel {op : Op} (h : Inv I s a dirs) (hl : Thread.Legal I s.k op)
    (hop : ∀ t prio, op ≠ .call (.threadStart (some t) prio)) (hs : s.kernelStep op = .ok s') :
    ∃ a', Inv I s' a' dirs ∧ s'.k.cur = Thread.dispatched s.k op ∧ s'.pgdir = s.pgdir := by
  obtain ⟨k', hk, hs⟩ := bind_ok_iff.mp hs
  cases hs
  have hl' := h.stand.legal hl
  obtain ⟨a', ha, hst⟩ := (h.stand.step h.wf hl').of_ok hk
  have hw := step_wf h.wf (fun t ht => absurd ht (Set.notMem_empty t)) hl' ha
  obtain ⟨f, -⟩ := step_effect h.wf hl' ha
  have hc : ∀ t, t ∈ a'.created → t ∈ a.created := by
    intro t ht
    by_contra hn
    obtain ⟨⟨prio, e⟩, -⟩ := f.fresh t ht hn
    exact hop t prio e
  refine ⟨a', ⟨hst, hw, h.space, h.boot, h.cr3, h.tss, fun t ht => h.tasks t (hc t ht), ?_, h.distinct⟩,
    h.stand.dispatched h.wf hl hk, rfl⟩
  intro w j hj
  have hold := h.jobs w j hj
  have hn : j.thread ∉ a'.created := fun hm => hold.absent (hc _ hm)
  refine ⟨hn, ?_, hold.page⟩
  rw [f.outside _ hn]
  exact hold.built

theorem Inv.threadStart {prio : Nat} (h : Inv I s a dirs) (hl : s.OwnCode) (hs : s.threadStart prio = .ok s') :
    ∃ a', Inv I s' a' dirs ∧ Leaves s s' := by
  obtain ⟨⟨v, mem⟩, hp, hs⟩ := bind_ok_iff.mp hs
  obtain ⟨k', hk, hs⟩ := bind_ok_iff.mp hs
  cases hs
  have hn := h.calls.getKernelPages_new h.active hp
  have hspace := h.calls.getKernelPages h.active hp
  by_cases hv : v = 0
  · rw [if_pos hv] at hk
    cases hk
  rw [if_neg hv] at hk
  obtain ⟨habs, hjobs⟩ := h.new_page hn hspace hv
  have hlegal : Thread.Legal I s.k (.call (.threadStart (some v) prio)) := by
    refine ⟨⟨hl.1, hl.2.1, ?_⟩, fresh_call _ _⟩
    show v ∉ s.k.created
    rw [h.created]
    exact habs
  have hl' := h.stand.legal hlegal
  have hk : Thread.step s.k (.call (.threadStart (some v) prio)) = .ok k' := hk
  obtain ⟨a', ha, hst⟩ := (h.stand.step h.wf hl').of_ok hk
  have hw := step_wf h.wf (fun t ht => absurd ht (Set.notMem_empty t)) hl' ha
  obtain ⟨f, -⟩ := step_effect h.wf hl' ha
  have hc : ∀ t, t ∈ a'.created → t = v ∨ t ∈ a.created := by
    intro t ht
    by_contra hno
    obtain ⟨⟨prio', e⟩, -⟩ := f.fresh t ht fun hm => hno (.inr hm)
    cases e
    exact hno (.inl rfl)
  have hcv : v ≠ s.k.cur := by
    rw [h.cur]
    exact fun e => habs (e ▸ h.wf.curCreated)
  refine ⟨a', ⟨hst, hw, hspace, h.boot, hn.stays.cr3.trans h.cr3, h.tss, ?_, ?_, h.distinct⟩, ?_, ?_⟩
  · intro t ht
    by_cases e : t = v
    · subst e
      refine .inr ⟨(hn.fresh hv).1, fun hne => absurd ?_ hne⟩
      exact Function.update_self ..
    · exact (h.tasks t ((hc t ht).resolve_left e)).mono hn (Function.update_of_ne e ..)
  · intro w j hj
    have hold := h.jobs w j hj
    have hne : j.thread ∉ a'.created := fun hm => (hc _ hm).elim (hjobs w j hj) hold.absent
    refine ⟨hne, ?_, hold.page.mono hn (Function.update_of_ne (hjobs w j hj) ..)⟩
    rw [f.outside _ hne]
    exact hold.built
  · rw [h.stand.dispatched h.wf hlegal hk]
    rfl
  · exact Function.update_of_ne hcv.symm ..

/-! ### The statements of `process_execute` -/

theorem Distinct.update {job : Tid → Option ProcJob} {c : Tid} {o : Option ProcJob} (h : Distinct job)
    (hnew : ∀ j', o = some j' → ∀ w j, w ≠ c → job w = some j → j.thread ≠ j'.thread) :
    Distinct (Function.update job c o) := distinct_update h hnew

theorem Inv.processExecute (h : Inv I s a dirs) (hs : s.processExecute = .ok s') :
    ∃ a', Inv I s' a' dirs ∧ Leaves s s' := by
  obtain ⟨⟨v, mem⟩, hp, hs⟩ := bind_ok_iff.mp hs
  obtain ⟨u, hv, hs⟩ := bind_ok_iff.mp hs
  have hv : v ≠ 0 := of_decide_eq_true (Memory.assert_ok.mp hv)
  cases hs
  have hn := h.calls.getKernelPages_new h.active hp
  have hspace := h.calls.getKernelPages h.active hp
  obtain ⟨habs, hjobs⟩ := h.new_page hn hspace hv
  have hst : Stand I (Thread.threadCreate (Thread.initThread s.k v defaultPrio) v)
      (Thread.threadCreate (Thread.initThread a v defaultPrio) v) := by
    refine ⟨?_, h.stand.stands.zeroTags (h.wf.off_of_absent habs)⟩
    rw [h.stand.onto]
    rfl
  have hmain : v ≠ a.mainThread := fun e => habs (e ▸ h.wf.mainCreated)
  have hcv : s.k.cur ≠ v := by
    rw [h.cur]
    exact fun e => habs (e ▸ h.wf.curCreated)
  have htask : ∀ u, u ≠ v → (Thread.threadCreate (Thread.initThread a v defaultPrio) v).task u = a.task u := by
    intro u hu
    simp [Thread.threadCreate, Thread.initThread, setTask_task, hu]
  refine ⟨_, ⟨hst, built_wf h.wf habs defaultPrio, hspace, h.boot, hn.stays.cr3.trans h.cr3, h.tss, ?_, ?_, ?_⟩, rfl,
    Function.update_of_ne hcv ..⟩
  · intro t ht
    have hne : t ≠ v := fun e => habs (e ▸ ht)
    exact (h.tasks t ht).mono hn (Function.update_of_ne hne ..)
  · intro w j hj
    rcases job_update hj with ⟨-, e⟩ | ⟨-, hj⟩
    · cases e
      refine ⟨habs, prepared hmain defaultPrio, (hn.fresh hv).1, fun hne => absurd ?_ hne⟩
      exact Function.update_self ..
    · have hold := h.jobs w j hj
      have hne := hjobs w j hj
      refine ⟨hold.absent, ?_, hold.page.mono hn (Function.update_of_ne hne ..)⟩
      rw [htask _ hne]
      exact hold.built
  · apply h.distinct.update
    intro j' e w j _ hj
    cases e
    exact hjobs w j hj

theorem Inv.createPageDir (h : Inv I s a dirs) (hj : s.job s.k.cur = some (.createPageDir t))
    (hs : s.exec (.createPageDir t) = .ok s') : ∃ dirs', Inv I s' a dirs' ∧ Leaves s s' := by
  obtain ⟨⟨v, mem⟩, hp, hs⟩ := bind_ok_iff.mp hs
  cases hs
  have hold := h.jobs _ _ hj
  obtain ⟨hn, hdir⟩ := h.calls.createPageDir_new h.active hp
  have hct : s.k.cur ≠ t := by
    rw [h.cur]
    exact fun e => hold.absent (e ▸ h.wf.curCreated)
  obtain ⟨dirs', hspace, hboot⟩ : ∃ dirs', Memory.SpaceInv mem dirs' ∧ 0x100000 ∈ dirs' := by
    rcases h.calls.createPageDir h.active hp with ⟨-, hinv⟩ | ⟨-, F, -, -, hinv, -⟩
    · exact ⟨dirs, hinv, h.boot⟩
    · exact ⟨F :: dirs, hinv, List.mem_cons_of_mem _ h.boot⟩
  refine ⟨dirs', ⟨h.stand, h.wf, hspace, hboot, hn.stays.cr3.trans h.cr3, h.tss, ?_, ?_, ?_⟩, rfl,
    Function.update_of_ne hct ..⟩
  · intro u hu
    have hne : u ≠ t := fun e => hold.absent (e ▸ hu)
    exact (h.tasks u hu).mono hn (Function.update_of_ne hne ..)
  · intro w j hj'
    rcases job_update hj' with ⟨-, e⟩ | ⟨hw, hj'⟩
    · cases e
      refine ⟨hold.absent, hold.built, hn.stays.takenPage hold.page.taken, ?_⟩
      show Function.update s.pgdir t v t ≠ 0 → ∃ F, Memory.DirAt mem (Function.update s.pgdir t v t) F ∧ F ≠ 0x100000
      rw [Function.update_self]
      intro hv
      obtain ⟨F, hF, hnew⟩ := hdir hv
      exact ⟨F, hF, fun e => hnew (e ▸ h.boot)⟩
    · have hother := h.jobs w j hj'
      have hne : j.thread ≠ t := fun e => hw (h.distinct w _ j _ hj' hj e)
      exact ⟨hother.absent, hother.built, hother.page.mono hn (Function.update_of_ne hne ..)⟩
  · apply h.distinct.update
    intro j' e w j hw hj' et
    cases e
    exact hw (h.distinct w _ j _ hj' hj et)

/-- A built thread is on no list, and the appends put it on both. -/
theorem enlist_stand {k : Kernel (Links Node)} (hst : Stand I k a) (hw : Wf I ∅ (some a.cur) a) (ht : t ∉ a.created) :
    ∃ k', enlist t k = .ok k' ∧ Stand I k' (listed t (readied t a)) ∧ k'.cur = k.cur := by
  have hcreated : k.created = a.created := hst.fields.2.1
  have hoff := hw.off_of_absent ht
  obtain ⟨hall, hboth⟩ := hst.stands.enlist hw ht
  have hfind : QueueStore.find (a.created.length + 2) k.queues .ready t = .ok (decide (t ∈ a.queues .ready)) :=
    hst.stands.find ready_lists (hw.fuel ready_lists) t
  rw [decide_eq_false (hoff .ready ready_lists)] at hfind
  rw [decide_eq_false (hoff .all all_lists)] at hall
  refine ⟨{ k with
    queues := QueueStore.append (QueueStore.append k.queues .ready t) .all t
    created := k.created ++ [t] }, ?_, ⟨?_, hboth⟩, rfl⟩
  · simp only [enlist, Kernel.fuel, hcreated, hfind, hall, ok_bind, Bool.not_false, assert_true]
  · rw [hst.onto]
    rfl

theorem Inv.append (h : Inv I s a dirs) (hj : s.job s.k.cur = some (.append t)) :
    ∃ s' a', s.exec (.append t) = .ok s' ∧ Inv I s' a' dirs ∧ Leaves s s' := by
  have hold := h.jobs _ _ hj
  obtain ⟨k', hk, hst, hcur⟩ := enlist_stand (t := t) h.stand h.wf hold.absent
  have hw := enlisted_wf h.wf hold.absent (Set.notMem_empty t) hold.built
  refine ⟨{ s with k := k', job := Function.update s.job s.k.cur none }, listed t (readied t a), ?_,
    ⟨hst, hw, h.space, h.boot, h.cr3, h.tss, ?_, ?_, ?_⟩, hcur, rfl⟩
  · simp only [exec, hk, ok_bind]
  · intro u hu
    rcases List.mem_append.mp hu with hu | hu
    · exact h.tasks u hu
    · rw [List.mem_singleton.mp hu]
      exact .inr hold.page
  · intro w j hj'
    rcases job_update hj' with ⟨-, e⟩ | ⟨hw, hj'⟩
    · cases e
    · have hother := h.jobs w j hj'
      have hne : j.thread ≠ t := fun e => hw (h.distinct w _ j _ hj' hj e)
      refine ⟨?_, hother.built, hother.page⟩
      intro hm
      rcases List.mem_append.mp hm with hm | hm
      · exact hother.absent hm
      · exact hne (List.mem_singleton.mp hm)
  · apply h.distinct.update
    intro j' e
    cases e

/-- A legal step keeps the invariant. `dispatched` runs next, and its page directory is the one it had. -/
theorem Inv.step (h : Inv I s a dirs) (hl : s.Legal I op) (hs : s.step op = .ok s') :
    ∃ a' dirs', Inv I s' a' dirs' ∧ s'.pgdir s'.k.cur = s.pgdir (s.dispatched op) := by
  have hleaves : ∀ {a' dirs'}, Inv I s' a' dirs' ∧ Leaves s s' → s.dispatched op = s.k.cur →
      ∃ a' dirs', Inv I s' a' dirs' ∧ s'.pgdir s'.k.cur = s.pgdir (s.dispatched op) := by
    intro a' dirs' hi hd
    refine ⟨a', dirs', hi.1, ?_⟩
    rw [hd, hi.2.cur]
    exact hi.2.pgdir
  have hkernel : ∀ {o : Op}, Thread.Legal I s.k o → (∀ t prio, o ≠ .call (.threadStart (some t) prio)) →
      s.kernelStep o = .ok s' → s.dispatched op = Thread.dispatched s.k o →
      ∃ a' dirs', Inv I s' a' dirs' ∧ s'.pgdir s'.k.cur = s.pgdir (s.dispatched op) := by
    intro o hl ho hs hd
    obtain ⟨a', hi, hcur, hp⟩ := h.kernel hl ho hs
    refine ⟨a', dirs, hi, ?_⟩
    rw [hd, hcur, hp]
  cases op with
  | threadStart prio =>
    obtain ⟨a', hi⟩ := h.threadStart hl hs
    exact hleaves hi rfl
  | processExecute =>
    obtain ⟨a', hi⟩ := h.processExecute hs
    exact hleaves hi rfl
  | kernel o =>
    cases o with
    | timer => exact hkernel (o := .timer) hl (by simp) hs rfl
    | call c =>
      cases c with
      | threadStart page prio => exact absurd hl id
      | _ => exact hkernel hl.1 (by simp) hs rfl
    | go =>
      cases hr : (s.k.task s.k.cur).resume with
      | some r =>
        have he : s.kernelStep .go = .ok s' := by simpa only [TaskSystem.step, hr] using hs
        exact hkernel (o := .go) hl (by simp) he (by simp only [dispatched, hr])
      | none =>
        cases hj : s.job s.k.cur with
        | none =>
          have he : s.kernelStep .go = .ok s' := by simpa only [TaskSystem.step, hr, hj] using hs
          exact hkernel (o := .go) hl (by simp) he (by simp only [dispatched, hr, hj])
        | some j =>
          have he : s.exec j = .ok s' := by simpa only [TaskSystem.step, hr, hj] using hs
          have hd : s.dispatched (.kernel .go) = s.k.cur := by simp only [dispatched, hr, hj]
          cases j with
          | createPageDir t =>
            obtain ⟨dirs', hi⟩ := h.createPageDir hj he
            exact hleaves hi hd
          | append t =>
            obtain ⟨s1, a', he1, hi⟩ := h.append hj
            rw [he1] at he
            cases he
            exact hleaves hi hd

/-! ## Runs -/

theorem Runs.inv (h : Runs I s) : ∃ a dirs, Inv I s a dirs := by
  apply h.invariant (P := fun s => ∃ a dirs, Inv I s a dirs)
  · intro s hs
    obtain ⟨a, hi⟩ := first_inv hs
    exact ⟨a, _, hi⟩
  · intro s s' op hex hl hs
    obtain ⟨a, dirs, hi⟩ := hex
    obtain ⟨a', dirs', hi', -⟩ := hi.step hl hs
    exact ⟨a', dirs', hi'⟩

theorem CalmRuns.runs (h : CalmRuns I s) : Runs I s := h.mono (fun _ hs => hs) fun _ _ hl => hl.1

/-- After a step of any run, exactly where the step was calm. -/
theorem Runs.settled_step (h : Runs I s) (hl : s.Legal I op) (hs : s.step op = .ok s') : s'.Settled ↔ s.Calm op := by
  obtain ⟨a, dirs, hi⟩ := h.inv
  obtain ⟨a', dirs', hi', hp⟩ := hi.step hl hs
  unfold Calm
  rw [hi'.settled_iff, hp]

theorem First.settled (h : First I s) : s.Settled := by
  obtain ⟨a, hi⟩ := first_inv h
  exact hi.settled_iff.mpr h.pgdir

theorem CalmRuns.settled (h : CalmRuns I s) : s.Settled := by
  cases h with
  | first h => exact h.settled
  | step op h hl hs => exact (CalmRuns.runs h).settled_step hl.1 hs |>.mpr hl.2

/-- As long as no step leaves a process running, the running task is in its own address space;
    and the first step that does leaves it in another one. -/
theorem settled_iff_calm (h : CalmRuns I s) :
    s.Settled ∧ ∀ op s', s.Legal I op → s.step op = .ok s' → (s'.Settled ↔ s.Calm op) :=
  ⟨h.settled, fun _ _ hl hs => h.runs.settled_step hl hs⟩

/-- The call that `schedule` leaves out would settle the task that runs. -/
theorem processActivate_settles (h : Runs I s) : ∃ s', s.processActivate s.k.cur = .ok s' ∧ s'.Settled := by
  obtain ⟨a, dirs, hi⟩ := h.inv
  have hne : s.k.cur ≠ 0 := by
    intro e
    rcases hi.cur_pcb with ⟨hm, -⟩ | hheap
    · rw [e] at hm
      exact absurd hm (by decide)
    · obtain ⟨-, -, hlow, -⟩ := hi.space.takenPage_addr hheap.taken
      rw [e] at hlow
      exact absurd hlow (by decide)
  have hassert : assert (decide (s.k.cur ≠ 0)) .activateThread = .ok () := by
    rw [decide_eq_true hne]
    rfl
  by_cases hp : s.pgdir s.k.cur = 0
  · refine ⟨{ s with mem := { s.mem with cr3 := 0x100000 } }, ?_, ?_, fun h => absurd hp h⟩
    · simp only [processActivate, pageDirActivate, hassert, ok_bind, hp, ne_eq, not_true_eq_false, if_false]
    · unfold pageDir
      exact if_pos hp
  · obtain ⟨F, hd, -⟩ : ∃ F, Memory.DirAt s.mem (s.pgdir s.k.cur) F ∧ F ≠ 0x100000 := by
      rcases hi.cur_pcb with ⟨-, h0⟩ | hheap
      · exact absurd h0 hp
      · exact hheap.dir hp
    have hv2p : Memory.addrV2p (s.pgdir s.k.cur) s.mem = .ok F := hd.addrV2p hi.space hi.active
    refine ⟨{ s with
      mem := { s.mem with cr3 := F }
      tss := updateTssEsp s.tssAddr (BitVec.ofNat 32 s.k.cur) s.tss }, ?_, ?_, fun _ => ?_⟩
    · simp only [processActivate, pageDirActivate, hassert, ok_bind, hp, ne_eq, not_false_eq_true, if_true, hv2p]
    · have hat : Memory.translate s.mem.phys 0x100000 (s.pgdir s.k.cur) = some F := hd.translate hi.space hi.boot
      unfold pageDir
      exact (if_neg hp).trans hat
    · have hread := Ram.read32_write32 s.tss.mem (s.tssAddr + 4) (BitVec.ofNat 32 s.k.cur + 4096)
      rw [BitVec.ofNat_add]
      exact hread

/-! ## A process that runs -/

/-- After the boot with 32 MB, the main thread running. -/
def bootTasks : TaskSystem where
  k := after []
  mem := Memory.bootHeap.mem
  tssAddr := 0xc0006000
  tss := tssInit 0xc0006000 { mem := fun _ => 0, gdt := fun _ => noDesc, tr := noDesc }
  pgdir _ := 0
  job _ := none

theorem bootTasks_first (I : Set Sema) : First I bootTasks where
  booted := ⟨quiet, quiet_boot I, rfl⟩
  main := rfl
  mem := ⟨0x2000000, Memory.bootMem, fun _ => 0, by simp only [Memory.bootMem], Memory.memPoolInit_eq _ _⟩
  cr3 := (Memory.poolsInit_cr3 _ _).trans (by simp only [Memory.bootMem]; rfl)
  tss := ⟨_, rfl⟩
  pgdir := rfl
  job _ := rfl

def pcbMade (k : Kernel (Links Node)) (p : Tid) : Kernel (Links Node) :=
  Thread.threadCreate (Thread.initThread k p defaultPrio) p

/-- `process_execute` has made the PCB at `p`, in memory `m`. -/
def withPcb (s : TaskSystem) (p : Tid) (m : Memory.Mem) : TaskSystem := { s with
  k := pcbMade s.k p
  mem := m
  pgdir := Function.update s.pgdir p 0
  job := Function.update s.job s.k.cur (some (.createPageDir p)) }

/-- Its page directory is at `v`. -/
def withDir (s : TaskSystem) (p v : Tid) (m : Memory.Mem) : TaskSystem := { s with
  k := pcbMade s.k p
  mem := m
  pgdir := Function.update s.pgdir p v
  job := Function.update s.job s.k.cur (some (.append p)) }

/-- The process is on both lists of `k`. -/
def withTask (s : TaskSystem) (p v : Tid) (m : Memory.Mem) (k : Kernel (Links Node)) : TaskSystem := { s with
  k := k
  mem := m
  pgdir := Function.update s.pgdir p v
  job := Function.update s.job s.k.cur none }

variable {m m1 : Memory.Mem} {p u : Nat}

theorem pcbMade_resume (hp : p ≠ s.k.cur) : ((pcbMade s.k p).task s.k.cur).resume = (s.k.task s.k.cur).resume := by
  unfold pcbMade Thread.threadCreate Thread.initThread Kernel.setTask
  simp only [Function.update_of_ne hp.symm]

/-- The running thread goes on with its next statement of `process_execute`. -/
theorem step_job (hr : (s.k.task s.k.cur).resume = none) (hj : s.job s.k.cur = some j) : s.step (.kernel .go) = s.exec j := by
  simp only [step, hr, hj]

theorem calm_job (hr : (s.k.task s.k.cur).resume = none) (hj : s.job s.k.cur = some j) (h0 : s.pgdir s.k.cur = 0) :
    s.Calm (.kernel .go) := by
  have hd : s.dispatched (.kernel .go) = s.k.cur := by simp only [dispatched, hr, hj]
  rw [Calm, hd]
  exact h0

theorem withPcb_exec (hm : Memory.createPageDir (s.withPcb p m1).calls = .ok (v, m)) :
    (s.withPcb p m1).exec (.createPageDir p) = .ok (s.withDir p v m) := by
  have hpgdir : Function.update (s.withPcb p m1).pgdir p v = Function.update s.pgdir p v := Function.update_idem ..
  have hjob : Function.update (s.withPcb p m1).job (s.withPcb p m1).k.cur (some (.append p)) =
      Function.update s.job s.k.cur (some (.append p)) := Function.update_idem ..
  simp only [exec, hm, ok_bind, hpgdir, hjob]
  rfl

theorem withDir_exec {k : Kernel (Links Node)} (hk : enlist p (pcbMade s.k p) = .ok k) :
    (s.withDir p v m).exec (.append p) = .ok (s.withTask p v m k) := by
  have hk : enlist p (s.withDir p v m).k = .ok k := hk
  have hjob : Function.update (s.withDir p v m).job (s.withDir p v m).k.cur none = Function.update s.job s.k.cur none :=
    Function.update_idem ..
  simp only [exec, hk, ok_bind, hjob]
  rfl

theorem withTask_job {k : Kernel (Links Node)} : (s.withTask p v m k).job s.k.cur = none := Function.update_self ..

/-- A thread of the kernel makes a process of the next two pages of the heap. -/
theorem CalmRuns.makes_process {k : Kernel (Links Node)} (h : CalmRuns ∅ s) (hown : s.OwnCode) (h0 : s.pgdir s.k.cur = 0)
    (hi : Memory.HeapInv Memory.kernelTable u s.calls) (hw : (s.calls.pool .kernel).lock.waiters ≠ none)
    (hroom : u + 1 < s.calls.frames .kernel) (hne : Memory.heapPage u ≠ s.k.cur)
    (hgo : Fresh (pcbMade s.k (Memory.heapPage u)) .go) (hk : enlist (Memory.heapPage u) (pcbMade s.k (Memory.heapPage u)) = .ok k) :
    ∃ m, CalmRuns ∅ (s.withTask (Memory.heapPage u) (Memory.heapPage (u + 1)) m k) := by
  have hp : Memory.heapPage u ≠ 0 := by unfold Memory.heapPage Memory.kHeapStart; omega
  have hassert : assert (decide (Memory.heapPage u ≠ 0)) .memsetDst = .ok () := by
    rw [decide_eq_true hp]
    rfl
  obtain ⟨m1, hm1, hi1, hw1, hst1⟩ := hi.next_page hw (by omega)
  have r1 : CalmRuns ∅ (s.withPcb (Memory.heapPage u) m1) := by
    refine h.step .processExecute ⟨hown, h0⟩ ?_
    simp only [step, processExecute, hm1, ok_bind, hassert]
    rfl
  obtain ⟨a1, dirs1, i1⟩ := r1.runs.inv
  have hroom1 : u + 1 < m1.frames .kernel := by
    rw [hst1.frames]
    exact hroom
  obtain ⟨m2, hm2, -⟩ := (hi1.caller _).next_dir i1.calls i1.active hw1 hroom1
  have hr1 : ((s.withPcb (Memory.heapPage u) m1).k.task s.k.cur).resume = none := (pcbMade_resume hne).trans hown.1
  have hj1 : (s.withPcb (Memory.heapPage u) m1).job s.k.cur = some (.createPageDir (Memory.heapPage u)) :=
    Function.update_self ..
  have h1 : (s.withPcb (Memory.heapPage u) m1).pgdir s.k.cur = 0 := (Function.update_of_ne hne.symm ..).trans h0
  have r2 : CalmRuns ∅ (s.withDir (Memory.heapPage u) (Memory.heapPage (u + 1)) m2) := by
    refine r1.step (.kernel .go) ⟨⟨trivial, hgo⟩, calm_job hr1 hj1 h1⟩ ?_
    exact (step_job hr1 hj1).trans (withPcb_exec hm2)
  have hj2 : (s.withDir (Memory.heapPage u) (Memory.heapPage (u + 1)) m2).job s.k.cur = some (.append (Memory.heapPage u)) :=
    Function.update_self ..
  have h2 : (s.withDir (Memory.heapPage u) (Memory.heapPage (u + 1)) m2).pgdir s.k.cur = 0 :=
    (Function.update_of_ne hne.symm ..).trans h0
  have hr2 : ((s.withDir (Memory.heapPage u) (Memory.heapPage (u + 1)) m2).k.task s.k.cur).resume = none := hr1
  refine ⟨m2, r2.step (.kernel .go) ⟨⟨trivial, hgo⟩, calm_job hr2 hj2 h2⟩ ?_⟩
  exact (step_job hr2 hj2).trans (withDir_exec hk)

theorem yields {k : Kernel (Links Node)} (hown : s.OwnCode) (hk : Thread.step s.k (.call .threadYield) = .ok k) :
    s.Legal ∅ (.kernel (.call .threadYield)) ∧ s.step (.kernel (.call .threadYield)) = .ok { s with k := k } := by
  refine ⟨⟨⟨⟨hown.1, hown.2.1, trivial⟩, fresh_call _ _⟩, hown.2.2⟩, ?_⟩
  simp only [step, kernelStep, hk, ok_bind]

/-- The thread goes on inside a call. -/
theorem goes_on {k : Kernel (Links Node)} {r : Resume} (hr : (s.k.task s.k.cur).resume = some r)
    (hk : Thread.step s.k .go = .ok k) :
    s.step (.kernel .go) = .ok { s with k := k } ∧ s.dispatched (.kernel .go) = Thread.dispatched s.k .go := by
  simp only [step, dispatched, hr, kernelStep, hk, ok_bind, and_self]

/-- The main thread starts a thread, -/
def started : Kernel (Links Node) := (Thread.threadStart (some (Memory.heapPage 0)) 31 bootTasks.k).toOption.getD bootTasks.k

/-- makes a process -/
def listed : Kernel (Links Node) := (enlist (Memory.heapPage 1) (pcbMade started (Memory.heapPage 1))).toOption.getD started

/-- and yields to the thread, -/
def switched : Kernel (Links Node) := next Thread.step listed (.call .threadYield)

/-- which enters its function -/
def entered : Kernel (Links Node) := next Thread.step switched .go

/-- and yields to the process. -/
def handedOn : Kernel (Links Node) := next Thread.step entered (.call .threadYield)

/-- With the page of the thread. -/
def withThread (m : Memory.Mem) : TaskSystem :=
  { bootTasks with k := started, mem := m, pgdir := Function.update bootTasks.pgdir (Memory.heapPage 0) 0 }

/-- With the pages of the process, and the kernel at `k`. -/
def withProcess (m1 m : Memory.Mem) (k : Kernel (Links Node)) : TaskSystem :=
  { (withThread m1).withTask (Memory.heapPage 1) (Memory.heapPage 2) m listed with k := k }

theorem withProcess_job {k : Kernel (Links Node)} (t : Tid) : (withProcess m1 m k).job t = none := by
  show Function.update bootTasks.job started.cur none t = none
  rw [Function.update_apply]
  exact ite_self none

theorem withProcess_pgdir {k : Kernel (Links Node)} : (withProcess m1 m k).pgdir (Memory.heapPage 0) = 0 ∧
    (withProcess m1 m k).pgdir (Memory.heapPage 1) ≠ 0 := by
  have hpgdir : (withProcess m1 m k).pgdir =
      Function.update (Function.update bootTasks.pgdir (Memory.heapPage 0) 0) (Memory.heapPage 1) (Memory.heapPage 2) := rfl
  rw [hpgdir]
  decide +kernel

theorem listed_runs : ∃ m1 m, CalmRuns ∅ (withProcess m1 m listed) := by
  have hheap : Memory.HeapInv Memory.kernelTable 0 bootTasks.calls := Memory.bootHeap_start.inv.caller _
  obtain ⟨m1, hm1, hi1, hw1, hst1⟩ := hheap.next_page (by decide +kernel) (by decide +kernel)
  have hstart : Thread.threadStart (some (Memory.heapPage 0)) 31 bootTasks.k = .ok started := ok_getD (by decide +kernel)
  have hlist : enlist (Memory.heapPage 1) (pcbMade started (Memory.heapPage 1)) = .ok listed := ok_getD (by decide +kernel)
  have hb : CalmRuns ∅ (withThread m1) := by
    refine Reach.step (.threadStart 31) (.first (bootTasks_first ∅)) ⟨⟨by decide +kernel, by decide +kernel, rfl⟩, rfl⟩ ?_
    have hne : Memory.heapPage 0 ≠ 0 := by decide
    simp only [step, threadStart, hm1, ok_bind, if_neg hne, hstart]
    rfl
  have hidle : (started.task started.cur).resume = none ∧ (started.task started.cur).pc = .run := by decide +kernel
  have h0 : Function.update bootTasks.pgdir (Memory.heapPage 0) 0 started.cur = 0 := by decide +kernel
  have hroom : 1 + 1 < m1.frames .kernel := by
    rw [hst1.frames]
    decide +kernel
  have hne : Memory.heapPage 1 ≠ started.cur := by decide +kernel
  have hfresh : Fresh (pcbMade started (Memory.heapPage 1)) .go := by decide +kernel
  exact ⟨m1, hb.makes_process ⟨hidle.1, hidle.2, rfl⟩ h0 (hi1.caller _) hw1 hroom hne hfresh hlist⟩

theorem entered_runs : ∃ m1 m, CalmRuns ∅ (withProcess m1 m entered) := by
  obtain ⟨m1, m, r1⟩ := listed_runs
  have hidle : (listed.task listed.cur).resume = none ∧ (listed.task listed.cur).pc = .run := by decide +kernel
  have hk : Thread.step listed (.call .threadYield) = .ok switched := step_next (by decide +kernel)
  obtain ⟨hl, hs⟩ := yields (s := withProcess m1 m listed) ⟨hidle.1, hidle.2, withProcess_job _⟩ hk
  have hcalm : (withProcess m1 m listed).Calm (.kernel (.call .threadYield)) := by
    have hd : Thread.dispatched listed (.call .threadYield) = Memory.heapPage 0 := by decide +kernel
    exact (congrArg _ hd).trans withProcess_pgdir.1
  have r2 : CalmRuns ∅ (withProcess m1 m switched) := r1.step _ ⟨hl, hcalm⟩ hs
  obtain ⟨r, hr⟩ : ∃ r, (switched.task switched.cur).resume = some r := Option.isSome_iff_exists.mp (by decide +kernel)
  have hgo : Thread.step switched .go = .ok entered := step_next (by decide +kernel)
  obtain ⟨hs2, hd2⟩ := goes_on (s := withProcess m1 m switched) hr hgo
  have hcalm2 : (withProcess m1 m switched).Calm (.kernel .go) := by
    have hd : Thread.dispatched switched .go = Memory.heapPage 0 := by decide +kernel
    exact (congrArg _ (hd2.trans hd)).trans withProcess_pgdir.1
  have hfresh : Fresh switched .go := by decide +kernel
  exact ⟨m1, m, r2.step (.kernel .go) ⟨⟨trivial, hfresh⟩, hcalm2⟩ hs2⟩

/-- The thread runs settled, with the process behind it on the ready list; the process does not. -/
theorem startedThread_settled : ∃ s s', CalmRuns ∅ s ∧ s.k.cur = 0xc0100000 ∧ s.pgdir 0xc0101000 ≠ 0 ∧ s.Settled ∧
    s.step (.kernel (.call .threadYield)) = .ok s' ∧ s'.k.cur = 0xc0101000 ∧ ¬ s'.Settled := by
  obtain ⟨m1, m, hr⟩ := entered_runs
  have hidle : (entered.task entered.cur).resume = none ∧ (entered.task entered.cur).pc = .run := by decide +kernel
  have hk : Thread.step entered (.call .threadYield) = .ok handedOn := step_next (by decide +kernel)
  obtain ⟨hl, hs⟩ := yields (s := withProcess m1 m entered) ⟨hidle.1, hidle.2, withProcess_job _⟩ hk
  obtain ⟨hset, hstep⟩ := settled_iff_calm hr
  have hcur : entered.cur = 0xc0100000 ∧ handedOn.cur = 0xc0101000 := by decide +kernel
  refine ⟨_, _, hr, hcur.1, withProcess_pgdir.2, hset, hs, hcur.2, fun hset' => ?_⟩
  have hcalm := (hstep _ _ hl hs).mp hset'
  have hd : Thread.dispatched entered (.call .threadYield) = Memory.heapPage 1 := by decide +kernel
  exact withProcess_pgdir.2 ((congrArg _ hd.symm).trans hcalm)

/-- The main thread makes a process and yields to it: CR3 and esp0 are still the boot's. -/
theorem process_astray : (∃ s, Runs ∅ s ∧ s.k.cur = 0xc0100000 ∧ s.mem.cr3 = 0x100000 ∧ s.esp0 = 0 ∧
    ∃ F, s.pageDir s.k.cur = some F ∧ F ≠ 0x100000) ∧ ¬ ∀ s, Runs ∅ s → s.Settled := by
  obtain ⟨k, hk, hp⟩ : ∃ k, enlist (Memory.heapPage 0) (pcbMade bootTasks.k (Memory.heapPage 0)) = .ok k ∧
      (decide ((k.task k.cur).resume = none ∧ (k.task k.cur).pc = .run ∧ k.cur = bootTasks.k.cur) &&
        (Thread.step k (.call .threadYield)).toOption.any fun k' => decide (k'.cur = 0xc0100000)) = true :=
    ok_of_any (by decide +kernel)
  rw [Bool.and_eq_true, decide_eq_true_eq] at hp
  obtain ⟨⟨hr, hpc, hc⟩, hany⟩ := hp
  obtain ⟨k', hk', hc'⟩ := ok_of_any hany
  have hheap : Memory.HeapInv Memory.kernelTable 0 bootTasks.calls := Memory.bootHeap_start.inv.caller _
  -- the first page of the heap is the PCB, the second one the page directory
  obtain ⟨m, hmade⟩ := CalmRuns.makes_process (.first (bootTasks_first ∅)) ⟨by decide +kernel, by decide +kernel, rfl⟩ rfl hheap
    (by decide +kernel) (by decide +kernel) (by decide +kernel) (by decide +kernel) hk
  have hjob : (bootTasks.withTask (Memory.heapPage 0) (Memory.heapPage (0 + 1)) m k).job k.cur = none := by
    rw [hc]
    exact withTask_job
  obtain ⟨hl, hs⟩ := yields (s := bootTasks.withTask (Memory.heapPage 0) (Memory.heapPage (0 + 1)) m k) ⟨hr, hpc, hjob⟩ hk'
  have hruns : Runs ∅ _ := hmade.runs.step _ hl hs
  have hcur : k'.cur = 0xc0100000 := of_decide_eq_true hc'
  obtain ⟨a, dirs, hi⟩ := hruns.inv
  have hdir : Function.update bootTasks.pgdir (Memory.heapPage 0) (Memory.heapPage 1) k'.cur ≠ 0 := by
    rw [hcur]
    decide +kernel
  obtain ⟨⟨F, hF, hcr3⟩, -⟩ := hi.astray hdir
  refine ⟨⟨_, hruns, hcur, hi.cr3, hi.esp0, F, hF, ?_⟩, fun hall => hdir (hi.settled_iff.mp (hall _ hruns))⟩
  rw [hi.cr3] at hcr3
  exact hcr3.symm

end TaskSystem

end TinyOs.Userprog
