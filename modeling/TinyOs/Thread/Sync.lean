/-
  TinyOs.Thread.Sync — semaphores and locks (thread/sync.c), and the kernel as a
  machine.

  `step k op` is the next step of the running thread (`go`), a timer interrupt, or a
  call the thread's own code makes. `Allowed` is what threads may do: a timer interrupt
  needs IF, a call starts from the thread's own code, `get_kernel_pages` gives each
  thread a page of its own, `thread_unblock` is for a thread that blocked itself,
  semaphores are used once their waiters list is initialised (`I`), a lock is nested
  less than 2^32 deep and released by its holder.

  `thread_unblock` tests the status before it disables interrupts. `Fresh` leaves out
  the steps in which it goes on for a thread that was woken meanwhile and has stopped
  again in `sema_down`; `Legal` is both. What such a step does is in
  `TinyOs.Thread.InOrder`.
-/

import TinyOs.Logic.Runs
import TinyOs.Thread.Sched

namespace TinyOs.Thread

open TinyOs.Kernel TinyOs.Logic

variable {σ : Type} [QueueStore σ]

open QueueStore

/-- The waiters list is left as the memory was. -/
def semaInit (s : Sema) (value : Nat) (k : Kernel σ) : Kernel σ := k.setValue s (value % 256)

def lockInit (l : LockId) (k : Kernel σ) : Kernel σ :=
  let k := k.setLock l fun x => { x with holder := none }
  let k := semaInit (.lock l) 1 k
  k.setLock l fun x => { x with holderRepeatNr := 0 }

/-- Where `sema_down` returns to: the semaphore of a lock is only taken by `lock_acquire`. -/
def afterDown : Sema → Pc
  | .free _ => .run
  | .lock l => .acqHolder l

/-- The loop of `sema_down`, interrupts off: block, or take the unit and return. -/
def semaDownLoop (s : Sema) (old : Bool) (k : Kernel σ) : Except Stop (Kernel σ) := do
  if k.value s = 0 then
    let found ← find k.fuel k.queues (.waiters s) k.cur
    assert (!found) .semaDownFind
    let found ← find k.fuel k.queues (.waiters s) k.cur
    assert (!found) .semaDownPanic
    let k := { k with queues := append k.queues (.waiters s) k.cur }
    threadBlock .blocked (k.setPc (.semaLoop s old))
  else
    let k := k.setValue s (k.value s - 1)
    assert (k.value s = 0) .semaDownValue
    .ok ({ k with intr := old }.setPc (afterDown s))

def semaDown (s : Sema) (k : Kernel σ) : Except Stop (Kernel σ) := semaDownLoop s k.intr { k with intr := false }

def semaUp (s : Sema) (k : Kernel σ) : Except Stop (Kernel σ) := do
  let old := k.intr
  let k := { k with intr := false }
  assert (k.value s = 0) .semaUpZero
  let k ← (if !isEmpty k.queues (.waiters s) then do
      let (threadBlocked, queues) ← pop k.queues (.waiters s)
      threadUnblock threadBlocked { k with queues := queues }
    else .ok k)
  let k := k.setValue s ((k.value s + 1) % 256)
  assert (k.value s = 1) .semaUpOne
  .ok ({ k with intr := old }.setPc .run)

def bumpDepth (l : LockId) (f : Nat → Nat) (x : Task) : Task :=
  { x with depth := Function.update x.depth l (f (x.depth l)) }

/-- One statement of the running thread. -/
def exec (k : Kernel σ) : Pc → Except Stop (Kernel σ)
  | .run => .ok k
  | .unblock t => do
    let k ← wakeUp t k
    .ok (k.setPc .run)
  | .semaDown s => semaDown s k
  | .semaLoop s old => semaDownLoop s old k
  | .semaUp s => semaUp s k
  | .acqTest l => .ok (k.setPc (if (k.lock l).holder ≠ some k.cur then .semaDown (.lock l) else .acqInc l))
  | .acqHolder l => .ok ((k.setLock l fun x => { x with holder := some k.cur }).setPc (.acqAssert l))
  | .acqAssert l => do
    assert ((k.lock l).holderRepeatNr = 0) .acquireNr
    .ok (k.setPc (.acqNr l))
  | .acqNr l =>
    let k := k.setLock l fun x => { x with holderRepeatNr := 1 }
    .ok ((k.setTask k.cur (bumpDepth l (· + 1))).setPc .run)
  | .acqInc l => .ok (k.setPc (.acqIncStore l (k.lock l).holderRepeatNr))
  | .acqIncStore l nr =>
    let k := k.setLock l fun x => { x with holderRepeatNr := (nr + 1) % 2 ^ 32 }
    .ok ((k.setTask k.cur (bumpDepth l (· + 1))).setPc .run)
  | .relAssert l => do
    assert ((k.lock l).holder = some k.cur) .releaseHolder
    .ok (k.setPc (.relTest l))
  | .relTest l => .ok (k.setPc (if 1 < (k.lock l).holderRepeatNr then .relDec l else .relAssertOne l))
  | .relDec l => .ok (k.setPc (.relDecStore l (k.lock l).holderRepeatNr))
  | .relDecStore l nr =>
    let k := k.setLock l fun x => { x with holderRepeatNr := (nr + (2 ^ 32 - 1)) % 2 ^ 32 }
    .ok ((k.setTask k.cur (bumpDepth l (· - 1))).setPc .run)
  | .relAssertOne l => do
    assert ((k.lock l).holderRepeatNr = 1) .releaseNr
    .ok (k.setPc (.relClear l))
  | .relClear l =>
    let k := k.setLock l fun x => { x with holder := none }
    .ok ((k.setTask k.cur (bumpDepth l (· - 1))).setPc (.relZero l))
  | .relZero l => .ok ((k.setLock l fun x => { x with holderRepeatNr := 0 }).setPc (.semaUp (.lock l)))

inductive Call where
  | intrEnable
  | intrDisable
  | threadStart (page : Option Tid) (prio : Nat)
  | threadYield
  | threadBlock (stat : TaskStatus)
  | threadUnblock (t : Tid)
  | semaDown (n : Nat)
  | semaUp (n : Nat)
  | lockAcquire (l : LockId)
  | lockRelease (l : LockId)
  deriving DecidableEq, Repr

inductive Op where
  | timer
  | go
  | call (c : Call)
  deriving DecidableEq, Repr

def enter (k : Kernel σ) : Call → Except Stop (Kernel σ)
  | .intrEnable => .ok { k with intr := true }
  | .intrDisable => .ok { k with intr := false }
  | .threadStart page prio => threadStart page prio k
  | .threadYield => threadYield k
  | .threadBlock stat => threadBlock stat k
  | .threadUnblock t => do
    assert (k.task t).status.nonRunnable .unblockStatus
    .ok (k.setPc (.unblock t))
  | .semaDown n => .ok (k.setPc (.semaDown (.free n)))
  | .semaUp n => .ok (k.setPc (.semaUp (.free n)))
  | .lockAcquire l => .ok (k.setPc (.acqTest l))
  | .lockRelease l => .ok (k.setPc (.relAssert l))

def step (k : Kernel σ) : Op → Except Stop (Kernel σ)
  | .timer => intrTimerHandler k
  | .go =>
    match (k.task k.cur).resume with
    | some r => .ok (resumeWith r k)
    | none => exec k (k.task k.cur).pc
  | .call c => enter k c

variable (I : Set Sema)

def LegalCall (k : Kernel σ) : Call → Prop
  | .threadStart (some t) _ => t ∉ k.created
  | .threadUnblock t => t ∈ k.created ∧ (k.task t).status.nonRunnable = true ∧ (k.task t).pc = .run
  | .semaDown n => .free n ∈ I
  | .semaUp n => .free n ∈ I
  | .lockAcquire l => .lock l ∈ I ∧ (k.task k.cur).depth l + 1 < 2 ^ 32
  | .lockRelease l => .lock l ∈ I ∧ (k.lock l).holder = some k.cur
  | _ => True

def Allowed (k : Kernel σ) : Op → Prop
  | .timer => k.intr = true
  | .go => True
  | .call c => (k.task k.cur).resume = none ∧ (k.task k.cur).pc = .run ∧ LegalCall I k c

/-- The thread `thread_unblock` goes on to wake. -/
def Pc.target : Pc → Option Tid
  | .unblock t => some t
  | _ => none

/-- `thread_unblock` does not go on for a thread that is stopped in `sema_down`. -/
def Fresh (k : Kernel σ) (op : Op) : Prop :=
  op = .go ∧ (k.task k.cur).resume = none →
    ∀ t ∈ (k.task k.cur).pc.target, ¬ ((k.task t).status = .blocked ∧ (k.task t).pc.isLoop = true)

def Legal (k : Kernel σ) (op : Op) : Prop := Allowed I k op ∧ Fresh k op

instance (k : Kernel σ) (op : Op) : Decidable (Fresh k op) := inferInstanceAs (Decidable (_ → _))

instance [DecidablePred (· ∈ I)] (k : Kernel σ) (op : Op) : Decidable (Allowed I k op) :=
  match op with
  | .timer => inferInstanceAs (Decidable (k.intr = true))
  | .go => inferInstanceAs (Decidable True)
  | .call c =>
    have : Decidable (LegalCall I k c) :=
      match c with
      | .intrEnable | .intrDisable | .threadStart none _ | .threadYield | .threadBlock _ => inferInstanceAs (Decidable True)
      | .threadStart (some t) _ => inferInstanceAs (Decidable (t ∉ k.created))
      | .threadUnblock t =>
        inferInstanceAs (Decidable (t ∈ k.created ∧ (k.task t).status.nonRunnable = true ∧ (k.task t).pc = .run))
      | .semaDown n | .semaUp n => inferInstanceAs (Decidable (.free n ∈ I))
      | .lockAcquire l => inferInstanceAs (Decidable (.lock l ∈ I ∧ (k.task k.cur).depth l + 1 < 2 ^ 32))
      | .lockRelease l => inferInstanceAs (Decidable (.lock l ∈ I ∧ (k.lock l).holder = some k.cur))
    inferInstanceAs (Decidable ((k.task k.cur).resume = none ∧ (k.task k.cur).pc = .run ∧ LegalCall I k c))

instance [DecidablePred (· ∈ I)] (k : Kernel σ) (op : Op) : Decidable (Legal I k op) := inferInstanceAs (Decidable (_ ∧ _))

end TinyOs.Thread
