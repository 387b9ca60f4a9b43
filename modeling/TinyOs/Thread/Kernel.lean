/-
  TinyOs.Thread.Kernel — the data of the scheduler and of the locks (thread/thread.h,
  thread/sync.h), and the program points of their code.

  A task is named by the address of its PCB page. Its `general_tag` is the one node
  that the ready list and every semaphore's waiters list link; `all_list_tag` is linked
  in thread_all_list only. The lists are a parameter of the kernel (`QueueStore`):
  - `Links Node`: the prev and next words in memory, as the code keeps them;
  - `Queues`: one sequence of tasks for each list, what the words stand for.
  `TinyOs.Thread.Refine` relates the two.

  A thread is preempted only where interrupts are on, so code that runs with
  interrupts off up to its next `switch_to` is one step, and code with interrupts on
  is cut into statements, each with a program point (`Pc`); `holder_repeat_nr++` and
  `holder_repeat_nr--` are cut once more, between the load and the store, and
  `thread_unblock` between its ASSERT and its `intr_disable`. `resume` is what a thread
  that was switched out does when `switch_to` returns to it.
-/

import Mathlib.Algebra.Group.Nat.Defs
import TinyOs.Lib.List

namespace TinyOs.Thread

open TinyOs.Kernel TinyOs.Lib TinyOs.Logic

abbrev Tid := Nat

abbrev LockId := Nat

/-- A semaphore of its own, or the one inside a `struct lock`. -/
inductive Sema where
  | free (n : Nat)
  | lock (l : LockId)
  deriving DecidableEq, Repr

inductive Qid where
  | ready
  | all
  | waiters (s : Sema)
  deriving DecidableEq, Repr

/-- The addresses a list link can hold; `wild` is any word that is none of the others. -/
inductive Node where
  | null
  | generalTag (t : Tid)
  | allListTag (t : Tid)
  | head (q : Qid)
  | tail (q : Qid)
  | wild (a : Nat)
  deriving DecidableEq, Repr

inductive TaskStatus where
  | running
  | ready
  | blocked
  | waiting
  | hanging
  | died
  deriving DecidableEq, Repr

/-- What is left to do in the function that called `schedule`. -/
inductive Resume where
  /-- `intr_timer_handler` returns through `intr_exit`, whose `iretd` sets IF. -/
  | intrExit
  /-- `intr_set_status(old_status)` in `thread_block` or `thread_yield`. -/
  | setStatus (old : Bool)
  /-- The first dispatch: `kernel_thread` calls `intr_enable`. -/
  | kernelThread
  deriving DecidableEq, Repr

inductive Pc where
  /-- The thread's own code. -/
  | run
  /-- `thread_unblock`, past its ASSERT and before `intr_disable`. -/
  | unblock (t : Tid)
  /-- `sema_down`, before `intr_disable`. -/
  | semaDown (s : Sema)
  /-- At the head of the loop of `sema_down`, back from `thread_block`. -/
  | semaLoop (s : Sema) (old : Bool)
  /-- `sema_up`, before `intr_disable`. -/
  | semaUp (s : Sema)
  /-- `lock_acquire`: the test of `holder`, then one statement each. -/
  | acqTest (l : LockId)
  | acqHolder (l : LockId)
  | acqAssert (l : LockId)
  | acqNr (l : LockId)
  | acqInc (l : LockId)
  | acqIncStore (l : LockId) (nr : Nat)
  /-- `lock_release`: the first ASSERT, the test, then one statement each. -/
  | relAssert (l : LockId)
  | relTest (l : LockId)
  | relDec (l : LockId)
  | relDecStore (l : LockId) (nr : Nat)
  | relAssertOne (l : LockId)
  | relClear (l : LockId)
  | relZero (l : LockId)
  deriving DecidableEq, Repr

/-- Inside the loop of `sema_down`. -/
def Pc.isLoop : Pc → Bool
  | .semaLoop _ _ => true
  | _ => false

structure Task where
  status : TaskStatus
  priority : Nat
  ticks : Nat
  elapsedTicks : Nat
  stackMagic : Nat
  pc : Pc
  resume : Option Resume
  /-- How often the thread has acquired each lock without releasing it. No code reads it. -/
  depth : LockId → Nat

structure Lock where
  holder : Option Tid
  holderRepeatNr : Nat
  deriving DecidableEq, Repr

structure Kernel (σ : Type) where
  /-- `running_thread()`: the PCB page the stack pointer is in. -/
  cur : Tid
  mainThread : Tid
  task : Tid → Task
  queues : σ
  value : Sema → Nat
  lock : LockId → Lock
  /-- The IF bit. -/
  intr : Bool
  ticks : Nat
  /-- The tasks created so far. No code reads it. -/
  created : List Tid

/-- The operations of list.c as the scheduler uses them. -/
class QueueStore (σ : Type) where
  init : σ → Qid → σ
  isEmpty : σ → Qid → Bool
  find : Nat → σ → Qid → Tid → Except Stop Bool
  append : σ → Qid → Tid → σ
  push : σ → Qid → Tid → σ
  /-- `elem2entry` of the popped node, and the store after it. -/
  pop : σ → Qid → Except Stop (Tid × σ)
  /-- `memset(pthread, 0, sizeof(*pthread))`, as the two tags see it. -/
  zeroTags : σ → Tid → σ

/-! ## The links in memory -/

def Qid.plist (q : Qid) : PList Node := ⟨.head q, .tail q⟩

/-- The node by which list `q` links task `t`. -/
def Qid.node : Qid → Tid → Node
  | .all, t => .allListTag t
  | _, t => .generalTag t

/-- `elem2entry`: of an address that is no tag, the result is no PCB. -/
def elem2entry : Node → Except Stop Tid
  | .generalTag t => .ok t
  | _ => .error .fault

instance : QueueStore (Links Node) where
  init m q := listInit .null m q.plist
  isEmpty m q := listEmpty m q.plist
  find fuel m q t := elemFind .null fuel m q.plist (q.node t)
  append m q t := listAppend m q.plist (q.node t)
  push m q t := listPush m q.plist (q.node t)
  pop m q := do
    let r := listPop m q.plist
    let t ← elem2entry r.1
    .ok (t, r.2)
  zeroTags m t :=
    let m := (m.setPrev (.generalTag t) .null).setNext (.generalTag t) .null
    (m.setPrev (.allListTag t) .null).setNext (.allListTag t) .null

/-! ## What they stand for -/

abbrev Queues := Qid → List Tid

instance : QueueStore Queues where
  init q i := Function.update q i []
  isEmpty q i := (q i).isEmpty
  find _ q i t := .ok (decide (t ∈ q i))
  append q i t := Function.update q i (q i ++ [t])
  push q i t := Function.update q i (t :: q i)
  pop q i :=
    match q i with
    | [] => .error .fault
    | t :: ts => .ok (t, Function.update q i ts)
  zeroTags q _ := q

/-! ## Small updates -/

namespace Kernel

variable {σ : Type}

def setTask (k : Kernel σ) (t : Tid) (f : Task → Task) : Kernel σ :=
  { k with task := Function.update k.task t (f (k.task t)) }

def setPc (k : Kernel σ) (pc : Pc) : Kernel σ := k.setTask k.cur fun x => { x with pc := pc }

def setLock (k : Kernel σ) (l : LockId) (f : Lock → Lock) : Kernel σ :=
  { k with lock := Function.update k.lock l (f (k.lock l)) }

def setValue (k : Kernel σ) (s : Sema) (v : Nat) : Kernel σ := { k with value := Function.update k.value s v }

/-- A walk over more nodes than there are tasks has met one twice. -/
def fuel (k : Kernel σ) : Nat := k.created.length + 2

end Kernel

end TinyOs.Thread
