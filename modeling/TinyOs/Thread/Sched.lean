/-
  TinyOs.Thread.Sched — the scheduler (thread/thread.c, device/timer.c).

  The functions are the source's, for any `QueueStore`. `switch_to(cur, next)` makes
  `next` the running thread; what the caller still has to do in `cur` is left in its
  `resume`.
-/

import TinyOs.Thread.Kernel

namespace TinyOs.Thread

open TinyOs.Kernel TinyOs.Logic

variable {σ : Type} [QueueStore σ]

open QueueStore

/-- The fields of `init_thread`; a PCB address of NULL trips the ASSERT of `memset`. -/
def initThread (k : Kernel σ) (pthread : Tid) (prio : Nat) : Kernel σ :=
  { k with
    queues := zeroTags k.queues pthread
    task := Function.update k.task pthread
      { status := if pthread = k.mainThread then .running else .ready
        priority := prio % 256
        ticks := prio % 256
        elapsedTicks := 0
        stackMagic := 0x19870916
        pc := .run
        resume := none
        depth := fun _ => 0 } }

/-- The prepared stack returns into `kernel_thread`. -/
def threadCreate (k : Kernel σ) (pthread : Tid) : Kernel σ :=
  k.setTask pthread fun x => { x with resume := some .kernelThread }

/-- `page` is what `get_kernel_pages(1)` returned. -/
def threadStart (page : Option Tid) (prio : Nat) (k : Kernel σ) : Except Stop (Kernel σ) :=
  match page with
  | none => .error (.assert .memsetDst)
  | some thread => do
    let k := threadCreate (initThread k thread prio) thread
    let found ← find k.fuel k.queues .ready thread
    assert (!found) .startReadyFind
    let k := { k with queues := append k.queues .ready thread }
    let found ← find k.fuel k.queues .all thread
    assert (!found) .startAllFind
    .ok { k with queues := append k.queues .all thread, created := k.created ++ [thread] }

def makeMainThread (k : Kernel σ) : Except Stop (Kernel σ) := do
  let k := { k with mainThread := k.cur }
  let k := initThread k k.mainThread 31
  let found ← find k.fuel k.queues .all k.mainThread
  assert (!found) .makeMainFind
  .ok { k with queues := append k.queues .all k.mainThread, created := [k.mainThread] }

def threadsInit (k : Kernel σ) : Except Stop (Kernel σ) :=
  makeMainThread { k with queues := init (init k.queues .ready) .all }

/-- The first half of `schedule`: a thread whose time is up goes to the tail of the ready list. -/
def requeueRunning (k : Kernel σ) : Except Stop (Kernel σ) :=
  if (k.task k.cur).status = .running then do
    let found ← find k.fuel k.queues .ready k.cur
    assert (!found) .scheduleFind
    let k := k.setTask k.cur fun x => { x with ticks := x.priority, status := .ready }
    .ok { k with queues := append k.queues .ready k.cur }
  else .ok k

/-- The second half: `switch_to` the first ready task. `r` is what the caller of `schedule`
    does once the thread switched out here runs again. -/
def switchToFirst (r : Resume) (k : Kernel σ) : Except Stop (Kernel σ) := do
  assert (!isEmpty k.queues .ready) .scheduleReady
  let (next, queues) ← pop k.queues .ready
  let k := k.setTask k.cur fun x => { x with resume := some r }
  let k := k.setTask next fun x => { x with status := .running }
  .ok { k with queues := queues, cur := next }

def schedule (r : Resume) (k : Kernel σ) : Except Stop (Kernel σ) := do
  assert (!k.intr) .scheduleIntr
  let k ← requeueRunning k
  switchToFirst r k

def TaskStatus.nonRunnable (s : TaskStatus) : Bool := s = .blocked || s = .waiting || s = .hanging

def threadBlock (stat : TaskStatus) (k : Kernel σ) : Except Stop (Kernel σ) := do
  assert stat.nonRunnable .blockStat
  let old := k.intr
  let k := { k with intr := false }
  let k := k.setTask k.cur fun x => { x with status := stat }
  schedule (.setStatus old) k

/-- `thread_unblock` from `intr_disable` on. -/
def wakeUp (pthread : Tid) (k : Kernel σ) : Except Stop (Kernel σ) := do
  let old := k.intr
  let k := { k with intr := false }
  let k ← (if (k.task pthread).status ≠ .ready then do
      let found ← find k.fuel k.queues .ready pthread
      assert (!found) .unblockFind
      let found ← find k.fuel k.queues .ready pthread
      assert (!found) .unblockPanic
      let k := k.setTask pthread fun x => { x with status := .ready }
      .ok { k with queues := push k.queues .ready pthread }
    else .ok k)
  .ok { k with intr := old }

/-- In one piece, as `sema_up` runs it with interrupts off. -/
def threadUnblock (pthread : Tid) (k : Kernel σ) : Except Stop (Kernel σ) := do
  assert (k.task pthread).status.nonRunnable .unblockStatus
  wakeUp pthread k

def threadYield (k : Kernel σ) : Except Stop (Kernel σ) := do
  let old := k.intr
  let k := { k with intr := false }
  let found ← find k.fuel k.queues .ready k.cur
  assert (!found) .yieldFind
  let k := k.setTask k.cur fun x => { x with status := .ready }
  schedule (.setStatus old) { k with queues := append k.queues .ready k.cur }

/-- Entered through an interrupt gate, which clears IF, and left through `iretd`. -/
def intrTimerHandler (k : Kernel σ) : Except Stop (Kernel σ) := do
  let k := { k with intr := false }
  assert ((k.task k.cur).stackMagic = 0x19870916) .timerMagic
  let k := k.setTask k.cur fun x => { x with elapsedTicks := (x.elapsedTicks + 1) % 2 ^ 32 }
  let k := { k with ticks := (k.ticks + 1) % 2 ^ 32 }
  if (k.task k.cur).ticks = 0 then schedule .intrExit k
  else
    let k := k.setTask k.cur fun x => { x with ticks := x.ticks - 1 }
    .ok { k with intr := true }

/-- What the running thread does first after `switch_to` came back to it. -/
def resumeWith (r : Resume) (k : Kernel σ) : Kernel σ :=
  let k := k.setTask k.cur fun x => { x with resume := none }
  match r with
  | .intrExit => { k with intr := true }
  | .setStatus old => { k with intr := old }
  | .kernelThread => { k with intr := true }

end TinyOs.Thread
