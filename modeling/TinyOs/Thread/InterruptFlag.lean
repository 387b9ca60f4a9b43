/-
  TinyOs.Thread.InterruptFlag — what list.c, sync.c, thread.c and timer.c do with IF.

  The functions are statement by statement the source's, as programs of
  `TinyOs.Logic.Interrupts`: a thread can be interrupted before any statement while IF
  is set, `old_status` is a local of its call, and `switch_to` leaves IF alone. The
  data are the shared ones, whatever they hold; a statement that goes wrong on them
  (an ASSERT, a node that is no tag) ends the run.

  list_push, list_append and list_pop only compute the argument of their one call, and
  `elem_find` only reads; they are part of their callers here. A thread's own code may
  do anything to the data and to IF.
-/

import TinyOs.Logic.Interrupts
import TinyOs.Thread.Sched

namespace TinyOs.Thread.InterruptFlag

open TinyOs.Kernel TinyOs.Lib TinyOs.Logic TinyOs.Logic.Interrupts

structure Shared where
  task : Tid → Task
  links : Links Node
  value : Sema → Nat
  ticks : Nat
  threadTag : Node

inductive Fn where
  | listInsertBefore (before elem : Node)
  | listRemove (pelem : Node)
  | semaDown (s : Sema)
  | semaUp (s : Sema)
  | threadBlock (stat : TaskStatus)
  | threadUnblock (pthread : Tid)
  | threadYield
  | schedule
  | intrTimerHandler
  | kernelThread
  deriving DecidableEq, Repr

/-- The one local besides `old_status`: the node that `list_pop` returns. -/
abbrev Stmt := Instr Tid Fn Shared Node Stop

/-! ## Statements -/

def links (f : Links Node → Links Node) : Stmt := .stmt fun _ l d => .ok (l, { d with links := f d.links })

def setTask (t : Tid → Tid) (f : Task → Task) : Stmt :=
  .stmt fun cur l d => .ok (l, { d with task := Function.update d.task (t cur) (f (d.task (t cur))) })

def setValue (s : Sema) (f : Nat → Nat) : Stmt :=
  .stmt fun _ l d => .ok (l, { d with value := Function.update d.value s (f (d.value s)) })

def check (c : Tid → Shared → Bool) (site : Site) : Stmt := .stmt fun cur l d => do
  assert (c cur d) site
  .ok (l, d)

/-- `ASSERT(!elem_find(..))`; `n` bounds the walk. -/
def notFound (n : Nat) (q : Qid) (t : Tid → Tid) (site : Site) : Stmt := .stmt fun cur l d => do
  let found ← elemFind .null n d.links q.plist (q.node (t cur))
  assert (!found) site
  .ok (l, d)

def listAppend (q : Qid) : Stmt := .call fun cur _ _ => .ok (.listInsertBefore q.plist.tail (q.node cur))

def listPush (q : Qid) (t : Tid) : Stmt := .call fun _ _ d => .ok (.listInsertBefore (d.links.next q.plist.head) (q.node t))

/-- `elem = plist->head.next`, then `list_remove(elem)`. -/
def listPop (q : Qid) : List Stmt :=
  [.stmt fun _ _ d => .ok (d.links.next q.plist.head, d), .call fun _ elem _ => .ok (.listRemove elem)]

/-! ## Functions -/

def code (n : Nat) : Fn → List Stmt
  | .listInsertBefore before elem =>
    [.getStatus, .cli,
      links fun m => m.setNext (m.prev before) elem,
      links fun m => m.setPrev elem (m.prev before),
      links fun m => m.setNext elem before,
      links fun m => m.setPrev before elem,
      .setStatus]
  | .listRemove pelem =>
    [.getStatus, .cli,
      links fun m => m.setNext (m.prev pelem) (m.next pelem),
      links fun m => m.setPrev (m.next pelem) (m.prev pelem),
      .setStatus]
  | .semaDown s =>
    [.getStatus, .cli,
      -- 2: the loop
      .branch (fun _ _ d => .ok (d.value s = 0)) 8,
      notFound n (.waiters s) id .semaDownFind,
      notFound n (.waiters s) id .semaDownPanic,
      listAppend (.waiters s),
      .call fun _ _ _ => .ok (.threadBlock .blocked),
      .jump 2,
      setValue s (· - 1),
      check (fun _ d => d.value s = 0) .semaDownValue,
      .setStatus]
  | .semaUp s =>
    [.getStatus, .cli,
      check (fun _ d => d.value s = 0) .semaUpZero,
      .branch (fun _ _ d => .ok (!listEmpty d.links (Qid.waiters s).plist)) 7] ++
    listPop (.waiters s) ++
    [.call fun _ elem _ => do
        let threadBlocked ← elem2entry elem
        .ok (.threadUnblock threadBlocked),
      setValue s fun v => (v + 1) % 256,
      check (fun _ d => d.value s = 1) .semaUpOne,
      .setStatus]
  | .threadBlock stat =>
    [check (fun _ _ => stat.nonRunnable) .blockStat,
      .getStatus, .cli,
      setTask id fun x => { x with status := stat },
      .call fun _ _ _ => .ok .schedule,
      .setStatus]
  | .threadUnblock pthread =>
    [check (fun _ d => (d.task pthread).status.nonRunnable) .unblockStatus,
      .getStatus, .cli,
      .branch (fun _ _ d => .ok ((d.task pthread).status ≠ .ready)) 8,
      notFound n .ready (fun _ => pthread) .unblockFind,
      notFound n .ready (fun _ => pthread) .unblockPanic,
      setTask (fun _ => pthread) fun x => { x with status := .ready },
      listPush .ready pthread,
      .setStatus]
  | .threadYield =>
    [.getStatus, .cli,
      notFound n .ready id .yieldFind,
      setTask id fun x => { x with status := .ready },
      listAppend .ready,
      .call fun _ _ _ => .ok .schedule,
      .setStatus]
  | .schedule =>
    [.assertOff,
      .branch (fun cur _ d => .ok ((d.task cur).status = .running)) 6,
      notFound n .ready id .scheduleFind,
      setTask id fun x => { x with ticks := x.priority },
      setTask id fun x => { x with status := .ready },
      listAppend .ready,
      check (fun _ d => !listEmpty d.links Qid.ready.plist) .scheduleReady,
      .stmt fun _ l d => .ok (l, { d with threadTag := .null })] ++
    listPop .ready ++
    [.stmt fun _ elem d => .ok (elem, { d with threadTag := elem }),
      .stmt fun _ l d => do
        let next ← elem2entry d.threadTag
        .ok (l, { d with task := Function.update d.task next { d.task next with status := .running } }),
      .switch fun _ _ d => elem2entry d.threadTag]
  | .intrTimerHandler =>
    [check (fun cur d => (d.task cur).stackMagic = 0x19870916) .timerMagic,
      setTask id fun x => { x with elapsedTicks := (x.elapsedTicks + 1) % 2 ^ 32 },
      .stmt fun _ l d => .ok (l, { d with ticks := (d.ticks + 1) % 2 ^ 32 }),
      .branch (fun cur _ d => .ok ((d.task cur).ticks = 0)) 6,
      .call fun _ _ _ => .ok .schedule,
      .jump 7,
      setTask id fun x => { x with ticks := x.ticks - 1 }]
  | .kernelThread => [.enable]

def kind : Fn → Kind
  | .schedule => .masked
  | .intrTimerHandler => .gate
  | .kernelThread => .first
  | _ => .call

/-- The kernel's code; `n` bounds the walks of `elem_find`. -/
def kernel (n : Nat) : Program Tid Fn Shared Node Stop where
  kind := kind
  code := code n
  handler := .intrTimerHandler
  start := .kernelThread
  locals := .null

/-- The handler and `kernel_thread` are called by no function. -/
theorem kernel_calls (n : Nat) (fn : Fn) : ∀ i ∈ code n fn, i.Calls (kernel n) := by
  cases fn <;>
    simp [code, links, setTask, setValue, check, notFound, listAppend, listPush, listPop, Instr.Calls, kernel, kind, bind_ok_iff]

theorem kernel_balanced (n : Nat) : (kernel n).Balanced where
  code fn := by cases fn <;> rfl
  calls := kernel_calls n
  handler := rfl
  start := rfl

/-- In every state of every run: a call that ends returns with IF as it was at the call; in a critical section of the
running thread's frames, innermost or not, IF is clear; `schedule`'s ASSERT on IF holds. -/
theorem interrupt_discipline {n : Nat} {s : State Tid Fn Shared Node} (h : (kernel n).Runs s) :
    (∀ f fs, s.stack s.cur = f :: fs → kind f.fn = .call ∨ kind f.fn = .masked → (code n f.fn)[f.pc]? = none →
      (kernel n).step s .go = .ok (s.setStack fs) ∧ s.intr = f.entry) ∧
      (∀ f ∈ s.stack s.cur, (kernel n).InSection f → s.intr = false) ∧
      ∀ ev, (kernel n).step s ev ≠ .error .assertOff := by
  have hb := kernel_balanced n
  refine ⟨fun f fs hs hk hend => ?_, fun f hf hin => ?_, fun ev => ?_⟩
  · exact h.return_status hb hs hk hend
  · exact h.section_masked hb hf hin
  · exact h.assertOff_holds hb ev

/-! ### Two threads yield to one another -/

/-- Thread 0 runs with IF set, thread 1 is new and ready. -/
def two : State Tid Fn Shared Node where
  cur := 0
  intr := true
  data :=
    { task := fun t => ⟨if t = 0 then .running else .ready, 5, 5, 0, 0x19870916, .run, none, fun _ => 0⟩
      links := QueueStore.append (QueueStore.init ⟨fun _ => .null, fun _ => .null⟩ .ready) .ready 1
      value := fun _ => 1
      ticks := 0
      threadTag := .null }
  stack t := if t = 0 then [] else [(kernel 9).frame .kernelThread false]

instance (n : Nat) (s : State Tid Fn Shared Node) (ev : Event Fn Shared) : Decidable ((kernel n).Legal s ev) :=
  match ev with
  | .go => inferInstanceAs (Decidable True)
  | .interrupt => inferInstanceAs (Decidable (s.intr = true))
  | .call fn => inferInstanceAs (Decidable (s.stack s.cur = [] ∧ kind fn = .call))
  | .own _ _ => inferInstanceAs (Decidable (s.stack s.cur = []))

/-- Thread 0 yields, thread 1 is interrupted and then yields too: thread 0 is back in its `thread_yield`, at the end. -/
def yielding : List (Event Fn Shared) :=
  .call .threadYield :: List.replicate 31 .go ++ .interrupt :: List.replicate 6 .go ++ .call .threadYield :: List.replicate 31 .go

def yielded : State Tid Fn Shared Node := yielding.foldl (next (kernel 9).step) two

theorem two_first : (kernel 9).First two := by
  refine ⟨rfl, fun t ht => ?_⟩
  exact if_neg ht

theorem yielded_runs : (kernel 9).Runs yielded := Reach.script (.first two_first) (by decide +kernel)

theorem yielded_stack : yielded.stack yielded.cur = [⟨.threadYield, 7, .null, true, true⟩] := by decide +kernel

theorem yielded_discipline : yielded.intr = true :=
  ((interrupt_discipline yielded_runs).1 _ [] yielded_stack (.inl rfl) rfl).2

end TinyOs.Thread.InterruptFlag
