/-
  TinyOs.Device.Console — messages of any threads on one console (device/console.c).

  console_put_str, console_put_char and console_put_int print between console_acquire and
  console_release. The timer comes between any two accesses of print.S; what a thread
  has typed when it does is half a cursor, or half a number in `put_int_buffer`.

  `console_whole`: the screen still shows whole messages, in the order in which the lock
  was released, as one text. The strings lie where nothing is printed to, and hold no
  backspace (see `keeps_screen_iff`); printing without the lock (main.c, the keyboard
  handler, PANIC) is not in it. `console_init` leaves the list of the waiters as it finds
  it (see `usable_iff`): here it was empty.
-/

import TinyOs.Lib.Messages
import TinyOs.Lib.PrintCode
import TinyOs.Thread.Guarded

namespace TinyOs.Device.Console

open TinyOs.Kernel TinyOs.Lib TinyOs.Logic TinyOs.Thread

/-- Between console_acquire and console_release. -/
def code (buf : BitVec 32) : Message → PrintCode
  | .putStr str text => putStrCode (text.length + 1) str
  | .putChar charAsci => putCharCode charAsci .done
  | .putInt num => putIntCode buf 9 num

theorem run_code (buf : BitVec 32) (m : Message) (s : Screen) : (code buf m).run s = m.print buf s := by
  cases m with
  | putStr str text => exact run_putStrCode _ str s
  | putChar charAsci => exact (run_putCharCode charAsci .done s).trans (bind_pure _)
  | putInt num => exact run_putIntCode buf 9 num s

/-- The screen after `done` and the messages of `log`. -/
structure Typed (buf : BitVec 32) (mem : Bytes) (done : List (BitVec 8)) (log : List Message) (s : Screen) : Prop where
  shows : Shows s ((done ++ log.flatMap Message.text).foldl (Page.type 80 isBreak) .empty)
  mem : Kept buf mem s.mem

variable {buf : BitVec 32} {s : Screen} {mem : Bytes} {done : List (BitVec 8)} {log : List Message} {m : Message}

theorem Typed.message (hbuf : BufferApart buf) (h : Typed buf mem done log s) (hm : m.Legal buf mem) :
    ∃ s', (code buf m).run s = .ok s' ∧ Typed buf mem done (log ++ [m]) s' := by
  obtain ⟨s', he, hk, hsh⟩ := h.shows.print hbuf (hm.kept h.mem)
  refine ⟨s', (run_code buf m s).trans he, ?_, ?_⟩
  · rw [List.flatMap_append, List.flatMap_singleton, ← List.append_assoc, List.foldl_append]
    exact hsh
  · intro x hx hb
    rw [hk x hx hb, h.mem x hx hb]

theorem Typed.rows (h : Typed buf mem done log s) :
    ShowsRows s (window (layout 80 isBreak (done ++ log.flatMap Message.text))) := by
  have hrows := h.shows.rows
  rwa [layout_eq (by decide)] at hrows

/-! ## Any threads -/

abbrev Runs (I : Set Sema) (l : LockId) (buf : BitVec 32) (init : Screen) : Guarded.System Screen Message → Prop :=
  Guarded.Runs I l (code buf) (Message.Legal buf init.mem) init

/-- While nobody prints, the screen shows the whole messages printed so far. While a thread
prints, it is the only one, and its message will be the next one, whole. -/
theorem console_whole {I : Set Sema} {l : LockId} {init : Screen} {c : Guarded.System Screen Message}
    (h : Runs I l buf init c) (hl : .lock l ∈ I) (hbuf : BufferApart buf)
    (h0 : Shows init (done.foldl (Page.type 80 isBreak) .empty)) :
    ((∀ t m rest, c.job t ≠ some (.inside m rest)) →
      ShowsRows c.shared (window (layout 80 isBreak (done ++ c.log.flatMap Message.text)))) ∧
    ∀ t m rest, c.job t = some (.inside m rest) → (∀ u m' rest', c.job u = some (.inside m' rest') → u = t) ∧
      ∃ s, rest.run c.shared = .ok s ∧
        ShowsRows s (window (layout 80 isBreak (done ++ (c.log ++ [m]).flatMap Message.text))) := by
  have hstart : Typed buf init.mem done [] init := by
    refine ⟨?_, fun _ _ _ => rfl⟩
    rw [List.flatMap_nil, List.append_nil]
    exact h0
  obtain ⟨hout, hin⟩ := Guarded.Runs.shared (Q := Typed buf init.mem done) h hl hstart fun _ _ _ hm ht => ht.message hbuf hm
  refine ⟨fun hno => (hout hno).rows, ?_⟩
  intro t m rest hj
  obtain ⟨honly, s, he, ht⟩ := hin t m rest hj
  exact ⟨honly, s, he, ht.rows⟩

/-! ## A run -/

/-- The main thread is preempted between the two halves of the cursor, and the other thread
comes to wait for the console. -/
def halfway : List (Guarded.Act Message) :=
  [.op (.call (.threadStart (some 0xc0101000) 5)), .op (.call .intrEnable), .start (.putStr 0 [0x41, 0x0a])] ++
    List.replicate 5 (.op .go) ++ List.replicate 3 .access ++ List.replicate 32 (.op .timer) ++
    [.op .go, .start (.putInt 0x2af0), .op .go, .op .go, .op .go, .access]

def afterHalfway : Guarded.System Screen Message :=
  halfway.foldl (next (Guarded.System.step (code 0x9000) 0)) ⟨TinyOs.Thread.after [], holding [0x41, 0x0a], fun _ => none, []⟩

theorem afterHalfway_runs : Runs {.lock 0} 0 0x9000 (holding [0x41, 0x0a]) afterHalfway :=
  Reach.script (.first ⟨⟨quiet, quiet_boot _, rfl⟩, fun _ _ => ⟨rfl, rfl⟩, rfl, rfl, rfl⟩) (by decide +kernel)

theorem afterHalfway_whole :
    ((∀ t m rest, afterHalfway.job t ≠ some (.inside m rest)) →
      ShowsRows afterHalfway.shared (window (layout 80 isBreak ([] ++ afterHalfway.log.flatMap Message.text)))) ∧
    ∀ t m rest, afterHalfway.job t = some (.inside m rest) →
      (∀ u m' rest', afterHalfway.job u = some (.inside m' rest') → u = t) ∧
      ∃ s, rest.run afterHalfway.shared = .ok s ∧
        ShowsRows s (window (layout 80 isBreak ([] ++ (afterHalfway.log ++ [m]).flatMap Message.text))) := by
  refine console_whole afterHalfway_runs rfl ?_ (Shows.blank (fun _ _ => holding_blank (by decide)) (by decide))
  rintro a ⟨k, hk, rfl⟩ hv
  have hlow := (Set.mem_Icc.mp hv).1
  unfold textBase at hlow
  bv_omega

end TinyOs.Device.Console
