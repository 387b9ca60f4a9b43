/-
  TinyOs.Kernel.Debug — how a run of kernel code can stop (kernel/debug.h).

  A failed ASSERT and a PANIC end in `panic_spin`, which never returns; each site of
  the source has its own constructor. The other stops are not the code's own: a NULL
  or wild pointer followed (or a page that is not mapped), a loop that never ends, and
  a thread that blocks, whose call goes on only after others have run.
-/

namespace TinyOs.Kernel

/-- The ASSERTs and PANICs, named by function and condition. -/
inductive Site where
  | memsetDst
  | makeMainFind
  | startReadyFind
  | startAllFind
  | scheduleIntr
  | scheduleFind
  | scheduleReady
  | blockStat
  | unblockStatus
  | unblockFind
  | unblockPanic
  | yieldFind
  | timerMagic
  | semaDownFind
  | semaDownPanic
  | semaDownValue
  | semaUpZero
  | semaUpOne
  | acquireNr
  | releaseHolder
  | releaseNr
  | bitmapSetValue
  | memcpyDst
  | memcmpA
  | strlenStr
  | strcpyDst
  | strcmpA
  | strchrStr
  | strrchrStr
  | strchrsStr
  | vaddrGetUser
  | tableAddPte
  | tableAddNewPte
  | mallocPgCnt
  | getAPageUserIdx
  | getAPageKernelIdx
  | getAPagePanic
  | executeReadyFind
  | executeAllFind
  | activateThread
  deriving DecidableEq, Repr

inductive Stop where
  | assert (s : Site)
  | fault
  | diverge
  | blocked
  deriving DecidableEq, Repr

/-- `ASSERT(CONDITION)`. -/
def assert (c : Bool) (s : Site) : Except Stop Unit := if c then .ok () else .error (.assert s)

@[simp] theorem assert_true (s : Site) : assert true s = .ok () := rfl
@[simp] theorem assert_false (s : Site) : assert false s = .error (.assert s) := rfl

end TinyOs.Kernel
