/-
  TinyOs.Memory.SharedHeap — get_kernel_pages from any threads (kernel/memory.c).

  Any threads of the kernel's own address space call get_kernel_pages, and the timer comes
  between any two accesses to the bitmaps, the page tables and the pages. `kernel_pool.lock`
  is a struct lock as `TinyOs.Thread` has it, and its field in `Mem` is not used. `lock_init`
  leaves the list of its waiters as it finds it (see `usable_iff`): here it was empty.

  `heap_shared`: every call has its answer, and what was given is as `heap_sound` has it for
  calls one after the other: pages of the heap in ranges apart, each on a frame of its own,
  cleared. NULL was answered only where frames were too few. What the owners write to their
  pages is not in it, and neither are get_user_pages and get_a_page: they take their page
  tables from kernel_pool without its lock.
-/

import TinyOs.Memory.PageCode
import TinyOs.Thread.Guarded

namespace TinyOs.Memory

open TinyOs.Kernel TinyOs.Lib TinyOs.Logic

/-- The answers that are not NULL. -/
def Heap.given (h : Heap) : List (Nat × Nat) := h.results.filter (·.1 ≠ 0)

/-- What any calls with the page counts `log` have left. -/
structure Answered (log : List Nat) (h : Heap) : Prop where
  calls : h.results.map Prod.snd = log.reverse
  inside : ∀ r ∈ h.given, r.1 % pgSize = 0 ∧ kHeapStart ≤ r.1 ∧
    r.1 + r.2 * pgSize ≤ kHeapStart + 8 * h.mem.kernelVaddr.vaddrBitmap.btmpBytesLen * pgSize
  apart : h.given.Pairwise fun r r' => r'.1 + r'.2 * pgSize ≤ r.1 ∨ r.1 + r.2 * pgSize ≤ r'.1
  mapped : ∀ x, Pages h.given x → ∃ c, c < h.mem.frames .kernel ∧
    ∀ o, o < pgSize → translate h.mem.phys h.mem.cr3 (x + o) = some ((h.mem.pool .kernel).frame c + o)
  own : ∀ x y, Pages h.given x → Pages h.given y →
    translate h.mem.phys h.mem.cr3 x = translate h.mem.phys h.mem.cr3 y → x = y
  zero : ∀ a, Owned h.given a → ∃ pa, translate h.mem.phys h.mem.cr3 a = some pa ∧ h.mem.phys pa = 0
  null : ∀ n, (0, n) ∈ h.results → ∀ i, i + n ≤ h.mem.frames .kernel → h.mem.Taken .kernel i

/-! ## One call -/

variable {tab : Nat → Nat} {u n v : Nat} {s s' : Mem}

theorem takePages_kept (h : takePages n s = .ok (v, s')) : s'.pool = s.pool := by
  obtain ⟨⟨v, sm⟩, hm, h⟩ := bind_ok_iff.mp h
  obtain ⟨phys, -, h⟩ := bind_ok_iff.mp h
  cases h
  exact (mallocPage_kept hm).pool

theorem HeapInv.setLock {l : PoolLock} (hi : HeapInv tab u s) (hl : l.Free) : HeapInv tab u (s.setLock .kernel l) := by
  have hst := setLock_stays s .kernel l
  refine hi.moved hst (hst.space rfl hi.space) (by rwa [setLock_lock]) hi.le ?_ hi.reserved hi.entries hi.absent
  intro i hl
  unfold Mem.Taken
  rw [setLock_poolBitmap]
  exact hi.taken i hl

/-- A call alone, whatever the lock's field is. -/
theorem HeapInv.take (hi : HeapInv tab u s) (hn : 1 ≤ n ∧ n < 3840) :
    ∃ v s' k, takePages n s = .ok (v, s') ∧ Step tab u n v k s s' := by
  have hi0 : HeapInv tab u (s.setLock .kernel noLock) := hi.setLock ⟨rfl, rfl, rfl⟩
  rcases hi0.returns hn with ⟨v, s', hc⟩ | ⟨hw, -⟩
  · obtain ⟨k, hstep⟩ := hi0.call hn.1 hc
    rw [getKernelPages_eq] at hc
    obtain ⟨s1, hs1, hc⟩ := bind_ok_iff.mp hc
    obtain ⟨l1, -, rfl⟩ := lockAcquire_ok hs1
    obtain ⟨⟨v, s2⟩, ht, hc⟩ := bind_ok_iff.mp hc
    obtain ⟨s3, hs3, hc⟩ := bind_ok_iff.mp hc
    obtain ⟨l2, -, rfl⟩ := lockRelease_ok hs3
    cases hc
    rw [setLock_setLock, takePages_setLock] at ht
    obtain ⟨⟨v, sb⟩, hsb, hc⟩ := bind_ok_iff.mp ht
    cases hc
    rw [setLock_setLock] at hstep
    have hlock : (sb.pool .kernel).lock = (s.pool .kernel).lock := by rw [takePages_kept hsb]
    have hback : (sb.setLock .kernel l2).setLock .kernel (s.pool .kernel).lock = sb := by
      rw [← hlock]
      exact setLock_back sb .kernel l2
    have hst0 := setLock_stays s .kernel noLock
    have hstb := setLock_stays (sb.setLock .kernel l2) .kernel (s.pool .kernel).lock
    have hinv := hstep.inv.setLock hi.free
    rw [hback] at hstb hinv
    have hzero := hstep.zero
    have hkept := hstep.kept
    have hnull := hstep.null
    simp only [hst0.frame] at hzero hkept
    rw [hst0.frames] at hnull
    exact ⟨v, sb, k, hsb, (hst0.trans hstep.stays).trans hstb, hinv, hstep.result, hzero, hkept, hnull⟩
  · rw [setLock_lock] at hw
    cases hw

/-! ## Any calls -/

/-- The first `u` pages and frames are taken; `log` are the page counts asked for. -/
structure Dealt (tab : Nat → Nat) (u : Nat) (log : List Nat) (h : Heap) : Prop where
  inv : HeapInv tab u h.mem
  ranges : Ranges u h.given
  calls : h.results.map Prod.snd = log.reverse
  apart : h.given.Pairwise fun r r' => r'.1 + r'.2 * pgSize ≤ r.1 ∨ r.1 + r.2 * pgSize ≤ r'.1
  zero : ∀ a, Owned h.given a → ∃ pa, translate h.mem.phys h.mem.cr3 a = some pa ∧ h.mem.phys pa = 0
  null : ∀ n, (0, n) ∈ h.results → h.mem.frames .kernel < u + n

variable {h : Heap} {log : List Nat}

theorem HeapStart.dealt (hs : HeapStart tab h) : Dealt tab 0 [] h := by
  have hres := hs.none
  have hgiven : h.given = [] := by rw [Heap.given, hres]; rfl
  refine ⟨hs.inv, ?_, by rw [hres]; rfl, by rw [hgiven]; exact List.Pairwise.nil, ?_, ?_⟩
  · rw [hgiven]; exact fun r hr => absurd hr List.not_mem_nil
  · rw [hgiven]; exact fun a ⟨r, hr, _⟩ => absurd hr List.not_mem_nil
  · rw [hres]; exact fun n hn => absurd hn List.not_mem_nil

theorem given_answer (h : Heap) (s : Mem) (v n : Nat) :
    ((h.set s).answer v n).given = if v = 0 then h.given else (v, n) :: h.given := by
  by_cases hv : v = 0
  · rw [if_pos hv]
    exact List.filter_cons_of_neg (by simp [hv])
  · rw [if_neg hv]
    exact List.filter_cons_of_pos (by simp [hv])

theorem Dealt.take (hh : Dealt tab u log h) (hn : 1 ≤ n ∧ n < 3840) :
    ∃ h', (takePagesCode n).run h = .ok h' ∧ ∃ u', Dealt tab u' (log ++ [n]) h' := by
  obtain ⟨v, s', k, ht, hstep⟩ := hh.inv.take hn
  refine ⟨(h.set s').answer v n, by rw [run_takePagesCode, ht]; rfl, u + k, ?_⟩
  have hranges := hstep.ranges hh.ranges
  have hintact : Intact h.given h.mem s' := hstep.intact hh.inv hh.ranges
  have hold : ∀ a, Owned h.given a → ∃ pa, translate s'.phys s'.cr3 a = some pa ∧ s'.phys pa = 0 := by
    intro a ha
    obtain ⟨pa, h1, h2, h3⟩ := hintact a ha
    obtain ⟨pa', h1', h0⟩ := hh.zero a ha
    cases h1.symm.trans h1'
    exact ⟨pa, h2, h3.trans h0⟩
  refine ⟨hstep.inv, ?_, ?_, ?_, ?_, ?_⟩
  · rw [given_answer]; exact hranges
  · rw [List.reverse_append, ← hh.calls]; rfl
  · rw [given_answer]
    split
    · exact hh.apart
    · next hv => exact List.pairwise_cons.mpr ⟨(hstep.fresh hh.ranges hv).disjoint, hh.apart⟩
  · rw [given_answer]
    split
    · exact hold
    · next hv =>
      rintro a ⟨r, hr, h1, h2⟩
      rcases List.mem_cons.mp hr with rfl | hr
      · have h1 : v ≤ a := h1
        have hz := (hstep.fresh hh.ranges hv).zero (a - v) (by have h2 : a < v + n * pgSize := h2; omega)
        rwa [Nat.add_sub_cancel' h1] at hz
      · exact hold a ⟨r, hr, h1, h2⟩
  · intro n' hn'
    show s'.frames .kernel < u + k + n'
    rw [hstep.stays.frames]
    rcases List.mem_cons.mp hn' with e | hn'
    · obtain ⟨hv, rfl⟩ := Prod.mk.inj e
      have hlt := hstep.null hv.symm
      omega
    · have hlt := hh.null n' hn'
      omega

theorem Dealt.page (hh : Dealt tab u log h) {x : Nat} (hx : Pages h.given x) : ∃ j, j < u ∧ x = heapPage j := by
  obtain ⟨r, hr, i, hi, e⟩ := hx
  obtain ⟨b, hb, hle⟩ := hh.ranges r hr
  exact ⟨b + i, by omega, by rw [e, hb, heapPage_add]⟩

theorem Dealt.answered (hh : Dealt tab u log h) : Answered log h := by
  have hle := hh.inv.le
  refine ⟨hh.calls, ?_, hh.apart, ?_, ?_, hh.zero, ?_⟩
  · intro r hr
    obtain ⟨b, hb, hbu⟩ := hh.ranges r hr
    rw [hb, heapPage_add, hh.inv.len]
    unfold Mem.frames at hle
    unfold heapPage kHeapStart pgSize
    omega
  · intro x hx
    obtain ⟨j, hj, rfl⟩ := hh.page hx
    exact ⟨j, by omega, fun o ho => hh.inv.walk hj ho⟩
  · intro x y hx hy e
    obtain ⟨i, hi, rfl⟩ := hh.page hx
    obtain ⟨j, hj, rfl⟩ := hh.page hy
    have h1 := hh.inv.walk (o := 0) hi (by omega)
    have h2 := hh.inv.walk (o := 0) hj (by omega)
    rw [Nat.add_zero, Nat.add_zero] at h1 h2
    rw [h1, h2] at e
    rw [(h.mem.pool .kernel).frame_inj (Option.some.inj e)]
  · intro n hn i hi
    have hlt := hh.null n hn
    exact (hh.inv.taken i (by omega)).mpr (by omega)

/-! ## Any threads -/

open TinyOs.Thread (Sema LockId Guarded.System)

abbrev SharedRuns (I : Set Sema) (l : LockId) (init : Heap) : Guarded.System Heap Nat → Prop :=
  TinyOs.Thread.Guarded.Runs I l takePagesCode (fun pgCnt => 1 ≤ pgCnt ∧ pgCnt < 3840) init

/-- While no thread is in a call, every call has been answered. While one is, it is the only
one, and the call goes through. -/
theorem heap_shared {I : Set Sema} {l : LockId} {init : Heap} {c : Guarded.System Heap Nat} (hr : SharedRuns I l init c)
    (hl : .lock l ∈ I) (h0 : HeapStart tab init) :
    ((∀ t m rest, c.job t ≠ some (.inside m rest)) → Answered c.log c.shared) ∧
    ∀ t m rest, c.job t = some (.inside m rest) → (∀ u m' rest', c.job u = some (.inside m' rest') → u = t) ∧
      ∃ h, rest.run c.shared = .ok h ∧ Answered (c.log ++ [m]) h := by
  obtain ⟨hout, hin⟩ := TinyOs.Thread.Guarded.Runs.shared (Q := fun log h => ∃ u, Dealt tab u log h) hr hl
    ⟨0, h0.dealt⟩ fun _ _ _ hm ⟨_, hh⟩ => hh.take hm
  refine ⟨?_, ?_⟩
  · intro hno
    obtain ⟨u, hh⟩ := hout hno
    exact hh.answered
  · intro t m rest hj
    obtain ⟨honly, h, he, u, hh⟩ := hin t m rest hj
    exact ⟨honly, h, he, hh.answered⟩

/-! ## A run -/

/-- The main thread is preempted between the load and the store of a byte of the heap's
bitmap, and the other thread comes to wait for the lock. -/
def halfSet : List (TinyOs.Thread.Guarded.Act Nat) :=
  [.op (.call (.threadStart (some 0xc0101000) 5)), .op (.call .intrEnable), .start 1] ++
    List.replicate 5 (.op .go) ++ List.replicate 6 .access ++ List.replicate 32 (.op .timer) ++
    [.op .go, .start 3, .op .go, .op .go, .op .go]

def afterHalfSet : Guarded.System Heap Nat :=
  halfSet.foldl (next (TinyOs.Thread.Guarded.System.step takePagesCode 0)) ⟨TinyOs.Thread.after [], bootHeap, fun _ => none, []⟩

theorem afterHalfSet_runs : SharedRuns {.lock 0} 0 bootHeap afterHalfSet :=
  Reach.script (.first ⟨⟨TinyOs.Thread.quiet, TinyOs.Thread.quiet_boot _, rfl⟩, fun _ _ => ⟨rfl, rfl⟩, rfl, rfl, rfl⟩)
    (by decide +kernel)

theorem afterHalfSet_shared :
    ((∀ t m rest, afterHalfSet.job t ≠ some (.inside m rest)) → Answered afterHalfSet.log afterHalfSet.shared) ∧
    ∀ t m rest, afterHalfSet.job t = some (.inside m rest) →
      (∀ u m' rest', afterHalfSet.job u = some (.inside m' rest') → u = t) ∧
      ∃ h, rest.run afterHalfSet.shared = .ok h ∧ Answered (afterHalfSet.log ++ [m]) h :=
  heap_shared afterHalfSet_runs rfl bootHeap_start

end TinyOs.Memory
