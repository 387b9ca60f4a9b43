/-
  TinyOs.Memory.UserPages — the frames of user pages, beside stores to all of memory.

  The first megabyte is mapped in every address space and protected in none
  (`runs_unprotected`). The books of the allocator lie in it: the bitmaps of the pools
  and of the kernel heap at 0xc009a000, and `kernel_pool`, `user_pool` and `kernel_vaddr`
  where the linker put them. In `storeStep` a store reaches the bitmaps. One that clears a
  bit has the frame given out a second time; and the bit that `get_a_page` sets for a
  process, which has no bitmap, may fall on a record.

  - `runs_isolated`: in runs that leave directories, tables and books alone, two user
    pages, of one process or of two, lie in different frames, and none of these holds a
    page of the kernel, a table or a directory.
-/

import TinyOs.Memory.Isolation
import TinyOs.Memory.PoolRecords

namespace TinyOs.Memory

open TinyOs.Kernel TinyOs.Lib TinyOs.Logic

/-! ## Stores -/

/-- A byte of the first megabyte has two addresses. -/
def Mem.poke (s : Mem) (a : Nat) (b : BitVec 8) : Mem :=
  { s with phys := s.phys.write8 a b, data := fun x => if lowAddr x = some a then b else s.data x }

/-- `sysStep`, with the bitmaps in the memory that is stored to. -/
def storeStep (S : Space) : SysOp → Except Stop Space
  | .write a b => .ok ⟨S.mem.poke a b, S.dirs⟩
  | op => sysStep S op

/-- Where the allocator keeps what it knows: three bitmaps, and the records at `own`. -/
def books (own : Set Nat) (s : Mem) : Set Nat :=
  {a | ∃ x, lowAddr x = some a ∧ (x ∈ s.kernelVaddr.vaddrBitmap.area ∨ ∃ pf, x ∈ (s.pool pf).poolBitmap.area)} ∪ own

/-- The bytes with bits `b` to `b + n - 1` of a range, wherever its bitmap ends. -/
def VirtualAddr.marks (va : VirtualAddr) (b : Option Nat) (n : Nat) : Set Nat :=
  {x | ∃ k, b = some k ∧ ∃ i, i < n ∧ x = va.vaddrBitmap.bits + (k + i) / 8}

/-- Where an operation marks pages as reserved. -/
def SysOp.marks (s : Mem) : SysOp → Set Nat
  | .request dir cur r => ((s.activate dir cur).vaddr r.pool).marks (r.bit (s.activate dir cur)) r.count
  | .getKernelPages _ _ n => s.kernelVaddr.marks (bitmapScan s.data s.kernelVaddr.vaddrBitmap n) n
  | .createPageDir _ _ => s.kernelVaddr.marks (bitmapScan s.data s.kernelVaddr.vaddrBitmap 1) 1
  | .write _ _ => ∅

/-- Nobody stores to the books, and no bit that is set for a page lies in them, those of the kernel heap's own bitmap apart. -/
def Careful (own : Set Nat) (S : Space) : SysOp → Prop
  | .write a _ => a ∉ books own S.mem
  | op => ∀ x ∈ op.marks S.mem, x ∈ S.mem.kernelVaddr.vaddrBitmap.area ∨ ∀ a, lowAddr x = some a → a ∉ books own S.mem

def CarefulRuns (own : Set Nat) : Space → Prop :=
  Reach CleanStart (fun S op => ((SysLegal S op ∧ Roomy S op) ∧ Fenced S op) ∧ Careful own S op) storeStep

/-- An address of the process whose directory is `d`; the boot directory shares its first 4 MB with the kernel. -/
def UserAddr (d va : Nat) : Prop := va < 0xc0000000 ∧ (d = pageDirTablePos → 0x400000 ≤ va)

/-- Frames with a user page hold nothing else. -/
structure Isolated (S : Space) : Prop where
  apart : ∀ d₁ ∈ S.dirs, ∀ d₂ ∈ S.dirs, ∀ v₁ v₂ p₁ p₂, UserAddr d₁ v₁ → UserAddr d₂ v₂ → d₁ ≠ d₂ ∨ v₁ / 4096 ≠ v₂ / 4096 →
    translate S.mem.phys d₁ v₁ = some p₁ → translate S.mem.phys d₂ v₂ = some p₂ → frameOf p₁ ≠ frameOf p₂
  kernel : ∀ d₁ ∈ S.dirs, ∀ d₂ ∈ S.dirs, ∀ v₁ v₂ p₁ p₂, UserAddr d₁ v₁ → 0xc0000000 ≤ v₂ → v₂ < 0xffc00000 →
    translate S.mem.phys d₁ v₁ = some p₁ → translate S.mem.phys d₂ v₂ = some p₂ → frameOf p₁ ≠ frameOf p₂
  walks : ∀ d ∈ S.dirs, ∀ v p, UserAddr d v → translate S.mem.phys d v = some p → p ∉ walkTables S.mem.phys S.dirs
  pools : ∀ d ∈ S.dirs, ∀ v p, UserAddr d v → translate S.mem.phys d v = some p → Held S.mem (frameOf p)

variable {own : Set Nat} {S S' : Space} {s s' : Mem} {dirs : List Nat} {d va vb f a i n : Nat} {pf : PoolFlags} {b : BitVec 8}
  {data : Bytes}

/-! ## What a store leaves alone -/

/-- Other bytes behind the bitmaps, with the frames that are taken still taken. -/
theorem Healthy.recoded (h : Healthy s dirs)
    (ht : ∀ pf i, i < s.frames pf → s.Taken pf i → ({ s with data := data } : Mem).Taken pf i) :
    Healthy { s with data := data } dirs := by
  have hk : ∀ f, Known s f → Known { s with data := data } f := by
    intro f hf
    refine ⟨hf.1, hf.2.imp_right ?_⟩
    intro hex
    obtain ⟨i, hi, he, hti⟩ := hex
    exact ⟨i, hi, he, ht .kernel i hi hti⟩
  refine ⟨⟨h.pool, h.heap, h.heapHigh, h.above, fun d hd => hk d (h.known d hd), h.apart, h.kernel, h.own, ?_⟩,
    h.userLow, h.order, h.maps, h.tables⟩
  intro d hd j hj hp
  exact ⟨hk _ (h.user d hd j hj hp).1, (h.user d hd j hj hp).2⟩

theorem Sole.recoded (h : Sole s dirs)
    (ht : ∀ pf i, i < s.frames pf → s.Taken pf i → ({ s with data := data } : Mem).Taken pf i) :
    Sole { s with data := data } dirs := by
  have hheld : ∀ f, Held s f → Held { s with data := data } f := by
    intro f hf
    obtain ⟨pf, i, hi, he, hti⟩ := hf
    exact ⟨pf, i, hi, he, ht pf i hi hti⟩
  refine ⟨h.low, fun d hd j hj hp => (h.owned d hd j hj hp).imp_right (hheld _), h.cross,
    fun d hd va hv hp => (h.held d hd va hv hp).imp_left (hheld _), h.sole, h.noTable, h.noDir, h.pdeOpen, h.pteOpen⟩

/-- A store outside the books clears no bit of a pool. -/
theorem poke_taken (ha : a ∉ books own s) (hi : i < s.frames pf) : (s.poke a b).Taken pf i ↔ s.Taken pf i := by
  have heq : Set.EqOn (s.poke a b).data s.data (s.pool pf).poolBitmap.area := by
    intro x hx
    exact if_neg fun e => ha (.inl ⟨x, e, .inr ⟨pf, hx⟩⟩)
  exact used_congr heq hi

theorem CarefulRuns.inv (h : CarefulRuns own S) : Sound S ∧ Sole S.mem S.dirs := by
  refine h.invariant (P := fun S => Sound S ∧ Sole S.mem S.dirs) (fun S hs => ⟨Sound.first hs.start, hs.sole⟩) ?_
  rintro S S' op ⟨hs, hsole⟩ ⟨⟨⟨hl, hr⟩, hf⟩, hc⟩ he
  cases op with
  | write a b =>
    cases he
    have hw : sysStep S (.write a b) = .ok ⟨{ S.mem with phys := S.mem.phys.write8 a b }, S.dirs⟩ := rfl
    have htaken : ∀ pf i, i < S.mem.frames pf → S.mem.Taken pf i → (S.mem.poke a b).Taken pf i := fun pf i hi =>
      (poke_taken hc hi).mpr
    have h1 := hs.step hl hr hw
    exact ⟨⟨h1.healthy.recoded htaken, h1.locks⟩, (hsole.step hs hl hr hf hw).recoded htaken⟩
  | request dir cur r => exact ⟨hs.step hl hr he, hsole.step hs hl hr hf he⟩
  | getKernelPages dir cur n => exact ⟨hs.step hl hr he, hsole.step hs hl hr hf he⟩
  | createPageDir dir cur => exact ⟨hs.step hl hr he, hsole.step hs hl hr hf he⟩

/-! ## Isolation -/

theorem UserAddr.slot (h : UserAddr d va) : slot d (pdeIdx va) = (some d, pdeIdx va) := by
  obtain ⟨hv, hb⟩ := h
  have hj : ¬ 768 ≤ pdeIdx va := by unfold pdeIdx; omega
  have hlow : ¬ (d = pageDirTablePos ∧ pdeIdx va = 0) := by
    intro e
    have h4 := hb e.1
    have h0 := e.2
    unfold pdeIdx at h0
    omega
  unfold Memory.slot
  rw [if_neg hj, if_neg hlow]

/-- A user page lies in a frame of the pools. -/
theorem Sole.user_held (h : Sole s dirs) (hd : d ∈ dirs) (hv : UserAddr d va) {pa : Nat}
    (ht : translate s.phys d va = some pa) :
    Held s (frameOf pa) := by
  obtain ⟨hp, hf⟩ := pteWord_of_translate ht
  have hv1 := hv.1
  rcases h.held d hd va (by omega) hp with hheld | ⟨hs, -⟩
  · rw [← hf]
    exact hheld
  · rw [hv.slot] at hs
    cases hs

/-- Two pages in one frame are one page of one owner. -/
theorem Sole.same_frame (h : Sole s dirs) (hh : Healthy s dirs) (hd : d ∈ dirs) (hd' : d' ∈ dirs) (hv : UserAddr d va)
    (hvb : vb < 0xffc00000) {pa pb : Nat} (ht : translate s.phys d va = some pa) (ht' : translate s.phys d' vb = some pb)
    (e : frameOf pa = frameOf pb) : Memory.slot d (pdeIdx va) = Memory.slot d' (pdeIdx vb) ∧ pteIdx va = pteIdx vb := by
  obtain ⟨hp, hf⟩ := pteWord_of_translate ht
  obtain ⟨hp', hf'⟩ := pteWord_of_translate ht'
  have hv1 := hv.1
  refine h.sole d hd d' hd' va vb (by omega) hvb hp hp' ?_ (by rw [hf, hf', e])
  rw [hf]
  exact hh.toSpaceInv.held_high hh.userLow (h.user_held hd hv ht)

theorem runs_isolated (h : CarefulRuns own S) : Isolated S := by
  obtain ⟨hs, hsole⟩ := h.inv
  have hh := hs.healthy
  refine ⟨?_, ?_, ?_, ?_⟩
  · intro d₁ h₁ d₂ h₂ v₁ v₂ p₁ p₂ hv₁ hv₂ hne ht₁ ht₂ e
    have hlt := hv₂.1
    obtain ⟨hslot, hidx⟩ := hsole.same_frame hh h₁ h₂ hv₁ (by omega) ht₁ ht₂ e
    rw [hv₁.slot, hv₂.slot, Prod.mk.injEq, Option.some.injEq] at hslot
    unfold pdeIdx at hslot
    unfold pteIdx at hidx
    omega
  · intro d₁ h₁ d₂ h₂ v₁ v₂ p₁ p₂ hv₁ hlo hhi ht₁ ht₂ e
    obtain ⟨hslot, -⟩ := hsole.same_frame hh h₁ h₂ hv₁ hhi ht₁ ht₂ e
    rw [hv₁.slot, slot_kernel d₂ (by unfold pdeIdx; omega)] at hslot
    cases hslot
  · intro d hd v p hv ht
    have hv1 := hv.1
    refine hsole.page_apart hh.toSpaceInv hd (by omega) ht ?_ (mem_frameOf p)
    intro hm
    obtain ⟨hp, hf⟩ := pteWord_of_translate ht
    have hnone := hsole.noDir d hd v (by omega) hp (by rw [hf]; exact hm)
    rw [hv.slot] at hnone
    cases hnone
  · intro d hd v p hv ht
    exact hsole.user_held hd hv ht

/-! ### Two pages of a process, with eight frames in each pool -/

theorem noLock_acquire (t : Tid) : noLock.acquire t = .ok ⟨some t, 1, 0, some []⟩ := by
  simp [noLock, PoolLock.acquire, semaDown]

theorem noLock_release (t : Tid) : PoolLock.release t ⟨some t, 1, 0, some []⟩ = .ok noLock := by
  simp [noLock, PoolLock.release, semaUp]

/-- The lock given back as it was. -/
theorem Paged.unlocked {q : PoolFlags} {l : PoolLock} (h : Paged dirs va f pf (s.setLock q l) s') (hs : Healthy s dirs) :
    Paged dirs va f pf s (s'.setLock q (s.pool q).lock) := by
  have hpool : (s'.setLock q (s.pool q).lock).pool = ((s.setLock q l).setLock q (s.pool q).lock).pool := by
    show Function.update s'.pool q { s'.pool q with lock := (s.pool q).lock } = _
    rw [h.kept.pool]
    rfl
  rw [setLock_back] at hpool
  have hg := (hs.locked q l).trans ⟨h.kept.stays, h.healthy, h.adds⟩
  have hg' := hg.trans (h.healthy.locked q (s.pool q).lock)
  refine ⟨⟨hpool, h.kept.kernelVaddr, h.kept.cr3, h.kept.cur, h.kept.grows⟩, hg'.healthy, hg'.adds, h.here, h.other, h.dir, ?_⟩
  intro c
  have hc := h.count c
  rw [free_setLock] at hc ⊢
  exact hc

/-- With a frame for the page, and one for a table that is missing, the page is mapped and the lock given back. -/
theorem getAPage_paged (h : Healthy s dirs) (hd : s.cr3 ∈ dirs) (hl : (s.pool pf).lock = noLock) (hp : Permitted s pf va)
    (he : (s.reserve pf (vaddrIdx (s.vaddr pf) va) 1).Enough va 1 pf) :
    ∃ s' f, getAPage pf va s = .ok (va, s') ∧ Paged dirs va f pf (s.reserve pf (vaddrIdx (s.vaddr pf) va) 1) s' := by
  have hvaddr : ∀ l, (s.setLock pf l).vaddr pf = s.vaddr pf := fun l => by cases pf <;> rfl
  have hmark := fun l => (⟨hp.task, by rw [hvaddr]; exact hp.idx, hp.below, hp.unmapped⟩ :
    Permitted (s.setLock pf l) pf va).markVaddr
  simp only [hvaddr, reserve_setLock] at hmark
  unfold getAPage lockAcquire
  rw [hl, noLock_acquire, ok_bind, ok_bind, hmark, ok_bind]
  have hgood : Good dirs s (s.reserve pf (vaddrIdx (s.vaddr pf) va) 1) := h.good (reserve_kept _ _ _ _).stays rfl
  have hlr : ((s.reserve pf (vaddrIdx (s.vaddr pf) va) 1).pool pf).lock = noLock := by cases pf <;> exact hl
  have hun : translate (s.reserve pf (vaddrIdx (s.vaddr pf) va) 1).phys (s.reserve pf (vaddrIdx (s.vaddr pf) va) 1).cr3 va =
      none := hp.unmapped
  generalize s.reserve pf (vaddrIdx (s.vaddr pf) va) 1 = sr at *
  have hcr3 : sr.cr3 ∈ dirs := by rw [hgood.stays.cr3]; exact hd
  have hlock := hgood.healthy.locked pf ⟨some s.cur.tid, 1, 0, some []⟩
  have he := Mem.Enough.setLock he pf ⟨some s.cur.tid, 1, 0, some []⟩
  rcases palloc_cases pf (sr.setLock pf ⟨some s.cur.tid, 1, 0, some []⟩) with ⟨-, hall⟩ | ⟨i, hi, hfree, -, hpal⟩
  · obtain ⟨i, hi⟩ := he.frame
    obtain ⟨hi, hfree⟩ := mem_free.mp hi
    exact absurd (hall i hi) hfree
  · have hpos := ((sr.setLock pf ⟨some s.cur.tid, 1, 0, some []⟩).pool pf).frame_pos i
    rw [hpal, ok_bind]
    simp only
    rw [if_neg (by omega)]
    rcases hlock.healthy.page hcr3 hp.below hi hfree (hlock.healthy.table_frame hi hfree he) with ⟨hmap, -⟩ | ⟨s1, hadd, hpg⟩
    · exact absurd hun hmap
    · have hl1 : (s1.pool pf).lock = ⟨some s.cur.tid, 1, 0, some []⟩ := by rw [hpg.kept.pool, setLock_lock]
      have hcur : s1.cur = s.cur := hpg.kept.cur.trans hgood.stays.cur
      have hrel : lockRelease pf s1 = .ok (s1.setLock pf noLock) := by
        unfold lockRelease
        rw [hl1, hcur, noLock_release]
        rfl
      rw [hadd, ok_bind, hrel]
      have hend := hpg.unlocked hgood.healthy
      rw [hlr] at hend
      exact ⟨_, _, rfl, hend⟩

/-- A process as `process_execute` makes it: no bitmap of its own. -/
def shell : Caller := ⟨2, 0xc0105000, noRange⟩

/-- In a run with the three records from 0x5000 on: one directory, the pools as mem_pool_init made them, `n` frames in each. -/
structure Serving (n : Nat) (S : Space) : Prop where
  runs : CarefulRuns (Set.Ico 0x5000 0x50a0) S
  dirs : S.dirs = [pageDirTablePos]
  pool : S.mem.pool = smallSpace.mem.pool
  kernelVaddr : S.mem.kernelVaddr = smallSpace.mem.kernelVaddr
  left : ∀ pf, n ≤ (S.mem.free pf).card

theorem shell_idx (hv : va < 2 ^ 32) : vaddrIdx noRange va = va / 4096 := by
  unfold vaddrIdx pgSize
  have h0 : noRange.vaddrStart = 0 := rfl
  rw [h0]
  omega

/-- A byte below the bitmaps. -/
theorem Serving.below {x : Nat} (h : Serving n S) (hx : x < memBitmapBase) :
    x ∉ S.mem.kernelVaddr.vaddrBitmap.area ∧ ∀ pf, x ∉ (S.mem.pool pf).poolBitmap.area := by
  have hlow : ∀ btmp : Bitmap, memBitmapBase ≤ btmp.bits → x ∉ btmp.area := fun btmp hb hm => by
    have := (Set.mem_Ico.mp hm).1
    omega
  rw [h.kernelVaddr, h.pool]
  refine ⟨hlow _ (by decide +kernel), fun pf => hlow _ ?_⟩
  cases pf <;> decide +kernel

/-- The other address of a byte of the bitmaps. -/
theorem Serving.books_low {a : Nat} (h : Serving n S) (ha : a ∈ books (Set.Ico 0x5000 0x50a0) S.mem) :
    a < 0x50a0 ∨ 0x9a000 ≤ a := by
  rcases ha with ⟨x, hx, harea⟩ | hown
  · have hhigh : memBitmapBase ≤ x := by
      by_contra hlt
      obtain ⟨hk, hp⟩ := h.below (by omega : x < memBitmapBase)
      rcases harea with hm | ⟨pf, hm⟩
      · exact hk hm
      · exact hp pf hm
    unfold memBitmapBase at hhigh
    unfold lowAddr at hx
    rw [if_neg (by omega)] at hx
    split at hx
    · have hx := Option.some.inj hx
      omega
    · cases hx
  · exact .inl (Set.mem_Ico.mp hown).2

/-- The bit of the page lies below the bitmaps. -/
theorem Serving.reserve_free (h : Serving n S) (hv : va < 2 ^ 32) (q : PoolFlags) :
    ((S.mem.activate pageDirTablePos shell).reserve .user (va / 4096) 1).free q = S.mem.free q := by
  ext i
  rw [mem_free, mem_free]
  refine and_congr_right fun hi => not_congr ?_
  refine used_congr (fun x hx => mark_of_ne ?_) hi
  intro e
  have hlow : x < memBitmapBase := by
    have e : x = 0 + va / 4096 / 8 := e
    unfold memBitmapBase
    omega
  exact (h.below hlow).2 q hx

/-- And behind the records. -/
theorem Serving.careful (h : Serving n S) (h1 : 0xbf000000 ≤ va) (h2 : va < 0xc0000000) :
    Careful (Set.Ico 0x5000 0x50a0) S (.request pageDirTablePos shell (.getAPage .user va)) := by
  intro x hx
  obtain ⟨k, hk, i, hi, rfl⟩ := hx
  cases hk
  refine .inr fun a ha hbook => ?_
  have hi : i = 0 := by
    have hi : i < 1 := hi
    omega
  have hidx : vaddrIdx ((S.mem.activate pageDirTablePos shell).vaddr .user) va = va / 4096 := shell_idx (by omega)
  have hat : lowAddr (0 + (vaddrIdx ((S.mem.activate pageDirTablePos shell).vaddr .user) va + i) / 8) = some a := ha
  rw [hidx, hi] at hat
  have hlow := h.books_low hbook
  unfold lowAddr at hat
  rw [if_pos (by omega)] at hat
  cases hat
  omega

/-- One more page is mapped, and the other pages of the stack's 16 MB are as they were. -/
theorem Serving.page (h : Serving (n + 1) S) (h1 : 0xbf000000 ≤ va) (h2 : va < 0xc0000000)
    (hun : translate S.mem.phys pageDirTablePos va = none) : ∃ S', Serving n S' ∧
      (∃ pa, translate S'.mem.phys pageDirTablePos va = some pa) ∧
      ∀ x, 0xbf000000 ≤ x → x < 0xc0000000 → x / 4096 ≠ va / 4096 →
        translate S'.mem.phys pageDirTablePos x = translate S.mem.phys pageDirTablePos x := by
  have hidx : vaddrIdx ((S.mem.activate pageDirTablePos shell).vaddr .user) va = va / 4096 := shell_idx (by omega)
  have hd : pageDirTablePos ∈ S.dirs := by rw [h.dirs]; exact List.mem_singleton_self _
  have hl : (S.mem.pool .user).lock = noLock := by rw [h.pool]; rfl
  have hp : Permitted (S.mem.activate pageDirTablePos shell) .user va :=
    ⟨.inl ⟨(by decide : shell.pgdir ≠ 0), rfl⟩, by rw [hidx]; omega, by omega, hun⟩
  have hva : va < 2 ^ 32 := by omega
  have hfree := h.reserve_free hva
  have hroom : ((S.mem.activate pageDirTablePos shell).reserve .user (va / 4096) 1).Enough va 1 .user := by
    have hu := h.left .user
    have hk := h.left .kernel
    have hlack := lacking_le ((S.mem.activate pageDirTablePos shell).reserve .user (va / 4096) 1) va 1
    show 1 ≤ _ ∧ _ ≤ _
    rw [hfree, hfree]
    omega
  rw [← hidx] at hroom
  obtain ⟨s', f, hrun, hpaged⟩ := getAPage_paged (h.runs.inv.1.healthy.activate pageDirTablePos shell) hd hl hp hroom
  rw [hidx] at hpaged
  refine ⟨⟨s', S.dirs⟩, ⟨?_, h.dirs, hpaged.kept.pool.trans h.pool, hpaged.kept.kernelVaddr.trans h.kernelVaddr, fun q => ?_⟩,
    ⟨_, hpaged.here va rfl⟩, fun x hx1 hx2 hne => hpaged.other x (by omega) hne (by omega) (by omega)⟩
  · have hlegal : SysLegal S (.request pageDirTablePos shell (.getAPage .user va)) := by
      refine ⟨hd, ?_, hp⟩
      show (S.mem.pool .user).lock.holderRepeatNr + 1 < 2 ^ 32
      rw [hl]
      decide
    refine Reach.step (.request pageDirTablePos shell (.getAPage .user va)) h.runs
      ⟨⟨⟨hlegal, .inl ⟨_, rfl, hroom⟩⟩, trivial⟩, h.careful h1 h2⟩ ?_
    have hr : (Req.getAPage .user va).run (S.mem.activate pageDirTablePos shell) = .ok (va, s') := hrun
    simp only [storeStep, sysStep, hr, ok_bind]
  · have hc := hpaged.count q
    have hq := h.left q
    rw [hfree] at hc
    show n ≤ (s'.free q).card
    cases q with
    | kernel =>
      rw [if_neg (by decide)] at hc
      split at hc <;> omega
    | user =>
      rw [if_pos rfl, if_neg (by simp)] at hc
      omega

theorem smallSpace_serving : Serving 2 smallSpace where
  runs := .first (bootMem_clean 0x210000)
  dirs := rfl
  pool := rfl
  kernelVaddr := rfl
  left pf := by cases pf <;> decide +kernel

/-- The stack page of a process and the one below it. -/
theorem shell_isolated : ∃ S p₁ p₂, CarefulRuns (Set.Ico 0x5000 0x50a0) S ∧ Isolated S ∧
    translate S.mem.phys pageDirTablePos 0xbffff000 = some p₁ ∧ translate S.mem.phys pageDirTablePos 0xbfffe000 = some p₂ ∧
    frameOf p₁ ≠ frameOf p₂ := by
  have hlay : translate smallSpace.mem.phys pageDirTablePos 0xbffff000 = none ∧
      translate smallSpace.mem.phys pageDirTablePos 0xbfffe000 = none := by
    decide +kernel
  obtain ⟨S1, h1, ⟨p₁, hp₁⟩, hother⟩ := smallSpace_serving.page (by omega) (by omega) hlay.1
  have hun := (hother 0xbfffe000 (by omega) (by omega) (by omega)).trans hlay.2
  obtain ⟨S2, h2, ⟨p₂, hp₂⟩, hkept⟩ := h1.page (by omega) (by omega) hun
  rw [← hkept 0xbffff000 (by omega) (by omega) (by omega)] at hp₁
  have hiso := runs_isolated h2.runs
  have hd : pageDirTablePos ∈ S2.dirs := by rw [h2.dirs]; exact List.mem_singleton_self _
  have hne := hiso.apart _ hd _ hd 0xbffff000 0xbfffe000 p₁ p₂ ⟨by omega, fun _ => by omega⟩ ⟨by omega, fun _ => by omega⟩
    (.inr (by omega)) hp₁ hp₂
  exact ⟨S2, p₁, p₂, h2.runs, hiso, hp₁, hp₂, hne⟩

end TinyOs.Memory
