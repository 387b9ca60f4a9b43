/-
  TinyOs.Thread.Locks — mutual exclusion of struct lock.

  Whoever took the unit of a lock's semaphore owns the lock, from the return of
  `sema_down` to the `value++` of `sema_up`. `phase` reads off an owner's program point
  what it has made of the fields so far; the invariant `LockOk` says that the unit is
  either in the semaphore, with the fields clear, or with one owner, whose phase the
  fields show. `Fits` is what a thread's program point says about its own depth.

  - `runs_exclusion`: over all runs, at most one thread is inside, the fields name it
    and its depth, and no assertion of the lock code fires.
-/

import TinyOs.Thread.InOrder

namespace TinyOs.Thread

open TinyOs.Kernel TinyOs.Lib TinyOs.Logic

/-- What the fields of lock `l` hold while thread `t` owns it; none if it does not. -/
def phase (l : LockId) (t : Tid) (pc : Pc) (depth : Nat) : Option Lock :=
  if pc = .acqHolder l ∨ pc = .semaUp (.lock l) then some ⟨none, 0⟩
  else if pc = .acqAssert l ∨ pc = .acqNr l then some ⟨some t, 0⟩
  else if pc = .relZero l then some ⟨none, 1⟩
  else if 0 < depth then some ⟨some t, depth⟩
  else none

/-- What being at a program point says about the depth of lock `l`. -/
def Fits (l : LockId) (d : Nat) : Pc → Prop
  | .run | .unblock _ => True
  | .semaDown s | .semaLoop s _ | .semaUp s => s = .lock l → d = 0
  | .acqTest l' => l' = l → d + 1 < 2 ^ 32
  | .acqHolder l' | .acqAssert l' | .acqNr l' | .relZero l' => l' = l → d = 0
  | .acqInc l' => l' = l → 0 < d ∧ d + 1 < 2 ^ 32
  | .acqIncStore l' nr => l' = l → nr = d ∧ 0 < d ∧ d + 1 < 2 ^ 32
  | .relAssert l' | .relTest l' => l' = l → 0 < d
  | .relDec l' => l' = l → 1 < d
  | .relDecStore l' nr => l' = l → nr = d ∧ 1 < d
  | .relAssertOne l' | .relClear l' => l' = l → d = 1

namespace Kernel

variable {σ : Type}

def phaseOf (k : Kernel σ) (l : LockId) (t : Tid) : Option Lock := phase l t (k.task t).pc ((k.task t).depth l)

/-- The unit is in the semaphore, or with one owner. -/
def LockOk (k : Kernel σ) (l : LockId) : Prop :=
  (k.value (.lock l) = 1 ∧ k.lock l = ⟨none, 0⟩ ∧ ∀ t ∈ k.created, k.phaseOf l t = none) ∨
  (k.value (.lock l) = 0 ∧ ∃ o ∈ k.created, k.phaseOf l o = some (k.lock l) ∧
    ∀ t ∈ k.created, t ≠ o → k.phaseOf l t = none)

structure LockInv (k : Kernel σ) (l : LockId) : Prop where
  ok : k.LockOk l
  fits : ∀ t ∈ k.created, (k.task t).depth l < 2 ^ 32 ∧ Fits l ((k.task t).depth l) (k.task t).pc

end Kernel

variable {I : Set Sema} {P : Set Tid} {k k' : Kernel Queues} {l : LockId} {t : Tid} {pc : Pc} {d : Nat} {op : Op}

/-! ## Phases -/

/-- At a program point of another lock, or of none, only the depth counts. -/
theorem phase_other (h : pc.sema ≠ some (.lock l)) : phase l t pc d = if 0 < d then some ⟨some t, d⟩ else none := by
  cases pc <;> simp_all [phase, Pc.sema]

theorem fits_other (h : pc.sema ≠ some (.lock l)) : Fits l d pc := by
  cases pc <;> simp_all [Fits, Pc.sema]

theorem phase_pos (hd : 0 < d) (hf : Fits l d pc) : phase l t pc d = some ⟨some t, d⟩ := by
  have hne : d ≠ 0 := by omega
  have h1 : ¬ (pc = .acqHolder l ∨ pc = .semaUp (.lock l)) := by rintro (rfl | rfl) <;> exact hne (hf rfl)
  have h2 : ¬ (pc = .acqAssert l ∨ pc = .acqNr l) := by rintro (rfl | rfl) <;> exact hne (hf rfl)
  have h3 : pc ≠ .relZero l := by rintro rfl; exact hne (hf rfl)
  simp [phase, h1, h2, h3, hd]

/-! ## One owner -/

/-- The owner's phase is what the fields hold. -/
theorem LockOk_of_phase (h : k.LockOk l) (ht : t ∈ k.created) {x : Lock} (hp : k.phaseOf l t = some x) :
    k.value (.lock l) = 0 ∧ k.lock l = x ∧ ∀ u ∈ k.created, u ≠ t → k.phaseOf l u = none := by
  rcases h with ⟨-, -, hnone⟩ | ⟨hv, o, ho, hpo, hnone⟩
  · rw [hnone t ht] at hp; cases hp
  · by_cases e : t = o
    · subst e
      rw [hpo] at hp
      exact ⟨hv, Option.some.inj hp, hnone⟩
    · rw [hnone t ht e] at hp; cases hp

/-- The thread the fields name is inside, unless it is only entering. -/
theorem LockOk_of_holder (h : k.LockOk l) (hh : (k.lock l).holder = some t)
    (hpc : (k.task t).pc ≠ .acqAssert l ∧ (k.task t).pc ≠ .acqNr l) :
    k.lock l = ⟨some t, (k.task t).depth l⟩ ∧ 0 < (k.task t).depth l := by
  rcases h with ⟨-, hl, -⟩ | ⟨-, o, -, hp, -⟩
  · rw [hl] at hh; cases hh
  · unfold Kernel.phaseOf phase at hp
    rw [← Option.some_inj, ← hp]
    split at hp
    · rw [← Option.some.inj hp] at hh; cases hh
    split at hp
    · next h2 => rw [← Option.some.inj hp] at hh; cases hh; exact absurd h2 (by simp [hpc])
    split at hp
    · rw [← Option.some.inj hp] at hh; cases hh
    split at hp
    · next h1 h2 h3 h4 => rw [← Option.some.inj hp] at hh; cases hh; simp_all
    · cases hp

/-! ## One step -/

theorem Frame.phaseOf (f : Frame k op k') (ht : t ∈ k.created) (hne : t ≠ k.cur) : k'.phaseOf l t = k.phaseOf l t := by
  unfold Kernel.phaseOf
  rw [(f.others t ht hne).1, (f.others t ht hne).2]

theorem Frame.phase_fresh (f : Frame k op k') (ht : t ∈ k'.created) (hn : t ∉ k.created) : k'.phaseOf l t = none := by
  obtain ⟨-, hpc, hd, -⟩ := f.fresh t ht hn
  unfold Kernel.phaseOf
  rw [hpc, hd, phase_other (by simp [Pc.sema])]
  rfl

/-- If no other thread owned the lock, none does now. -/
theorem Frame.phase_none (f : Frame k op k') (h : ∀ u ∈ k.created, u ≠ k.cur → k.phaseOf l u = none) :
    ∀ u ∈ k'.created, u ≠ k.cur → k'.phaseOf l u = none := fun u hu hne => by
  by_cases hu' : u ∈ k.created
  · rw [f.phaseOf hu' hne]; exact h u hu' hne
  · exact f.phase_fresh hu hu'

theorem LockOk_same (f : Frame k op k') (h : k.LockOk l)
    (hp : k'.phaseOf l k.cur = k.phaseOf l k.cur) (hl : k'.lock l = k.lock l) (hv : k'.value (.lock l) = k.value (.lock l)) :
    k'.LockOk l := by
  have hall : ∀ u ∈ k.created, k'.phaseOf l u = k.phaseOf l u := fun u hu => by
    by_cases e : u = k.cur
    · rw [e]; exact hp
    · exact f.phaseOf hu e
  rcases h with ⟨hv0, hl0, hnone⟩ | ⟨hv0, o, ho, hpo, hnone⟩
  · refine .inl ⟨hv.trans hv0, hl.trans hl0, fun u hu => ?_⟩
    by_cases hu' : u ∈ k.created
    · rw [hall u hu']; exact hnone u hu'
    · exact f.phase_fresh hu hu'
  · refine .inr ⟨hv.trans hv0, o, f.created o ho, by rw [hall o ho, hpo, hl], fun u hu e => ?_⟩
    by_cases hu' : u ∈ k.created
    · rw [hall u hu']; exact hnone u hu' e
    · exact f.phase_fresh hu hu'

/-- The owner moves on, and the fields with it. -/
theorem LockOk_keep (f : Frame k op k') (hc : k.cur ∈ k.created) (h : k.LockOk l) {x : Lock} (hp : k.phaseOf l k.cur = some x)
    (hp' : k'.phaseOf l k.cur = some (k'.lock l)) (hv : k'.value = k.value) : k'.LockOk l := by
  obtain ⟨hv0, -, hnone⟩ := LockOk_of_phase h hc hp
  exact .inr ⟨by rw [hv]; exact hv0, k.cur, f.created _ hc, hp', f.phase_none hnone⟩

/-- The running thread takes the unit. -/
theorem LockOk_take (f : Frame k op k') (hc : k.cur ∈ k.created) (h : k.LockOk l) (hv : k.value (.lock l) = 1)
    (hp' : k'.phaseOf l k.cur = some ⟨none, 0⟩) (hl : k'.lock l = k.lock l) (hv' : k'.value (.lock l) = 0) : k'.LockOk l := by
  rcases h with ⟨-, hl0, hnone⟩ | ⟨hv0, -⟩
  · exact .inr ⟨hv', k.cur, f.created _ hc, by rw [hp', hl, hl0], f.phase_none (fun u hu _ => hnone u hu)⟩
  · rw [hv0] at hv; cases hv

/-- The owner gives the unit back. -/
theorem LockOk_give (f : Frame k op k') (hc : k.cur ∈ k.created) (h : k.LockOk l) (hp : k.phaseOf l k.cur = some ⟨none, 0⟩)
    (hp' : k'.phaseOf l k.cur = none) (hl : k'.lock l = k.lock l) (hv' : k'.value (.lock l) = 1) : k'.LockOk l := by
  obtain ⟨-, hl0, hnone⟩ := LockOk_of_phase h hc hp
  refine .inl ⟨hv', by rw [hl, hl0], fun u hu => ?_⟩
  by_cases e : u = k.cur
  · rw [e]; exact hp'
  · exact f.phase_none hnone u hu e

/-- A statement about another lock, or about none. -/
theorem stmt_other {depth : LockId → Nat} {lock : LockId → Lock} (h : LockStmt I k op pc depth lock)
    (h1 : k.pc.sema ≠ some (.lock l)) (h2 : pc.sema ≠ some (.lock l)) : depth l = k.depth l ∧ lock l = k.lock l := by
  cases h <;> simp_all [Pc.sema, eq_comm]

/-- A statement leaves the running thread's phase and the fields as they were, or moves both. -/
def Moves (k : Kernel Queues) (l : LockId) (pc : Pc) (depth : LockId → Nat) (lock : LockId → Lock) : Prop :=
  (depth l < 2 ^ 32 ∧ Fits l (depth l) pc) ∧
    ((phase l k.cur pc (depth l) = k.phaseOf l k.cur ∧ lock l = k.lock l) ∨
      ∃ x, k.phaseOf l k.cur = some x ∧ phase l k.cur pc (depth l) = some (lock l))

theorem stmt_moves {depth : LockId → Nat} {lock : LockId → Lock} (h : LockStmt I k op pc depth lock) (hi : k.LockInv l)
    (hc : k.cur ∈ k.created) : Moves k l pc depth lock := by
  obtain ⟨hlt, hfit⟩ : k.depth l < 2 ^ 32 ∧ Fits l (k.depth l) k.pc := hi.fits k.cur hc
  have hok := hi.ok
  have hphase : ∀ {p d}, k.pc = p → k.depth l = d → k.phaseOf l k.cur = phase l k.cur p d := fun h1 h2 => by
    rw [← h1, ← h2]; rfl
  have hpos : 0 < k.depth l → k.lock l = ⟨some k.cur, k.depth l⟩ := fun hd =>
    (LockOk_of_phase hok hc (phase_pos hd hfit)).2.1
  by_cases ho : k.pc.sema ≠ some (.lock l) ∧ pc.sema ≠ some (.lock l)
  · obtain ⟨hd, hl⟩ := stmt_other h ho.1 ho.2
    rw [Moves, hd]
    refine ⟨⟨hlt, fits_other ho.2⟩, .inl ⟨?_, hl⟩⟩
    rw [hphase rfl rfl, phase_other ho.1, phase_other ho.2]
  -- from here on the statement is one of lock `l`
  have hown : ∀ l', k.pc.sema = some (.lock l') ∨ k.pc.sema = none → pc.sema = some (.lock l') ∨ pc.sema = none → l' = l := by
    intro l' h1 h2
    by_contra e
    refine ho ⟨fun h => ?_, fun h => ?_⟩
    · rw [h] at h1; simp [Ne.symm e] at h1
    · rw [h] at h2; simp [Ne.symm e] at h2
  cases h with
  | callDown n h0 => exact absurd ⟨by rw [h0]; simp [Pc.sema], by simp [Pc.sema]⟩ ho
  | callUp n h0 => exact absurd ⟨by rw [h0]; simp [Pc.sema], by simp [Pc.sema]⟩ ho
  | callUnblock t h0 => exact absurd ⟨by rw [h0]; simp [Pc.sema], by simp [Pc.sema]⟩ ho
  | unblock t h0 => exact absurd ⟨by rw [h0]; simp [Pc.sema], by simp [Pc.sema]⟩ ho
  | callAcquire l' h0 _ hd =>
    obtain rfl : l' = l := hown l' (.inr (by rw [h0]; rfl)) (.inl rfl)
    exact ⟨⟨hlt, fun _ => hd⟩, .inl ⟨by rw [hphase h0 rfl]; simp [phase], rfl⟩⟩
  | callRelease l' h0 _ hh =>
    obtain rfl : l' = l := hown l' (.inr (by rw [h0]; rfl)) (.inl rfl)
    have hd := (LockOk_of_holder hok hh (by show k.pc ≠ _ ∧ k.pc ≠ _; rw [h0]; simp)).2
    exact ⟨⟨hlt, fun _ => hd⟩, .inl ⟨by rw [hphase h0 rfl]; simp [phase], rfl⟩⟩
  | testOther l' h0 hh =>
    obtain rfl : l' = l := hown l' (.inl (by rw [h0]; rfl)) (.inl rfl)
    have hd : k.depth l' = 0 := by
      by_contra hd
      exact hh (by rw [hpos (by omega)])
    exact ⟨⟨hlt, fun _ => hd⟩, .inl ⟨by rw [hphase h0 rfl]; simp [phase], rfl⟩⟩
  | testOwn l' h0 hh =>
    obtain rfl : l' = l := hown l' (.inl (by rw [h0]; rfl)) (.inl rfl)
    rw [h0] at hfit
    have hd := (LockOk_of_holder hok hh (by show k.pc ≠ _ ∧ k.pc ≠ _; rw [h0]; simp)).2
    exact ⟨⟨hlt, fun _ => ⟨hd, hfit rfl⟩⟩, .inl ⟨by rw [hphase h0 rfl]; simp [phase], rfl⟩⟩
  | setHolder l' h0 =>
    obtain rfl : l' = l := hown l' (.inl (by rw [h0]; rfl)) (.inl rfl)
    rw [h0] at hfit
    have hp : k.phaseOf l' k.cur = some ⟨none, 0⟩ := by rw [hphase h0 rfl]; simp [phase]
    have hl := (LockOk_of_phase hok hc hp).2.1
    exact ⟨⟨hlt, hfit⟩, .inr ⟨_, hp, by simp [phase, hl]⟩⟩
  | assertNr l' h0 =>
    obtain rfl : l' = l := hown l' (.inl (by rw [h0]; rfl)) (.inl rfl)
    rw [h0] at hfit
    exact ⟨⟨hlt, hfit⟩, .inl ⟨by rw [hphase h0 rfl]; simp [phase], rfl⟩⟩
  | setNr l' h0 =>
    obtain rfl : l' = l := hown l' (.inl (by rw [h0]; rfl)) (.inr rfl)
    rw [h0] at hfit
    have hd : k.depth l' = 0 := hfit rfl
    have hp : k.phaseOf l' k.cur = some ⟨some k.cur, 0⟩ := by rw [hphase h0 rfl]; simp [phase]
    have hl := (LockOk_of_phase hok hc hp).2.1
    exact ⟨⟨by simp [hd], trivial⟩, .inr ⟨_, hp, by simp [phase, hl, hd]⟩⟩
  | loadInc l' h0 =>
    obtain rfl : l' = l := hown l' (.inl (by rw [h0]; rfl)) (.inl rfl)
    rw [h0] at hfit
    obtain ⟨hd, hd'⟩ := hfit rfl
    exact ⟨⟨hlt, fun _ => ⟨by rw [hpos hd], hd, hd'⟩⟩, .inl ⟨by rw [hphase h0 rfl]; simp [phase], rfl⟩⟩
  | storeInc l' nr h0 =>
    obtain rfl : l' = l := hown l' (.inl (by rw [h0]; rfl)) (.inr rfl)
    rw [h0] at hfit
    obtain ⟨rfl, hd, hd'⟩ := hfit rfl
    have hp : k.phaseOf l' k.cur = some ⟨some k.cur, k.depth l'⟩ := by rw [hphase h0 rfl]; simp [phase, hd]
    have hl := hpos hd
    have hmod : (k.depth l' + 1) % 2 ^ 32 = k.depth l' + 1 := Nat.mod_eq_of_lt hd'
    exact ⟨⟨by simpa using hd', trivial⟩, .inr ⟨_, hp, by simp only [phase, hl, hmod]; simp⟩⟩
  | assertHolder l' h0 =>
    obtain rfl : l' = l := hown l' (.inl (by rw [h0]; rfl)) (.inl rfl)
    rw [h0] at hfit
    exact ⟨⟨hlt, hfit⟩, .inl ⟨by rw [hphase h0 rfl]; simp [phase], rfl⟩⟩
  | testNested l' h0 hn =>
    obtain rfl : l' = l := hown l' (.inl (by rw [h0]; rfl)) (.inl rfl)
    rw [h0] at hfit
    rw [hpos (hfit rfl)] at hn
    exact ⟨⟨hlt, fun _ => hn⟩, .inl ⟨by rw [hphase h0 rfl]; simp [phase], rfl⟩⟩
  | testLast l' h0 hn =>
    obtain rfl : l' = l := hown l' (.inl (by rw [h0]; rfl)) (.inl rfl)
    rw [h0] at hfit
    have hd := hfit rfl
    rw [hpos hd] at hn
    exact ⟨⟨hlt, fun _ => by dsimp only at hn; omega⟩, .inl ⟨by rw [hphase h0 rfl]; simp [phase], rfl⟩⟩
  | loadDec l' h0 =>
    obtain rfl : l' = l := hown l' (.inl (by rw [h0]; rfl)) (.inl rfl)
    rw [h0] at hfit
    have hd := hfit rfl
    exact ⟨⟨hlt, fun _ => ⟨by rw [hpos (by omega)], hd⟩⟩, .inl ⟨by rw [hphase h0 rfl]; simp [phase], rfl⟩⟩
  | storeDec l' nr h0 =>
    obtain rfl : l' = l := hown l' (.inl (by rw [h0]; rfl)) (.inr rfl)
    rw [h0] at hfit
    obtain ⟨rfl, hd⟩ := hfit rfl
    have hp : k.phaseOf l' k.cur = some ⟨some k.cur, k.depth l'⟩ := by
      rw [hphase h0 rfl]; simp [phase, (by omega : 0 < k.depth l')]
    have hl := hpos (by omega)
    have hnr : (k.depth l' + (2 ^ 32 - 1)) % 2 ^ 32 = k.depth l' - 1 := by omega
    refine ⟨⟨by simp only [Function.update_self]; omega, trivial⟩, .inr ⟨_, hp, ?_⟩⟩
    have hd' : 0 < k.depth l' - 1 := by omega
    rw [Function.update_self, Function.update_self, hnr, hl]
    simp only [phase, reduceCtorEq, or_self, if_false, hd', if_true]
  | assertOne l' h0 =>
    obtain rfl : l' = l := hown l' (.inl (by rw [h0]; rfl)) (.inl rfl)
    rw [h0] at hfit
    exact ⟨⟨hlt, hfit⟩, .inl ⟨by rw [hphase h0 rfl]; simp [phase], rfl⟩⟩
  | clearHolder l' h0 =>
    obtain rfl : l' = l := hown l' (.inl (by rw [h0]; rfl)) (.inl rfl)
    rw [h0] at hfit
    have hd : k.depth l' = 1 := hfit rfl
    have hp : k.phaseOf l' k.cur = some ⟨some k.cur, 1⟩ := by rw [hphase h0 hd]; simp [phase]
    have hl := (LockOk_of_phase hok hc hp).2.1
    exact ⟨⟨by simp [hd], fun _ => by simp [hd]⟩, .inr ⟨_, hp, by simp [phase, hl]⟩⟩
  | zeroNr l' h0 =>
    obtain rfl : l' = l := hown l' (.inl (by rw [h0]; rfl)) (.inl rfl)
    rw [h0] at hfit
    have hp : k.phaseOf l' k.cur = some ⟨none, 1⟩ := by rw [hphase h0 rfl]; simp [phase]
    have hl := (LockOk_of_phase hok hc hp).2.1
    exact ⟨⟨hlt, fun _ => hfit rfl⟩, .inr ⟨_, hp, by simp [phase, hl]⟩⟩

theorem LockInv_step (hw : Wf I P (some k.cur) k) (f : Frame k op k') (e : Effect I k op k') (h : k.LockInv l) : k'.LockInv l := by
  have hc := hw.curCreated
  obtain ⟨hlt, hfit⟩ : k.depth l < 2 ^ 32 ∧ Fits l (k.depth l) k.pc := h.fits k.cur hc
  -- the other threads keep their program points and depths; the new ones are outside
  have hrest : k'.LockOk l → (k'.task k.cur).depth l < 2 ^ 32 ∧ Fits l ((k'.task k.cur).depth l) (k'.task k.cur).pc →
      k'.LockInv l := fun hok hcur => ⟨hok, fun t ht => by
    by_cases et : t = k.cur
    · rw [et]; exact hcur
    · by_cases ht' : t ∈ k.created
      · rw [(f.others t ht' et).1, (f.others t ht' et).2]; exact h.fits t ht'
      · obtain ⟨-, hpc, hd, -⟩ := f.fresh t ht ht'
        rw [hpc, hd]; exact ⟨by simp, trivial⟩⟩
  have hphase : ∀ {pc d}, (k'.task k.cur).pc = pc → (k'.task k.cur).depth l = d → k'.phaseOf l k.cur = phase l k.cur pc d :=
    fun h1 h2 => by rw [← h1, ← h2]; rfl
  cases e with
  | quiet hpc hd hl hv =>
    refine hrest (LockOk_same f h.ok ?_ (by rw [hl]) (by rw [hv])) (by rw [hpc, hd]; exact ⟨hlt, hfit⟩)
    rw [hphase hpc (congrFun hd l)]; rfl
  | @stmt pc depth lock hst hpc hd hl hv =>
    obtain ⟨hcur, hm⟩ := stmt_moves hst h hc
    have hp' := hphase hpc (congrFun hd l)
    refine hrest ?_ (by rw [hpc, hd]; exact hcur)
    rcases hm with ⟨hp, hl'⟩ | ⟨x, hp, hl'⟩
    · exact LockOk_same f h.ok (hp'.trans hp) (by rw [hl, hl']) (by rw [hv])
    · exact LockOk_keep f hc h.ok hp (by rw [hp', hl', hl]) hv
  | block s old hs hat hv0 hpc hd hl hv =>
    -- at `sema_down` of its own lock the thread is outside
    have hd0 : s = .lock l → k.depth l = 0 := fun e => by
      rcases hat with hat | ⟨o, hat⟩ <;> rw [hat] at hfit <;> exact hfit e
    have hp : k'.phaseOf l k.cur = k.phaseOf l k.cur := by
      rw [hphase hpc (congrFun hd l)]
      unfold Kernel.phaseOf
      rcases hat with hat | ⟨o, hat⟩ <;> rw [show (k.task k.cur).pc = _ from hat] <;> simp [phase]
    apply hrest (LockOk_same f h.ok hp (by rw [hl]) (by rw [hv]))
    rw [hpc, hd]
    exact ⟨hlt, hd0⟩
  | take s hs hat hv1 hpc hd hl hv =>
    have hd0 : s = .lock l → k.depth l = 0 := fun e => by
      rcases hat with hat | ⟨o, hat⟩ <;> rw [hat] at hfit <;> exact hfit e
    have hp' := hphase hpc (congrFun hd l)
    by_cases e : s = .lock l
    · subst e
      apply hrest (LockOk_take f hc h.ok hv1 (by rw [hp']; simp [afterDown, phase]) (by rw [hl]) (by simp [hv]))
      rw [hpc, hd]
      exact ⟨hlt, fun _ => hd0 rfl⟩
    · have hne : (afterDown s).sema ≠ some (.lock l) := fun e' => e (afterDown_sema e').symm
      have hne' : k.pc.sema ≠ some (.lock l) := by
        rcases hat with hat | ⟨o, hat⟩ <;> rw [hat] <;> simpa [Pc.sema] using e
      refine hrest (LockOk_same f h.ok ?_ (by rw [hl]) (by simp [hv, Ne.symm e])) ?_
      · rw [hp', phase_other hne]; exact (phase_other hne').symm
      · rw [hpc, hd]; exact ⟨hlt, fits_other hne⟩
  | give s hs hpc0 hv0 hpc hd hl hv =>
    have hp' := hphase hpc (congrFun hd l)
    rw [hpc0] at hfit
    by_cases e : s = .lock l
    · subst e
      have hd0 : k.depth l = 0 := hfit rfl
      have hp : k.phaseOf l k.cur = some ⟨none, 0⟩ := by
        unfold Kernel.phaseOf
        rw [show (k.task k.cur).pc = _ from hpc0]; simp [phase]
      refine hrest (LockOk_give f hc h.ok hp ?_ (by rw [hl]) (by simp [hv])) ?_
      · rw [hp', hd0]; simp [phase]
      · rw [hpc, hd]; exact ⟨hlt, trivial⟩
    · refine hrest (LockOk_same f h.ok ?_ (by rw [hl]) (by simp [hv, Ne.symm e])) ?_
      · rw [hp', phase_other (by simp [Pc.sema])]
        refine (phase_other ?_).symm
        rw [show (k.task k.cur).pc = _ from hpc0]; simpa [Pc.sema] using e
      · rw [hpc, hd]; exact ⟨hlt, trivial⟩

/-! ## Runs -/

/-- Every lock of `I` is as `lock_init` leaves its fields. -/
def LocksFree (I : Set Sema) (value : Sema → Nat) (lock : LockId → Lock) : Prop :=
  ∀ l, .lock l ∈ I → value (.lock l) = 1 ∧ lock l = ⟨none, 0⟩

/-- The ASSERTs and PANICs of sync.c, and of the `thread_unblock` in `sema_up`. -/
def lockSites : List Site :=
  [.semaDownFind, .semaDownPanic, .semaDownValue, .semaUpZero, .semaUpOne, .acquireNr, .releaseHolder, .releaseNr,
    .unblockStatus, .unblockFind, .unblockPanic]

theorem booted_lockInv {k0 : Kernel (Links Node)} (hF : LocksFree I k0.value k0.lock) (hl : .lock l ∈ I) :
    (booted k0).LockInv l := by
  have htask : ∀ t ∈ (booted k0).created, (booted k0).task t = ⟨.running, 31, 31, 0, 0x19870916, .run, none, fun _ => 0⟩ :=
    fun t ht => by
      rw [List.mem_singleton.mp (show t ∈ [k0.cur] from ht)]; exact booted_task k0
  refine ⟨.inl ⟨(hF l hl).1, (hF l hl).2, fun t ht => ?_⟩, fun t ht => ?_⟩
  · unfold Kernel.phaseOf
    rw [htask t ht]; simp [phase]
  · rw [htask t ht]; exact ⟨by simp, trivial⟩

variable {E : Task → Op → Prop} {kl : Kernel (Links Node)}

theorem Runs.lockInv (h : Runs I (LocksFree I) E kl) :
    ∃ a, Stand I kl a ∧ Wf I ∅ (some a.cur) a ∧ ∀ l, .lock l ∈ I → a.LockInv l :=
  h.invariant (fun _ hF _ hl => booted_lockInv hF hl) (fun _ _ _ hw hQ hl _ hk l hlI => by
    obtain ⟨f, e⟩ := step_effect hw hl hk
    exact LockInv_step hw f e (hQ l hlI))

theorem stops_run {site : Site} (hst : Stops I k op site) (hs : k.pc.sema = none) : site ∉ lockSites := by
  cases hst with
  | noPage | badStat | noReady | noReadyDown => simp [lockSites]
  | manyUnits s _ hat => rcases hat with hat | ⟨o, hat⟩ <;> rw [hat] at hs <;> cases hs
  | unitLeft s _ hpc => rw [hpc] at hs; cases hs
  | acquireNr l hpc => rw [hpc] at hs; cases hs
  | releaseHolder l hpc => rw [hpc] at hs; cases hs
  | releaseNr l hpc => rw [hpc] at hs; cases hs

/-- In the code of lock `l` no assertion of the lock fires. -/
theorem stops_lock (hw : Wf I P (some k.cur) k) (h : k.LockInv l) (hs : k.pc.sema = some (.lock l)) {site : Site}
    (hst : Stops I k op site) : site ∉ lockSites := by
  have hc := hw.curCreated
  obtain ⟨hlt, hfit⟩ : k.depth l < 2 ^ 32 ∧ Fits l (k.depth l) k.pc := h.fits k.cur hc
  have hvalue : k.value (.lock l) ≤ 1 := by
    rcases h.ok with ⟨hv, -⟩ | ⟨hv, -⟩ <;> omega
  have hphase : ∀ {p}, k.pc = p → k.phaseOf l k.cur = phase l k.cur p (k.depth l) := fun h1 => by rw [← h1]; rfl
  intro hm
  cases hst with
  | noPage | badStat | noReady | noReadyDown => simp [lockSites] at hm
  | manyUnits s hsI hat hv =>
    have : s = .lock l := by
      rcases hat with hat | ⟨o, hat⟩ <;> rw [hat] at hs <;> simpa [Pc.sema] using hs
    subst this; omega
  | unitLeft s hsI hpc hv =>
    have : s = .lock l := by rw [hpc] at hs; simpa [Pc.sema] using hs
    subst this
    exact hv (LockOk_of_phase h.ok hc (x := ⟨none, 0⟩) (by rw [hphase hpc]; simp [phase])).1
  | acquireNr l' hpc hn =>
    obtain rfl : l' = l := by rw [hpc] at hs; simpa [Pc.sema] using hs
    have := (LockOk_of_phase h.ok hc (x := ⟨some k.cur, 0⟩) (by rw [hphase hpc]; simp [phase])).2.1
    exact hn (by rw [this])
  | releaseHolder l' hpc hn =>
    obtain rfl : l' = l := by rw [hpc] at hs; simpa [Pc.sema] using hs
    rw [hpc] at hfit
    have := (LockOk_of_phase h.ok hc (x := ⟨some k.cur, k.depth l'⟩) (by rw [hphase hpc]; simp [phase, hfit rfl])).2.1
    exact hn (by rw [this])
  | releaseNr l' hpc hn =>
    obtain rfl : l' = l := by rw [hpc] at hs; simpa [Pc.sema] using hs
    rw [hpc] at hfit
    have hd : k.depth l' = 1 := hfit rfl
    have := (LockOk_of_phase h.ok hc (x := ⟨some k.cur, 1⟩) (by rw [hphase hpc, hd]; simp [phase])).2.1
    exact hn (by rw [this])

/-- Mutual exclusion and bookkeeping of lock `l`. An assertion of the lock code only fires
    for a semaphore of its own. -/
theorem runs_exclusion (h : Runs I (LocksFree I) E kl) (hl : .lock l ∈ I) :
    (∀ t ∈ kl.created, ∀ u ∈ kl.created, 0 < (kl.task t).depth l → 0 < (kl.task u).depth l → t = u) ∧
    (∀ t ∈ kl.created, 0 < (kl.task t).depth l → kl.lock l = ⟨some t, (kl.task t).depth l⟩) ∧
    kl.value (.lock l) ≤ 1 ∧
    ∀ op, Legal I kl op → ∀ e, step kl op = .error e →
      ∃ site, e = .assert site ∧ (site ∈ lockSites → ∃ n, kl.pc.sema = some (.free n)) := by
  obtain ⟨a, hst, hw, hinv⟩ := h.lockInv
  obtain ⟨hcur, hcr, htask, hvalue, hlock, -⟩ := hst.fields
  have hi := hinv l hl
  have hin : ∀ t ∈ a.created, 0 < (a.task t).depth l → a.phaseOf l t = some ⟨some t, (a.task t).depth l⟩ :=
    fun t ht hd => phase_pos hd (hi.fits t ht).2
  have hpc : kl.pc = a.pc := by rw [Kernel.pc, Kernel.pc, hcur, htask]
  rw [hcr, htask, hvalue, hlock, hpc]
  refine ⟨fun t ht u hu hdt hdu => ?_, fun t ht hd => (LockOk_of_phase hi.ok ht (hin t ht hd)).2.1, ?_, fun op hop e hk => ?_⟩
  · have h1 := (LockOk_of_phase hi.ok ht (hin t ht hdt)).2.1
    have h2 := (LockOk_of_phase hi.ok hu (hin u hu hdu)).2.1
    rw [h1] at h2
    injection h2 with h2
    exact Option.some.inj h2
  · rcases hi.ok with ⟨hv, -⟩ | ⟨hv, -⟩ <;> omega
  · obtain ⟨site, he, hs⟩ := hst.stops hw hop hk
    refine ⟨site, he, fun hm => ?_⟩
    cases hsema : a.pc.sema with
    | none => exact absurd hm (stops_run hs hsema)
    | some s =>
      cases s with
      | free n => exact ⟨n, rfl⟩
      | lock l' =>
        have hI : .lock l' ∈ I := (hw.tasks a.cur hw.curCreated).sema _ hsema
        exact absurd hm (stops_lock hw (hinv l' hI) hsema hs)

/-- The main thread holds the lock twice when another thread comes to wait for it. -/
def contended : List Op :=
  [.call (.threadStart (some 0xc0101000) 5), .call (.lockAcquire 0), .go, .go, .go, .go, .go, .call (.lockAcquire 0), .go,
    .go, .go, .call .threadYield, .go, .call (.lockAcquire 0), .go, .go]

theorem contended_runs : Runs {.lock 0} (LocksFree {.lock 0}) (fun _ _ => True) (after contended) :=
  after_runs (fun _ _ => ⟨rfl, rfl⟩) (by decide +kernel)

example : (after contended).lock 0 = ⟨some 0xc009e000, 2⟩ := by decide +kernel

/-- `runs_exclusion` where one thread is inside and another one waits. -/
theorem contended_exclusion :
    (∀ t ∈ (after contended).created, ∀ u ∈ (after contended).created, 0 < ((after contended).task t).depth 0 →
      0 < ((after contended).task u).depth 0 → t = u) ∧
    (∀ t ∈ (after contended).created, 0 < ((after contended).task t).depth 0 →
      (after contended).lock 0 = ⟨some t, ((after contended).task t).depth 0⟩) ∧
    (after contended).value (.lock 0) ≤ 1 ∧
    ∀ op, Legal {.lock 0} (after contended) op → ∀ e, step (after contended) op = .error e →
      ∃ site, e = .assert site ∧ (site ∈ lockSites → ∃ n, (after contended).pc.sema = some (.free n)) :=
  runs_exclusion contended_runs rfl

end TinyOs.Thread
