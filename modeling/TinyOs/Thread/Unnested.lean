/-
  TinyOs.Thread.Unnested — blocking on un-nested locks leaves a thread to run.

  There is no idle thread, so `schedule` asserts that the ready list is not empty. Under
  the discipline `Unnested` a thread waits for a lock only while it holds no other one,
  and stops in no other way. A thread that blocks finds the unit taken; its owner holds
  no second lock, so it waits for none, and being stopped nowhere it is on the ready
  list. That covers the owner that has not yet set `holder` and the one that has
  already cleared it: ownership is `phase`, not the field.
-/

import TinyOs.Thread.WakeUps

namespace TinyOs.Thread

open TinyOs.Kernel TinyOs.Lib TinyOs.Logic

/-- What a thread may do: take a lock while it holds no other, and stop on locks only. -/
def Unnested (I : Set Sema) (x : Task) : Op → Prop
  | .call (.threadBlock _) => False
  | .call (.semaDown _) => False
  | .call (.lockAcquire l) => ∀ l', .lock l' ∈ I → l' ≠ l → x.depth l' = 0
  | _ => True

/-- What the discipline keeps true of a thread. -/
structure Plain (I : Set Sema) (x : Task) : Prop where
  awake : x.status = .running ∨ x.status = .ready ∨ x.pc.isLoop = true
  down : ∀ s, x.inDown s → ∃ l, s = .lock l ∧ ∀ l', .lock l' ∈ I → l' ≠ l → x.depth l' = 0
  test : ∀ l, x.pc = .acqTest l → ∀ l', .lock l' ∈ I → l' ≠ l → x.depth l' = 0

variable {I : Set Sema} {P : Set Tid} {k k' : Kernel Queues} {op : Op}

/-! ## One step -/

theorem plain_run {x : Task} (hs : x.status = .running ∨ x.status = .ready) (hpc : x.pc = .run) : Plain I x := by
  refine ⟨hs.imp_right .inl, fun s hs => ?_, fun l hl => ?_⟩
  · rcases hs with hs | ⟨o, hs⟩ <;> rw [hpc] at hs <;> cases hs
  · rw [hpc] at hl; cases hl

/-- A statement of a disciplined thread. -/
theorem Plain.stmt {x : Task} {pc : Pc} {depth : LockId → Nat} {lock : LockId → Lock} (h : Plain I (k.task k.cur))
    (hE : Unnested I (k.task k.cur) op) (hst : LockStmt I k op pc depth lock) (hpc : x.pc = pc) (hd : x.depth = depth)
    (hrun : x.status = .running) : Plain I x := by
  refine ⟨.inl hrun, fun s hs => ?_, fun l hl => ?_⟩
  · unfold Task.inDown at hs
    rw [hpc] at hs
    rw [hd]
    cases hst with
    | callDown n => exact hE.elim
    | testOther l h0 =>
      rcases hs with hs | ⟨o, hs⟩ <;> cases hs
      exact ⟨l, rfl, h.test l h0⟩
    | _ => rcases hs with hs | ⟨o, hs⟩ <;> cases hs
  · rw [hpc] at hl
    rw [hd]
    cases hst with
    | callAcquire l' => cases hl; exact hE
    | _ => cases hl

theorem Plain.step (h : ∀ t ∈ k.created, Plain I (k.task t)) (hc : k.cur ∈ k.created) (hE : Unnested I (k.task k.cur) op)
    (f : Frame k op k') (e : Effect I k op k') : ∀ t ∈ k'.created, Plain I (k'.task t) := by
  intro t ht
  by_cases ht' : t ∈ k.created
  · by_cases et : t = k.cur
    · subst et
      have hx := h k.cur hc
      cases e with
      | quiet hpc hd hl hv hq hst =>
        refine ⟨?_, fun s hs => ?_, fun l hl => ?_⟩
        · rcases hst with h1 | h1 | ⟨-, stat, rfl⟩
          · exact .inl h1
          · exact .inr (.inl h1)
          · exact hE.elim
        · rw [hd]
          unfold Task.inDown at hs
          rw [hpc] at hs
          exact hx.down s hs
        · rw [hd]
          rw [hpc] at hl
          exact hx.test l hl
      | stmt hst hpc hd hl hv hq hrun => exact hx.stmt hE hst hpc hd hrun
      | block s old hs hat hv0 hpc hd hl hv hq hst =>
        refine ⟨.inr (.inr (by rw [hpc]; rfl)), fun s' hs' => ?_, fun l hl => ?_⟩
        · unfold Task.inDown at hs'
          rw [hpc] at hs'
          rcases hs' with hs' | ⟨o, hs'⟩ <;> cases hs'
          rw [hd]
          exact hx.down s hat
        · rw [hpc] at hl; cases hl
      | take s hs hat hv1 hpc hd hl hv hq hrun =>
        refine ⟨.inl hrun, fun s' hs' => ?_, fun l hl => ?_⟩
        · unfold Task.inDown at hs'
          rw [hpc] at hs'
          cases s <;> rcases hs' with hs' | ⟨o, hs'⟩ <;> cases hs'
        · rw [hpc] at hl
          cases s <;> cases hl
      | give s hs hpc0 hv0 hpc hd hl hv hq hw hrun =>
        refine ⟨.inl hrun, fun s' hs' => ?_, fun l hl => ?_⟩
        · unfold Task.inDown at hs'
          rw [hpc] at hs'
          rcases hs' with hs' | ⟨o, hs'⟩ <;> cases hs'
        · rw [hpc] at hl; cases hl
    · -- another thread: only its status may have changed
      have hx := h t ht'
      obtain ⟨hpc, hd⟩ := f.others t ht' et
      refine ⟨?_, fun s hs => ?_, fun l hl => ?_⟩
      · rcases hx.awake with h1 | h1 | h1
        · exact (f.awake t ht' et (.inl h1)).imp_right .inl
        · exact (f.awake t ht' et (.inr h1)).imp_right .inl
        · exact .inr (.inr (by rw [hpc]; exact h1))
      · unfold Task.inDown at hs
        rw [hpc] at hs
        rw [hd]
        exact hx.down s hs
      · rw [hpc] at hl
        rw [hd]
        exact hx.test l hl
  · obtain ⟨-, hpc, -, hst⟩ := f.fresh t ht ht'
    exact plain_run (.inr hst) hpc

/-! ## The owner is ready -/

/-- While a thread finds the unit of lock `l` taken, the owner is on the ready list. -/
theorem owner_ready (hw : Wf I P (some k.cur) k) (h : ∀ t ∈ k.created, Plain I (k.task t)) {l : LockId} (hlI : .lock l ∈ I) (hi : k.LockInv l)
    (hat : k.atDown (.lock l)) (hv : k.value (.lock l) = 0) : k.queues .ready ≠ [] := by
  rcases hi.ok with ⟨hv1, -⟩ | ⟨-, o, ho, hp, -⟩
  · rw [hv] at hv1; cases hv1
  have hout : ∀ t ∈ k.created, (k.task t).inDown (.lock l) → k.phaseOf l t = none := fun t ht hin => by
    have hd : (k.task t).depth l = 0 := by
      have := (hi.fits t ht).2
      rcases hin with h | ⟨old, h⟩ <;> rw [h] at this <;> exact this rfl
    unfold Kernel.phaseOf
    rw [hd]
    rcases hin with h | ⟨old, h⟩ <;> rw [h] <;> simp [phase]
  -- the running thread waits for the lock, so it is not the owner
  have hoc : o ≠ k.cur := fun e => by
    rw [e, hout k.cur hw.curCreated hat] at hp; cases hp
  -- nor does the owner wait for another lock
  have hloop : (k.task o).pc.isLoop = false := by
    cases hpc : (k.task o).pc with
    | semaLoop s old =>
      obtain ⟨l', rfl, hd⟩ := (h o ho).down s (.inr ⟨old, hpc⟩)
      by_cases e : l = l'
      · subst e
        rw [hout o ho (.inr ⟨old, hpc⟩)] at hp; cases hp
      · unfold Kernel.phaseOf at hp
        rw [hpc, hd l hlI e] at hp
        simp [phase] at hp
    | _ => rfl
  have hready : (k.task o).status = .ready := by
    rcases (h o ho).awake with h1 | h1 | h1
    · exact absurd (Option.some.inj ((hw.running o ho).mp h1)).symm hoc
    · exact h1
    · rw [hloop] at h1; cases h1
  intro hq
  have := (hw.readyMem o).mpr ⟨ho, hready⟩
  rw [hq] at this; cases this

/-! ## Runs -/

variable {kl : Kernel (Links Node)}

theorem runs_never_idle (h : Runs I (LocksFree I) (Unnested I) kl) (op : Op) (hl : Legal I kl op)
    (hE : Unnested I (kl.task kl.cur) op) : step kl op ≠ .error (.assert .scheduleReady) := by
  obtain ⟨a, hst, hw, hinv, hplain⟩ := h.invariant
    (Q := fun a => (∀ l, .lock l ∈ I → a.LockInv l) ∧ ∀ t ∈ a.created, Plain I (a.task t))
    (fun k0 hF => ⟨fun l hl => booted_lockInv hF hl, fun t ht => by
      rw [List.mem_singleton.mp (show t ∈ [k0.cur] from ht), booted_task]
      exact plain_run (.inl rfl) rfl⟩)
    (fun a a' op hw hQ hl hE hk => by
      obtain ⟨f, e⟩ := step_effect hw hl hk
      exact ⟨fun l hlI => LockInv_step hw f e (hQ.1 l hlI), Plain.step hQ.2 hw.curCreated hE f e⟩)
  obtain ⟨hcur, -, htask, -⟩ := hst.fields
  intro hk
  obtain ⟨site, hsite, hs⟩ := hst.stops hw hl hk
  cases hsite
  cases hs with
  | noReady stat => exact hE.elim
  | noReadyDown s hsI hat hv hq =>
    obtain ⟨l, rfl, -⟩ := (hplain a.cur hw.curCreated).down s hat
    exact owner_ready hw hplain hsI (hinv l hsI) hat hv hq

/-- A thread is about to block on the lock the main thread holds. -/
def meeting : List Op :=
  [.call (.threadStart (some 0xc0101000) 5), .call (.lockAcquire 0), .go, .go, .go, .go, .go, .call .threadYield, .go,
    .call (.lockAcquire 0), .go]

theorem meeting_runs : Runs {.lock 0} (LocksFree {.lock 0}) (Unnested {.lock 0}) (after meeting) := by
  have h0 : Runs {.lock 0} (LocksFree {.lock 0}) (Unnested {.lock 0}) (after []) := after_nil_runs (fun _ _ => ⟨rfl, rfl⟩)
  have hgo : ∀ {k}, Runs {.lock 0} (LocksFree {.lock 0}) (Unnested {.lock 0}) k → Fresh k .go →
      (step k .go).isOk = true → Runs {.lock 0} (LocksFree {.lock 0}) (Unnested {.lock 0}) (next step k .go) :=
    fun h hf hk => Reach.extend h .go ⟨⟨trivial, hf⟩, trivial⟩ hk
  -- there is no other lock
  have hone : ∀ x : Task, Unnested {.lock 0} x (.call (.lockAcquire 0)) := fun x l' hl' hne =>
    absurd (Sema.lock.inj hl') hne
  have h1 := Reach.extend h0 (.call (.threadStart (some 0xc0101000) 5)) ⟨by decide +kernel, trivial⟩ (by decide +kernel)
  have h2 := Reach.extend h1 (.call (.lockAcquire 0)) ⟨by decide +kernel, hone _⟩ (by decide +kernel)
  have h3 := hgo (hgo h2 (by decide +kernel) (by decide +kernel)) (by decide +kernel) (by decide +kernel)
  have h4 := hgo (hgo h3 (by decide +kernel) (by decide +kernel)) (by decide +kernel) (by decide +kernel)
  have h5 := hgo h4 (by decide +kernel) (by decide +kernel)
  have h6 := Reach.extend h5 (.call .threadYield) ⟨by decide +kernel, trivial⟩ (by decide +kernel)
  have h7 := hgo h6 (by decide +kernel) (by decide +kernel)
  have h8 := Reach.extend h7 (.call (.lockAcquire 0)) ⟨by decide +kernel, hone _⟩ (by decide +kernel)
  have h9 := hgo h8 (by decide +kernel) (by decide +kernel)
  simpa only [meeting, after, List.foldl] using h9

/-- `runs_never_idle` at that moment. -/
theorem meeting_never_idle : step (after meeting) .go ≠ .error (.assert .scheduleReady) :=
  runs_never_idle meeting_runs .go (by decide +kernel) trivial

end TinyOs.Thread
