/-
  TinyOs.Thread.Guarded — a state that threads share under a struct lock.

  A thread calls `lock_acquire`, runs a program on the shared state, access by access,
  and calls `lock_release`; the timer may come before each statement of the lock code
  and before each access. It may hold the lock already, and around the program its own
  code does what it likes, but for touching the shared state.

  `Runs.serial`: at most one thread is inside a program, and the shared state is what
  whole programs left one after the other, in the order in which they ended.
-/

import TinyOs.Logic.Sections
import TinyOs.Thread.LockInit

namespace TinyOs.Thread

open TinyOs.Kernel TinyOs.Lib TinyOs.Logic

namespace Guarded

/-- Where a thread is: in `lock_acquire`, or in the program with `rest` still to do. -/
inductive Job (σ μ : Type) where
  | entering (m : μ)
  | inside (m : μ) (rest : Code σ Stop)

structure System (σ μ : Type) where
  k : Kernel (Links Node)
  shared : σ
  job : Tid → Option (Job σ μ)
  /-- The programs that have ended. No code reads it. -/
  log : List μ

inductive Act (μ : Type) where
  /-- A step of the kernel, or a call from the thread's own code. -/
  | op (op : Op)
  /-- The thread's own code begins program `m`. -/
  | start (m : μ)
  /-- The next access of the running thread's program, or its end. -/
  | access

variable {σ μ : Type}

namespace System

def goto (s : System σ μ) (k : Kernel (Links Node)) (j : Option (Job σ μ)) : System σ μ :=
  { s with k := k, job := Function.update s.job s.k.cur j }

def step (code : μ → Code σ Stop) (l : LockId) (s : System σ μ) : Act μ → Except Stop (System σ μ)
  | .op op => do
    let k ← TinyOs.Thread.step s.k op
    .ok { s with k := k }
  | .start m => do
    let k ← TinyOs.Thread.step s.k (.call (.lockAcquire l))
    .ok (s.goto k (some (.entering m)))
  | .access =>
    match s.job s.k.cur with
    | none => .ok s
    | some (.entering m) => .ok (s.goto s.k (some (.inside m (code m))))
    | some (.inside m (.act f next)) => do
      let shared ← f s.shared
      .ok { s.goto s.k (some (.inside m (next s.shared))) with shared := shared }
    | some (.inside m .done) => do
      let k ← TinyOs.Thread.step s.k (.call (.lockRelease l))
      .ok { s.goto k none with log := s.log ++ [m] }

/-- The running thread is in its own code, and not in a function of the kernel. -/
def Free (k : Kernel (Links Node)) : Prop := (k.task k.cur).resume = none ∧ (k.task k.cur).pc = .run

/-- In a program a thread makes no call. `legal` is what programs there are. -/
def Legal (I : Set Sema) (l : LockId) (legal : μ → Prop) (s : System σ μ) : Act μ → Prop
  | .op op => TinyOs.Thread.Legal I s.k op ∧ ∀ c, op = .call c → s.job s.k.cur = none
  | .start m => TinyOs.Thread.Legal I s.k (.call (.lockAcquire l)) ∧ s.job s.k.cur = none ∧ legal m
  | .access => Free s.k

instance (I : Set Sema) (l : LockId) (legal : μ → Prop) [DecidablePred (· ∈ I)] [DecidablePred legal] (s : System σ μ)
    (act : Act μ) :
    Decidable (s.Legal I l legal act) :=
  match act with
  | .op (.call c) =>
    decidable_of_iff (TinyOs.Thread.Legal I s.k (.call c) ∧ s.job s.k.cur = none)
      ⟨fun h => ⟨h.1, fun _ _ => h.2⟩, fun h => ⟨h.1, h.2 c rfl⟩⟩
  | .op .timer => decidable_of_iff (TinyOs.Thread.Legal I s.k .timer) ⟨fun h => ⟨h, nofun⟩, And.left⟩
  | .op .go => decidable_of_iff (TinyOs.Thread.Legal I s.k .go) ⟨fun h => ⟨h, nofun⟩, And.left⟩
  | .start m =>
    inferInstanceAs (Decidable (TinyOs.Thread.Legal I s.k (.call (.lockAcquire l)) ∧ s.job s.k.cur = none ∧ legal m))
  | .access => inferInstanceAs (Decidable ((s.k.task s.k.cur).resume = none ∧ (s.k.task s.k.cur).pc = .run))

end System

def First (I : Set Sema) (init : σ) (s : System σ μ) : Prop :=
  Booted I s.k ∧ LocksFree I s.k.value s.k.lock ∧ s.shared = init ∧ s.job = (fun _ => none) ∧ s.log = []

def Runs (I : Set Sema) (l : LockId) (code : μ → Code σ Stop) (legal : μ → Prop) (init : σ) : System σ μ → Prop :=
  Reach (First I init) (System.Legal I l legal) (System.step code l)

/-- The state is the one that whole programs leave one after the other, in the order of
`log`; `inside` names the thread in a program, the program, and the rest of it. -/
structure Serialized (code : μ → Code σ Stop) (init : σ) (s : System σ μ) (inside : Option (Tid × μ × Code σ Stop)) : Prop where
  only : ∀ t m rest, s.job t = some (.inside m rest) ↔ inside = some (t, m, rest)
  serial : Serial code init s.log s.shared (inside.map Prod.snd)

/-! ## The invariant of the threads -/

/-- In `lock_acquire` of lock `l`. -/
def Acquiring (l : LockId) : Pc → Prop
  | .acqTest l' | .acqHolder l' | .acqAssert l' | .acqNr l' | .acqInc l' | .acqIncStore l' _ => l' = l
  | .semaDown s | .semaLoop s _ => s = .lock l
  | _ => False

/-- In its own code, with the lock. -/
def Holding (l : LockId) (pc : Pc) (depth : LockId → Nat) : Prop := pc = .run ∧ 0 < depth l

def Job.Ok (l : LockId) (pc : Pc) (depth : LockId → Nat) : Job σ μ → Prop
  | .entering _ => Acquiring l pc ∨ Holding l pc depth
  | .inside _ _ => Holding l pc depth

variable {I : Set Sema} {l : LockId} {code : μ → Code σ Stop} {legal : μ → Prop} {init : σ} {k k' : Kernel Queues} {op : Op}
  {j : Job σ μ} {s s' : System σ μ}

/-- A statement of `lock_acquire` leads to the next one, and out of it with the lock. -/
theorem stmt_acquiring {pc : Pc} {depth : LockId → Nat} {lock : LockId → Lock} (h : LockStmt I k op pc depth lock)
    (hop : ∀ c, op ≠ .call c) (ha : Acquiring l k.pc) : Acquiring l pc ∨ Holding l pc depth := by
  cases h with
  | callDown n => exact absurd rfl (hop _)
  | callUp n => exact absurd rfl (hop _)
  | callAcquire l' => exact absurd rfl (hop _)
  | callRelease l' => exact absurd rfl (hop _)
  | callUnblock t => exact absurd rfl (hop _)
  | unblock t hpc => rw [hpc] at ha; exact ha.elim
  | testOther l' hpc => rw [hpc] at ha; exact .inl (congrArg Sema.lock ha)
  | testOwn l' hpc => rw [hpc] at ha; exact .inl ha
  | setHolder l' hpc => rw [hpc] at ha; exact .inl ha
  | assertNr l' hpc => rw [hpc] at ha; exact .inl ha
  | loadInc l' hpc => rw [hpc] at ha; exact .inl ha
  | setNr l' hpc =>
    rw [hpc] at ha
    obtain rfl : l' = l := ha
    exact .inr ⟨rfl, by rw [Function.update_self]; omega⟩
  | storeInc l' nr hpc =>
    rw [hpc] at ha
    obtain rfl : l' = l := ha
    exact .inr ⟨rfl, by rw [Function.update_self]; omega⟩
  | assertHolder l' hpc => rw [hpc] at ha; exact ha.elim
  | testNested l' hpc => rw [hpc] at ha; exact ha.elim
  | testLast l' hpc => rw [hpc] at ha; exact ha.elim
  | loadDec l' hpc => rw [hpc] at ha; exact ha.elim
  | storeDec l' nr hpc => rw [hpc] at ha; exact ha.elim
  | assertOne l' hpc => rw [hpc] at ha; exact ha.elim
  | clearHolder l' hpc => rw [hpc] at ha; exact ha.elim
  | zeroNr l' hpc => rw [hpc] at ha; exact ha.elim

/-- A thread's own code does nothing to the locks but by calls. -/
theorem stmt_run {pc : Pc} {depth : LockId → Nat} {lock : LockId → Lock} (h : LockStmt I k op pc depth lock)
    (hop : ∀ c, op ≠ .call c) : k.pc ≠ .run := by
  intro hpc
  cases h with
  | callDown n => exact hop _ rfl
  | callUp n => exact hop _ rfl
  | callAcquire l' => exact hop _ rfl
  | callRelease l' => exact hop _ rfl
  | callUnblock t => exact hop _ rfl
  | _ => simp_all

theorem atDown_acquiring {sm : Sema} (hat : k.atDown sm) : k.pc ≠ .run ∧ (Acquiring l k.pc → sm = .lock l) := by
  rcases hat with hat | ⟨old, hat⟩
  · rw [hat]; exact ⟨Pc.noConfusion, id⟩
  · rw [hat]; exact ⟨Pc.noConfusion, id⟩

/-- A step that is no call leaves the running thread where its program can go on. -/
theorem effect_job (e : Effect I k op k') (hop : ∀ c, op ≠ .call c) (h : j.Ok l k.pc k.depth) :
    j.Ok l (k'.task k.cur).pc (k'.task k.cur).depth := by
  have hrun : Holding l k.pc k.depth → Holding l (k'.task k.cur).pc (k'.task k.cur).depth := by
    intro hold
    cases e with
    | quiet hpc hd => rw [hpc, hd]; exact hold
    | stmt hst => exact absurd hold.1 (stmt_run hst hop)
    | block sm old _ hat => exact absurd hold.1 (atDown_acquiring (l := l) hat).1
    | take sm _ hat => exact absurd hold.1 (atDown_acquiring (l := l) hat).1
    | give sm _ hpc => rw [hold.1] at hpc; cases hpc
  cases j with
  | inside m rest => exact hrun h
  | entering m =>
    rcases h with ha | hold
    · cases e with
      | quiet hpc hd => rw [hpc, hd]; exact .inl ha
      | stmt hst hpc hd => rw [hpc, hd]; exact stmt_acquiring hst hop ha
      | block sm old _ hat _ hpc =>
        have hl := (atDown_acquiring hat).2 ha
        rw [hpc]
        exact .inl hl
      | take sm _ hat _ hpc =>
        have hl := (atDown_acquiring hat).2 ha
        rw [hpc, hl]
        exact .inl rfl
      | give sm _ hpc => rw [hpc] at ha; exact ha.elim
    · exact .inr (hrun hold)

/-- The kernel's own invariants, and every job at a point where it can go on. -/
structure Inv (I : Set Sema) (l : LockId) (s : System σ μ) (a : Kernel Queues) : Prop where
  stand : Stand I s.k a
  wf : Wf I ∅ (some a.cur) a
  locks : ∀ l', .lock l' ∈ I → a.LockInv l'
  jobs : ∀ t j, s.job t = some j → t ∈ a.created ∧ j.Ok l (a.task t).pc (a.task t).depth

variable {a : Kernel Queues}

theorem Inv.cur (h : Inv I l s a) : s.k.cur = a.cur := h.stand.fields.1

/-- A step of the kernel keeps the invariant, if the running thread's job fits where it goes. -/
theorem Inv.kernel (h : Inv I l s a) (hl : TinyOs.Thread.Legal I s.k op) (hk : TinyOs.Thread.step s.k op = .ok s'.k)
    (hother : ∀ t, t ≠ s.k.cur → s'.job t = s.job t)
    (hcur : ∀ a' j, TinyOs.Thread.step a op = .ok a' → Effect I a op a' → s'.job s.k.cur = some j →
      j.Ok l (a'.task a.cur).pc (a'.task a.cur).depth) : ∃ a', Inv I l s' a' := by
  have hla := h.stand.legal hl
  obtain ⟨a', hk', hst⟩ := (h.stand.step h.wf hla).of_ok hk
  obtain ⟨f, e⟩ := step_effect h.wf hla hk'
  refine ⟨a', hst, step_wf h.wf (fun t ht => absurd ht (Set.notMem_empty t)) hla hk',
    fun l' hl' => LockInv_step h.wf f e (h.locks l' hl'), ?_⟩
  intro t j hj
  by_cases ht : t = s.k.cur
  · have hok := hcur a' j hk' e (ht ▸ hj)
    rw [ht, h.cur]
    exact ⟨f.created _ h.wf.curCreated, hok⟩
  · rw [hother t ht] at hj
    obtain ⟨hcr, hok⟩ := h.jobs t j hj
    obtain ⟨hpc, hd⟩ := f.others t hcr (h.cur ▸ ht)
    rw [hpc, hd]
    exact ⟨f.created t hcr, hok⟩

/-- The kernel stays, and the running thread's job fits where it is. -/
theorem Inv.same (h : Inv I l s a) (hk : s'.k = s.k) (hother : ∀ t, t ≠ s.k.cur → s'.job t = s.job t)
    (hcur : ∀ j, s'.job s.k.cur = some j → j.Ok l a.pc a.depth) : Inv I l s' a := by
  refine ⟨by rw [hk]; exact h.stand, h.wf, h.locks, ?_⟩
  intro t j hj
  by_cases ht : t = s.k.cur
  · have hok := hcur j (ht ▸ hj)
    rw [ht, h.cur]
    exact ⟨h.wf.curCreated, hok⟩
  · rw [hother t ht] at hj
    exact h.jobs t j hj

/-- The running thread's own code has the lock in its program. -/
theorem Inv.free (h : Inv I l s a) (hf : System.Free s.k) (hj : s.job s.k.cur = some j) : Holding l a.pc a.depth := by
  have hpc : a.pc = .run := by
    rw [← hf.2, Kernel.pc, h.cur, h.stand.fields.2.2.1]
  have hok := (h.jobs _ j hj).2
  rw [h.cur] at hok
  cases j with
  | inside m rest => exact hok
  | entering m =>
    rcases hok with ha | hold
    · rw [show (a.task a.cur).pc = .run from hpc] at ha; exact ha.elim
    · exact hold

/-- Two threads in their programs are one. -/
theorem Inv.alone (h : Inv I l s a) (hl : .lock l ∈ I) {t u : Tid} {m : μ} {rest : Code σ Stop}
    (ht : s.job t = some (.inside m rest)) (hu : u ∈ a.created) (hd : 0 < (a.task u).depth l) : t = u := by
  obtain ⟨hcr, -, hdt⟩ := h.jobs t _ ht
  have hi := h.locks l hl
  have h1 := (LockOk_of_phase hi.ok hcr (phase_pos hdt (hi.fits t hcr).2)).2.1
  have h2 := (LockOk_of_phase hi.ok hu (phase_pos hd (hi.fits u hu).2)).2.1
  rw [h1] at h2
  exact Option.some.inj (Lock.mk.inj h2).1

/-- The holder may release. -/
theorem Inv.mayRelease (h : Inv I l s a) (hl : .lock l ∈ I) (hf : System.Free s.k) (hj : s.job s.k.cur = some j) :
    TinyOs.Thread.Legal I s.k (.call (.lockRelease l)) := by
  obtain ⟨-, hd⟩ := h.free hf hj
  have hi := h.locks l hl
  have hlock := (LockOk_of_phase hi.ok h.wf.curCreated (phase_pos hd (hi.fits a.cur h.wf.curCreated).2)).2.1
  refine ⟨⟨hf.1, hf.2, hl, ?_⟩, fresh_call _ _⟩
  rw [h.stand.fields.2.2.2.2.1, hlock, h.cur]

/-! ## Steps -/

theorem Inv.first (h : First I init s) : ∃ a, Inv I l s a := by
  obtain ⟨⟨k0, hb, hk0⟩, hF, -, hjob, -⟩ := h
  obtain ⟨k', hk', hst⟩ := threadsInit_stand hb
  rw [hk0] at hk'
  cases hk'
  rw [hst.onto] at hF
  refine ⟨booted k0, hst, booted_wf hb.intrOff, fun l' hl' => booted_lockInv hF hl', ?_⟩
  intro t j hj
  rw [hjob] at hj
  cases hj

/-- What an access can be. -/
theorem access_cases (hk : System.step code l s .access = .ok s') :
    (s.job s.k.cur = none ∧ s' = s) ∨
      (∃ m, s.job s.k.cur = some (.entering m) ∧ s' = s.goto s.k (some (.inside m (code m)))) ∨
      (∃ m f next shared, s.job s.k.cur = some (.inside m (.act f next)) ∧ f s.shared = .ok shared ∧
        s' = { s.goto s.k (some (.inside m (next s.shared))) with shared := shared }) ∨
      ∃ m k', s.job s.k.cur = some (.inside m .done) ∧ TinyOs.Thread.step s.k (.call (.lockRelease l)) = .ok k' ∧
        s' = { s.goto k' none with log := s.log ++ [m] } := by
  simp only [System.step] at hk
  split at hk
  · next hj => cases hk; exact .inl ⟨hj, rfl⟩
  · next m hj => cases hk; exact .inr (.inl ⟨m, hj, rfl⟩)
  · next m f next hj =>
    obtain ⟨shared, hf, hs'⟩ := bind_ok_iff.mp hk
    cases hs'
    exact .inr (.inr (.inl ⟨m, f, next, shared, hj, hf, rfl⟩))
  · next m hj =>
    obtain ⟨k', hk', hs'⟩ := bind_ok_iff.mp hk
    cases hs'
    exact .inr (.inr (.inr ⟨m, k', hj, hk', rfl⟩))

theorem Inv.step {act : Act μ} (h : Inv I l s a) (hlI : .lock l ∈ I) (hl : System.Legal I l legal s act)
    (hk : System.step code l s act = .ok s') : ∃ a, Inv I l s' a := by
  cases act with
  | op op =>
    obtain ⟨k', hk', hs'⟩ := bind_ok_iff.mp hk
    cases hs'
    refine h.kernel hl.1 hk' (fun _ _ => rfl) ?_
    intro a' j _ e hj
    have hop : ∀ c, op ≠ .call c := fun c hc => by rw [hl.2 c hc] at hj; cases hj
    have hok := (h.jobs _ j hj).2
    rw [h.cur] at hok
    exact effect_job e hop hok
  | start m =>
    obtain ⟨k', hk', hs'⟩ := bind_ok_iff.mp hk
    cases hs'
    refine h.kernel hl.1 hk' (fun t ht => Function.update_of_ne ht ..) ?_
    intro a' j ha' _ hj
    cases ha'
    cases (Function.update_self ..).symm.trans hj
    exact .inl (by rw [Kernel.setPc, setTask_same]; rfl)
  | access =>
    rcases access_cases hk with ⟨-, rfl⟩ | ⟨m, hj, rfl⟩ | ⟨m, f, next, shared, hj, -, rfl⟩ | ⟨m, k', hj, hk', rfl⟩
    · exact ⟨a, h⟩
    · refine ⟨a, h.same rfl (fun t ht => Function.update_of_ne ht ..) ?_⟩
      intro j hj'
      cases (Function.update_self ..).symm.trans hj'
      exact h.free hl hj
    · refine ⟨a, h.same rfl (fun t ht => Function.update_of_ne ht ..) ?_⟩
      intro j hj'
      cases (Function.update_self ..).symm.trans hj'
      exact h.free hl hj
    · refine h.kernel (h.mayRelease hlI hl hj) hk' (fun t ht => Function.update_of_ne ht ..) ?_
      intro a' j _ _ hj'
      cases (Function.update_self ..).symm.trans hj'

/-- A thread's place as `Serialized` has it. -/
def placeOf (t : Tid) : Option (Job σ μ) → Option (Tid × μ × Code σ Stop)
  | some (.inside m rest) => some (t, m, rest)
  | _ => none

theorem placeOf_update {job : Tid → Option (Job σ μ)} {c : Tid} (h : ∀ t, t ≠ c → placeOf t (job t) = none)
    (o : Option (Job σ μ)) (t : Tid) (m : μ) (rest : Code σ Stop) :
    Function.update job c o t = some (.inside m rest) ↔ placeOf c o = some (t, m, rest) := by
  by_cases ht : t = c
  · subst ht
    rw [Function.update_self]
    cases o with
    | none => exact ⟨nofun, nofun⟩
    | some j =>
      cases j with
      | entering m' => exact ⟨nofun, nofun⟩
      | inside m' rest' =>
        constructor
        · intro e; cases e; rfl
        · intro e; cases e; rfl
  · rw [Function.update_of_ne ht]
    constructor
    · intro hj
      have hn := h t ht
      rw [hj] at hn
      cases hn
    · intro hp
      unfold placeOf at hp
      split at hp
      · exact absurd (Prod.mk.inj (Option.some.inj hp)).1.symm ht
      · cases hp

variable {inside : Option (Tid × μ × Code σ Stop)}

/-- Where the running thread's own code has the lock, no other one is in a program. -/
theorem Inv.others (h : Inv I l s a) (hlI : .lock l ∈ I) (hf : System.Free s.k) (hj : s.job s.k.cur = some j) (t : Tid)
    (ht : t ≠ s.k.cur) : placeOf t (s.job t) = none := by
  unfold placeOf
  split
  · next m rest hjt =>
    have hd := (h.free hf hj).2
    exact absurd ((h.alone hlI hjt h.wf.curCreated hd).trans h.cur.symm) ht
  · rfl

theorem Serialized.step {act : Act μ} (h : Serialized code init s inside) (hi : Inv I l s a) (hlI : .lock l ∈ I)
    (hl : System.Legal I l legal s act) (hk : System.step code l s act = .ok s') :
    ∃ inside, Serialized code init s' inside := by
  cases act with
  | op op =>
    obtain ⟨k', -, hs'⟩ := bind_ok_iff.mp hk
    cases hs'
    exact ⟨inside, h.only, h.serial⟩
  | start m =>
    obtain ⟨k', -, hs'⟩ := bind_ok_iff.mp hk
    cases hs'
    refine ⟨inside, ?_, h.serial⟩
    intro t m' rest
    show Function.update s.job s.k.cur _ t = _ ↔ _
    by_cases ht : t = s.k.cur
    · subst ht
      rw [Function.update_self, ← h.only, hl.2.1]
      exact ⟨nofun, nofun⟩
    · rw [Function.update_of_ne ht]
      exact h.only t m' rest
  | access =>
    rcases access_cases hk with ⟨-, rfl⟩ | ⟨m, hj, rfl⟩ | ⟨m, f, next, shared, hj, hf, rfl⟩ | ⟨m, k', hj, -, rfl⟩
    · exact ⟨inside, h⟩
    · -- nobody else has the lock, so nobody is in a program
      have hout := hi.others hlI hl hj
      have hnone : inside = none := by
        rcases inside with _ | ⟨t, m', rest⟩
        · rfl
        · have hjt := (h.only t m' rest).mpr rfl
          by_cases ht : t = s.k.cur
          · rw [ht, hj] at hjt; cases hjt
          · have hn := hout t ht
            rw [hjt] at hn; cases hn
      have hs := h.serial
      rw [hnone] at hs
      exact ⟨_, placeOf_update hout _, hs.enter m⟩
    · have hs := h.serial
      rw [(h.only _ _ _).mp hj] at hs
      exact ⟨_, placeOf_update (hi.others hlI hl hj) _, hs.act hf⟩
    · have hs := h.serial
      rw [(h.only _ _ _).mp hj] at hs
      exact ⟨_, placeOf_update (hi.others hlI hl hj) _, hs.leave⟩

/-! ## Runs -/

theorem Runs.inv (h : Runs I l code legal init s) (hlI : .lock l ∈ I) :
    (∃ a, Inv I l s a) ∧ ∃ inside, Serialized code init s inside := by
  refine h.invariant (P := fun s => (∃ a, Inv I l s a) ∧ ∃ inside, Serialized code init s inside) ?_ ?_
  · intro s0 h0
    refine ⟨Inv.first h0, none, ?_, ?_⟩
    · intro t m rest
      rw [h0.2.2.2.1]
      exact ⟨nofun, nofun⟩
    · rw [h0.2.2.1, h0.2.2.2.2]
      exact Serial.first code init
  · intro s1 s2 act hP hl hk
    obtain ⟨⟨a, hi⟩, inside, hs⟩ := hP
    exact ⟨hi.step hlI hl hk, hs.step hi hlI hl hk⟩

/-- The program a job is about. -/
def Job.program : Job σ μ → μ
  | .entering m | .inside m _ => m

/-- All programs begun, and all ended, are ones there are. -/
theorem Runs.programs (h : Runs I l code legal init s) :
    (∀ m ∈ s.log, legal m) ∧ ∀ t j, s.job t = some j → legal j.program := by
  refine h.invariant (P := fun s => (∀ m ∈ s.log, legal m) ∧ ∀ t j, s.job t = some j → legal j.program) ?_ ?_
  · intro s0 h0
    refine ⟨?_, ?_⟩
    · rw [h0.2.2.2.2]
      exact fun m hm => absurd hm List.not_mem_nil
    · intro t j hj
      rw [h0.2.2.2.1] at hj
      cases hj
  · intro s1 s2 act hP hl hk
    obtain ⟨hlog, hjob⟩ := hP
    have hset : ∀ (o : Option (Job σ μ)), (∀ j, o = some j → legal j.program) →
        ∀ t j, Function.update s1.job s1.k.cur o t = some j → legal j.program := by
      intro o ho t j hj
      by_cases ht : t = s1.k.cur
      · rw [ht, Function.update_self] at hj; exact ho j hj
      · rw [Function.update_of_ne ht] at hj; exact hjob t j hj
    cases act with
    | op op =>
      obtain ⟨k', -, hs'⟩ := bind_ok_iff.mp hk
      cases hs'
      exact ⟨hlog, hjob⟩
    | start m =>
      obtain ⟨k', -, hs'⟩ := bind_ok_iff.mp hk
      cases hs'
      exact ⟨hlog, hset _ fun j hj => by cases hj; exact hl.2.2⟩
    | access =>
      rcases access_cases hk with ⟨-, rfl⟩ | ⟨m, hj, rfl⟩ | ⟨m, f, next, shared, hj, -, rfl⟩ | ⟨m, k', hj, -, rfl⟩
      · exact ⟨hlog, hjob⟩
      · have hm : legal m := hjob _ _ hj
        exact ⟨hlog, hset _ fun j' hj' => by cases hj'; exact hm⟩
      · have hm : legal m := hjob _ _ hj
        exact ⟨hlog, hset _ fun j' hj' => by cases hj'; exact hm⟩
      · refine ⟨?_, hset _ fun j' hj' => by cases hj'⟩
        intro m' hm'
        rcases List.mem_append.mp hm' with hm' | hm'
        · exact hlog m' hm'
        · rw [List.mem_singleton.mp hm']
          exact hjob _ _ hj

/-- What the shared state is at any moment, from what each program does alone: `Q` of all
programs ended, and of the one begun if its rest were run now, which is refused no access. -/
theorem Runs.shared {Q : List μ → σ → Prop} (h : Runs I l code legal init s) (hlI : .lock l ∈ I) (h0 : Q [] init)
    (hstep : ∀ log m s, legal m → Q log s → ∃ s', (code m).run s = .ok s' ∧ Q (log ++ [m]) s') :
    ((∀ t m rest, s.job t ≠ some (.inside m rest)) → Q s.log s.shared) ∧
      ∀ t m rest, s.job t = some (.inside m rest) → (∀ u m' rest', s.job u = some (.inside m' rest') → u = t) ∧
        ∃ s', rest.run s.shared = .ok s' ∧ Q (s.log ++ [m]) s' := by
  obtain ⟨-, inside, hs⟩ := h.inv hlI
  obtain ⟨hlog, hjob⟩ := h.programs
  refine ⟨?_, ?_⟩
  · intro hno
    have hnone : inside = none := by
      rcases inside with _ | ⟨t, m, rest⟩
      · rfl
      · exact absurd ((hs.only t m rest).mpr rfl) (hno t m rest)
    have hser := hs.serial
    rw [hnone] at hser
    obtain ⟨s', he, hq⟩ := runAll_ok h0 hstep hlog
    have hshared : s' = s.shared := Except.ok.inj (he.symm.trans hser)
    rwa [hshared] at hq
  · intro t m rest hj
    have hin := (hs.only t m rest).mp hj
    refine ⟨?_, ?_⟩
    · intro u m' rest' hu
      have hu := (hs.only u m' rest').mp hu
      rw [hin] at hu
      exact (Prod.mk.inj (Option.some.inj hu)).1.symm
    · have hser := hs.serial
      rw [hin] at hser
      have hall : ∀ m' ∈ s.log ++ [m], legal m' := by
        intro m' hm'
        rcases List.mem_append.mp hm' with hm' | hm'
        · exact hlog m' hm'
        · rw [List.mem_singleton.mp hm']
          exact hjob t _ hj
      obtain ⟨s', he, hq⟩ := runAll_ok h0 hstep hall
      exact ⟨s', Eq.trans hser he, hq⟩

end Guarded

end TinyOs.Thread
