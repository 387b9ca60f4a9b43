/-
  TinyOs.Logic.Interrupts — threads that mask interrupts around critical sections.

  One processor with one interrupt flag, and a stack of frames for each thread. Code is
  a list of instructions a function. A critical section saves the flag (`getStatus`),
  clears it where it was set (`cli`) and in the end restores what it saved
  (`setStatus`); a `switch` goes to another thread and leaves the flag alone. An
  interrupt may come before any instruction while the flag is set: the gate saves the
  flag and clears it, and the return from the handler restores what the gate saved.

  `Balanced` is a check on the code, a function at a time: sections are opened and
  closed in order, no jump crosses an end of one, and calls and switches stand inside.
  What it gives, for any threads, any data and any interleaving:

  - `return_status`: a call returns with the flag as it was at the call.
  - `section_masked`: within a section of the running thread, its own or one of its
    callers', the flag is clear.
  - `assertOff_holds`: no test that the flag is clear fails.
-/

import Mathlib.Logic.Function.Basic
import TinyOs.Logic.Runs

namespace TinyOs.Logic.Interrupts

/-! ## Code -/

/-- Instructions of functions `F` with locals `L` on data `D`, run by threads `T`. -/
inductive Instr (T F D L ε : Type) where
  | stmt (f : T → L → D → Except ε (L × D))
  /-- Goes on at `target` where the condition fails. -/
  | branch (c : T → L → D → Except ε Bool) (target : Nat)
  | jump (target : Nat)
  /-- `old = get_status()` -/
  | getStatus
  /-- `if (old) cli` -/
  | cli
  /-- `set_status(old)` -/
  | setStatus
  | enable
  /-- An assertion that the flag is clear. -/
  | assertOff
  | call (g : T → L → D → Except ε F)
  | switch (next : T → L → D → Except ε T)

/-- How a function is entered. -/
inductive Kind where
  /-- Called with the flag set or clear. -/
  | call
  /-- Called where the flag is clear. -/
  | masked
  /-- The handler, through an interrupt gate. -/
  | gate
  /-- What a new thread runs first, once it is switched to. -/
  | first
  deriving DecidableEq

structure Program (T F D L ε : Type) where
  kind : F → Kind
  code : F → List (Instr T F D L ε)
  handler : F
  start : F
  locals : L

/-- Why a run stops: at `assertOff`, or at a statement's own error. -/
inductive Halt (ε : Type) where
  | assertOff
  | data (e : ε)

structure Frame (F L : Type) where
  fn : F
  pc : Nat
  loc : L
  old : Bool
  /-- The flag at the call. The gate saves it, no other code reads it. -/
  entry : Bool
  deriving DecidableEq

structure State (T F D L : Type) where
  cur : T
  intr : Bool
  data : D
  /-- The innermost frame first; no frame is the thread's own code. -/
  stack : T → List (Frame F L)

variable {T F D L ε : Type}

section

variable [DecidableEq T]

def State.setStack (s : State T F D L) (fs : List (Frame F L)) : State T F D L :=
  { s with stack := Function.update s.stack s.cur fs }

end

def Frame.goto (f : Frame F L) (pc : Nat) : Frame F L := { f with pc := pc }

variable (P : Program T F D L ε)

def Program.frame (fn : F) (entry : Bool) : Frame F L := ⟨fn, 0, P.locals, false, entry⟩

def liftData {α : Type} : Except ε α → Except (Halt ε) α
  | .ok a => .ok a
  | .error e => .error (.data e)

section

variable [DecidableEq T]

/-- The next instruction of `f`, below which the frames `fs` lie. -/
def Program.exec (s : State T F D L) (f : Frame F L) (fs : List (Frame F L)) :
    Option (Instr T F D L ε) → Except (Halt ε) (State T F D L)
  | none => .ok (if P.kind f.fn = .gate then { s.setStack fs with intr := f.entry } else s.setStack fs)
  | some (.stmt g) => do
    let (l, d) ← liftData (g s.cur f.loc s.data)
    .ok { s.setStack ({ f.goto (f.pc + 1) with loc := l } :: fs) with data := d }
  | some (.branch c target) => do
    let b ← liftData (c s.cur f.loc s.data)
    .ok (s.setStack (f.goto (if b then f.pc + 1 else target) :: fs))
  | some (.jump target) => .ok (s.setStack (f.goto target :: fs))
  | some .getStatus => .ok (s.setStack ({ f.goto (f.pc + 1) with old := s.intr } :: fs))
  | some .cli => .ok { s.setStack (f.goto (f.pc + 1) :: fs) with intr := if f.old then false else s.intr }
  | some .setStatus => .ok { s.setStack (f.goto (f.pc + 1) :: fs) with intr := f.old }
  | some .enable => .ok { s.setStack (f.goto (f.pc + 1) :: fs) with intr := true }
  | some .assertOff => if s.intr then .error .assertOff else .ok (s.setStack (f.goto (f.pc + 1) :: fs))
  | some (.call g) => do
    let fn ← liftData (g s.cur f.loc s.data)
    .ok (s.setStack (P.frame fn s.intr :: f.goto (f.pc + 1) :: fs))
  | some (.switch next) => do
    let t ← liftData (next s.cur f.loc s.data)
    .ok { s.setStack (f.goto (f.pc + 1) :: fs) with cur := t }

inductive Event (F D : Type) where
  /-- The next instruction of the running thread. -/
  | go
  | interrupt
  /-- The thread's own code calls a function. -/
  | call (fn : F)
  /-- The thread's own code does anything else: it may set or clear the flag. -/
  | own (intr : Bool) (d : D)

def Program.step (s : State T F D L) : Event F D → Except (Halt ε) (State T F D L)
  | .go =>
    match s.stack s.cur with
    | [] => .ok s
    | f :: fs => P.exec s f fs (P.code f.fn)[f.pc]?
  | .interrupt => .ok { s.setStack (P.frame P.handler s.intr :: s.stack s.cur) with intr := false }
  | .call fn => .ok (s.setStack (P.frame fn s.intr :: s.stack s.cur))
  | .own intr d => .ok { s with intr := intr, data := d }

def Program.Legal (s : State T F D L) : Event F D → Prop
  | .go => True
  | .interrupt => s.intr = true
  | .call fn => s.stack s.cur = [] ∧ P.kind fn = .call
  | .own _ _ => s.stack s.cur = []

/-- One thread runs its own code, all others are new. -/
def Program.First (s : State T F D L) : Prop :=
  s.stack s.cur = [] ∧ ∀ t, t ≠ s.cur → s.stack t = [P.frame P.start false]

def Program.Runs : State T F D L → Prop := Reach P.First P.Legal P.step

end

/-! ## The check -/

/-- What the instructions before a point have done to the flag. -/
inductive Phase where
  /-- As it was at the call. -/
  | plain
  /-- So too, and saved. -/
  | saved
  /-- Clear, and what it was at the call is saved. -/
  | inside
  /-- Clear, also at the call. -/
  | masked
  /-- Set at the end of a thread's first function. -/
  | free
  deriving DecidableEq

def Phase.after : Phase → Instr T F D L ε → Phase
  | _, .getStatus => .saved
  | _, .cli => .inside
  | _, .setStatus => .plain
  | _, .enable => .free
  | ph, _ => ph

def Kind.phase : Kind → Phase
  | .call => .plain
  | _ => .masked

/-- The phase at `pc`, from the code before it. -/
def phaseAt (k : Kind) (code : List (Instr T F D L ε)) (pc : Nat) : Phase := (code.take pc).foldl Phase.after k.phase

def Phase.off (ph : Phase) : Bool := ph = .inside || ph = .masked

/-- An instruction that may stand where the phase is `ph`. -/
def Instr.fits (k : Kind) (phaseOf : Nat → Phase) (ph : Phase) : Instr T F D L ε → Bool
  | .stmt _ => true
  | .branch _ target => phaseOf target = ph
  | .jump target => phaseOf target = ph
  | .getStatus => ph = .plain
  | .cli => ph = .saved
  | .setStatus => ph = .inside
  | .enable => k = .first
  | .assertOff => ph.off
  | .call _ => ph.off
  | .switch _ => ph.off

/-- The phase in which a function may end. -/
def Kind.last : Kind → Phase
  | .call => .plain
  | .masked => .masked
  | .gate => .masked
  | .first => .free

def balanced (k : Kind) (code : List (Instr T F D L ε)) : Bool :=
  (List.range code.length).all (fun pc => (code[pc]?).all (Instr.fits k (phaseAt k code) (phaseAt k code pc))) &&
    phaseAt k code code.length = k.last

/-- A handler is not called, and no thread's first function. -/
def Instr.Calls : Instr T F D L ε → Prop
  | .call g => ∀ t l d fn, g t l d = .ok fn → P.kind fn = .call ∨ P.kind fn = .masked
  | _ => True

structure Program.Balanced : Prop where
  code : ∀ fn, balanced (P.kind fn) (P.code fn) = true
  calls : ∀ fn, ∀ i ∈ P.code fn, i.Calls P
  handler : P.kind P.handler = .gate
  start : P.kind P.start = .first

def Program.phase (f : Frame F L) : Phase := phaseAt (P.kind f.fn) (P.code f.fn) f.pc

/-- The frame is between its `cli` and its `setStatus`. -/
def Program.InSection (f : Frame F L) : Prop := P.phase f = .inside

/-! ## The invariant -/

/-- What the phase of `f` says of the flag `b`. -/
def Phase.Holds (b : Bool) (f : Frame F L) : Phase → Prop
  | .plain => b = f.entry
  | .saved => b = f.entry ∧ f.old = f.entry
  | .inside => b = false ∧ f.old = f.entry
  | .masked => b = false
  | .free => True

/-- What is known of a frame by its kind, the frames `fs` below it. -/
def Kind.Holds (f : Frame F L) (fs : List (Frame F L)) : Kind → Prop
  | .masked => f.entry = false
  | .first => fs = []
  | _ => True

/-- A stack whose thread runs, or would run, with the flag `b`. -/
def Program.Stack : Bool → List (Frame F L) → Prop
  | _, [] => True
  | b, f :: fs => (P.phase f).Holds b f ∧ (P.kind f.fn).Holds f fs ∧ Program.Stack f.entry fs

/-- Every thread that does not run has left through a `switch`, the flag clear. -/
structure Program.Inv (s : State T F D L) : Prop where
  running : P.Stack s.intr (s.stack s.cur)
  suspended : ∀ t, t ≠ s.cur → P.Stack false (s.stack t)

variable {P} {s s' : State T F D L} {f : Frame F L} {fs : List (Frame F L)}

theorem phaseAt_succ {k : Kind} {code : List (Instr T F D L ε)} {pc : Nat} {i : Instr T F D L ε} (h : code[pc]? = some i) :
    phaseAt k code (pc + 1) = (phaseAt k code pc).after i := by
  unfold phaseAt
  rw [List.take_add_one, h, List.foldl_append]
  rfl

theorem balanced_fits {k : Kind} {code : List (Instr T F D L ε)} (hb : balanced k code = true) {pc : Nat}
    {i : Instr T F D L ε} (h : code[pc]? = some i) : i.fits k (phaseAt k code) (phaseAt k code pc) = true := by
  have hall := List.all_eq_true.mp (Bool.and_eq_true_iff.mp hb).1 pc (List.mem_range.mpr (List.getElem?_eq_some_iff.mp h).1)
  rw [h] at hall
  exact hall

theorem balanced_end {k : Kind} {code : List (Instr T F D L ε)} (hb : balanced k code = true) {pc : Nat}
    (h : code[pc]? = none) : phaseAt k code pc = k.last := by
  have hend := of_decide_eq_true (Bool.and_eq_true_iff.mp hb).2
  rw [← hend]
  unfold phaseAt
  rw [List.take_of_length_le (List.getElem?_eq_none_iff.mp h), List.take_length]

/-- Only a thread's first function sets the flag for good. -/
theorem phaseAt_free {k : Kind} {code : List (Instr T F D L ε)} (hb : balanced k code = true) {pc : Nat}
    (h : phaseAt k code pc = .free) : k = .first := by
  induction pc with
  | zero => cases k <;> cases h
  | succ pc ih =>
    cases hn : code[pc]? with
    | none =>
      have hlen := List.getElem?_eq_none_iff.mp hn
      unfold phaseAt at h ih
      rw [List.take_of_length_le (by omega)] at h
      rw [List.take_of_length_le hlen] at ih
      exact ih h
    | some i =>
      have hfit := balanced_fits hb hn
      rw [phaseAt_succ hn] at h
      cases i with
      | enable => exact of_decide_eq_true hfit
      | getStatus => cases h
      | cli => cases h
      | setStatus => cases h
      | stmt g => exact ih h
      | branch c target => exact ih h
      | jump target => exact ih h
      | assertOff => exact ih h
      | call g => exact ih h
      | switch next => exact ih h

/-- Where the phase says so, the flag is clear. -/
theorem Phase.Holds.off {ph : Phase} {b : Bool} (h : ph.Holds b f) (ho : ph.off = true) : b = false := by
  cases ph with
  | inside => exact h.1
  | masked => exact h
  | plain => cases ho
  | saved => cases ho
  | free => cases ho

/-- The top frame goes on, and with it the flag. -/
theorem Program.Stack.top {b : Bool} (h : P.Stack b (f :: fs)) {f' : Frame F L} {b' : Bool} (hf : f'.fn = f.fn)
    (he : f'.entry = f.entry) (hp : (P.phase f').Holds b' f') : P.Stack b' (f' :: fs) := by
  refine ⟨hp, ?_, ?_⟩
  · have := h.2.1
    rw [hf]
    cases hk : P.kind f.fn <;> rw [hk] at this
    · exact trivial
    · exact he.trans this
    · exact trivial
    · exact this
  · rw [he]
    exact h.2.2

/-- An instruction that changes neither the flag nor the phase. -/
theorem Program.Stack.same {b : Bool} (h : P.Stack b (f :: fs)) {f' : Frame F L} (hf : f'.fn = f.fn)
    (he : f'.entry = f.entry) (ho : f'.old = f.old) (hp : P.phase f' = P.phase f) : P.Stack b (f' :: fs) := by
  apply h.top hf he
  have := h.1
  rw [hp]
  cases hk : P.phase f <;> rw [hk] at this
  · exact this.trans he.symm
  · exact ⟨this.1.trans he.symm, ho.trans (this.2.trans he.symm)⟩
  · exact ⟨this.1, ho.trans (this.2.trans he.symm)⟩
  · exact this
  · exact trivial

theorem Program.Stack.frame {b : Bool} (h : P.Stack b fs) {fn : F} (hk : P.kind fn = .call ∨ P.kind fn = .masked ∧ b = false) :
    P.Stack b (P.frame fn b :: fs) := by
  have hph : P.phase (P.frame fn b) = (P.kind fn).phase := rfl
  refine ⟨?_, ?_, h⟩
  · rw [hph]
    rcases hk with e | ⟨e, hb⟩
    · rw [e]; exact rfl
    · rw [e]; exact hb
  · show (P.kind fn).Holds (P.frame fn b) fs
    rcases hk with e | ⟨e, hb⟩
    · rw [e]; exact trivial
    · rw [e]; exact hb

/-! ## One instruction -/

variable [DecidableEq T]

@[simp] theorem setStack_cur (s : State T F D L) (fs : List (Frame F L)) : (s.setStack fs).stack s.cur = fs :=
  Function.update_self ..

theorem setStack_ne (s : State T F D L) (fs : List (Frame F L)) {t : T} (h : t ≠ s.cur) :
    (s.setStack fs).stack t = s.stack t := Function.update_of_ne h ..

/-- The running thread's stack and the flag change. -/
theorem Program.Inv.update (hi : P.Inv s) {fs : List (Frame F L)} {b : Bool} {d : D} (h : P.Stack b fs) :
    P.Inv { s.setStack fs with intr := b, data := d } := by
  refine ⟨?_, fun t ht => ?_⟩
  · show P.Stack b ((s.setStack fs).stack s.cur)
    rw [setStack_cur]
    exact h
  · show P.Stack false ((s.setStack fs).stack t)
    rw [setStack_ne s fs ht]
    exact hi.suspended t ht

/-- Every stack, where the running thread leaves with the flag clear. -/
theorem Program.Inv.stacks (hi : P.Inv s) {fs : List (Frame F L)} (h : P.Stack false fs) (t : T) :
    P.Stack false ((s.setStack fs).stack t) := by
  by_cases e : t = s.cur
  · rw [e, setStack_cur]
    exact h
  · rw [setStack_ne s fs e]
    exact hi.suspended t e

theorem liftData_ok {α : Type} {x : Except ε α} {a : α} (h : liftData x = .ok a) : x = .ok a := by
  cases x with
  | error e => cases h
  | ok a' => cases h; rfl

/-- The end of a call, or of the handler. -/
theorem Program.Inv.ret (hb : P.Balanced) (hi : P.Inv s) (hs : s.stack s.cur = f :: fs)
    (hn : (P.code f.fn)[f.pc]? = none) (he : P.exec s f fs none = .ok s') : P.Inv s' := by
  have hst := hi.running
  rw [hs] at hst
  obtain ⟨hp, hk, hrest⟩ := hst
  have hend : P.phase f = (P.kind f.fn).last := balanced_end (hb.code f.fn) hn
  rw [hend] at hp
  cases he
  cases hkind : P.kind f.fn with
  | call =>
    rw [hkind] at hp
    rw [if_neg (by simp)]
    have hp : s.intr = f.entry := hp
    exact hi.update (hp ▸ hrest)
  | masked =>
    rw [hkind] at hp hk
    rw [if_neg (by simp)]
    have hp : s.intr = false := hp
    have hk : f.entry = false := hk
    rw [hk, ← hp] at hrest
    exact hi.update hrest
  | gate =>
    rw [if_pos rfl]
    exact hi.update hrest
  | first =>
    rw [hkind] at hk
    have hk : fs = [] := hk
    rw [if_neg (by simp), hk]
    exact hi.update trivial

theorem Program.Inv.exec (hb : P.Balanced) (hi : P.Inv s) (hs : s.stack s.cur = f :: fs)
    (he : P.exec s f fs (P.code f.fn)[f.pc]? = .ok s') : P.Inv s' := by
  have hst := hi.running
  rw [hs] at hst
  cases hn : (P.code f.fn)[f.pc]? with
  | none =>
    rw [hn] at he
    exact hi.ret hb hs hn he
  | some i =>
    rw [hn] at he
    have hfit := balanced_fits (hb.code f.fn) hn
    have hnext : P.phase (f.goto (f.pc + 1)) = (P.phase f).after i := phaseAt_succ hn
    have hph : phaseAt (P.kind f.fn) (P.code f.fn) f.pc = P.phase f := rfl
    rw [hph] at hfit
    cases i with
    | stmt g =>
      obtain ⟨⟨l, d⟩, -, he⟩ := bind_ok_iff.mp he
      cases he
      exact hi.update (hst.same rfl rfl rfl hnext)
    | branch c target =>
      obtain ⟨b, -, he⟩ := bind_ok_iff.mp he
      cases he
      have htarget : P.phase (f.goto target) = P.phase f := of_decide_eq_true hfit
      cases b with
      | true => exact hi.update (hst.same rfl rfl rfl hnext)
      | false => exact hi.update (hst.same rfl rfl rfl htarget)
    | jump target =>
      cases he
      exact hi.update (hst.same rfl rfl rfl (of_decide_eq_true hfit))
    | getStatus =>
      cases he
      have hplain : P.phase f = .plain := of_decide_eq_true hfit
      have hp := hst.1
      rw [hplain] at hp
      refine hi.update (hst.top rfl rfl ?_)
      show Phase.Holds _ _ (P.phase (f.goto (f.pc + 1)))
      rw [hnext]
      exact ⟨hp, hp⟩
    | cli =>
      cases he
      have hsaved : P.phase f = .saved := of_decide_eq_true hfit
      have hp := hst.1
      rw [hsaved] at hp
      obtain ⟨h1, h2⟩ := hp
      refine hi.update (hst.top rfl rfl ?_)
      rw [hnext]
      refine ⟨?_, h2⟩
      -- the flag was set and is cleared, or it was clear
      rw [h2, h1]
      cases f.entry <;> rfl
    | setStatus =>
      cases he
      have hin : P.phase f = .inside := of_decide_eq_true hfit
      have hp := hst.1
      rw [hin] at hp
      refine hi.update (hst.top rfl rfl ?_)
      rw [hnext]
      exact hp.2
    | enable =>
      cases he
      refine hi.update (hst.top rfl rfl ?_)
      rw [hnext]
      exact trivial
    | assertOff =>
      have hoff := hst.1.off hfit
      change (if s.intr then _ else _) = _ at he
      rw [hoff] at he
      cases he
      exact hi.update (hst.same rfl rfl rfl hnext)
    | call g =>
      obtain ⟨fn, hg, he⟩ := bind_ok_iff.mp he
      cases he
      have hoff := hst.1.off hfit
      have hcall := hb.calls f.fn _ (List.mem_of_getElem? hn)
      have hcaller : P.Stack s.intr (f.goto (f.pc + 1) :: fs) := hst.same rfl rfl rfl hnext
      refine hi.update (hcaller.frame ?_)
      exact (hcall s.cur f.loc s.data fn (liftData_ok hg)).imp id fun h => ⟨h, hoff⟩
    | switch next =>
      obtain ⟨t, -, he⟩ := bind_ok_iff.mp he
      cases he
      have hoff := hst.1.off hfit
      have hleft : P.Stack s.intr (f.goto (f.pc + 1) :: fs) := hst.same rfl rfl rfl hnext
      rw [hoff] at hleft
      refine ⟨?_, fun u hu => ?_⟩
      · show P.Stack s.intr ((s.setStack _).stack t)
        rw [hoff]
        exact hi.stacks hleft t
      · exact hi.stacks hleft u

/-! ## Runs -/

theorem Program.Inv.step (hb : P.Balanced) (hi : P.Inv s) {ev : Event F D} (hl : P.Legal s ev) (he : P.step s ev = .ok s') :
    P.Inv s' := by
  cases ev with
  | go =>
    unfold Program.step at he
    cases hs : s.stack s.cur with
    | nil =>
      simp only [hs] at he
      cases he
      exact hi
    | cons f fs =>
      simp only [hs] at he
      exact hi.exec hb hs he
  | interrupt =>
    cases he
    refine hi.update ⟨?_, ?_, hi.running⟩
    · show Phase.Holds false _ (P.kind P.handler).phase
      rw [hb.handler]
      rfl
    · show (P.kind P.handler).Holds _ _
      rw [hb.handler]
      trivial
  | call fn =>
    cases he
    exact hi.update (hi.running.frame (.inl hl.2))
  | own intr d =>
    cases he
    have hl : s.stack s.cur = [] := hl
    refine ⟨?_, hi.suspended⟩
    show P.Stack intr (s.stack s.cur)
    rw [hl]
    trivial

omit [DecidableEq T] in
theorem Program.Inv.first (hb : P.Balanced) (h : P.First s) : P.Inv s := by
  refine ⟨?_, fun t ht => ?_⟩
  · rw [h.1]
    trivial
  · rw [h.2 t ht]
    refine ⟨?_, ?_, trivial⟩
    · show Phase.Holds false _ (P.kind P.start).phase
      rw [hb.start]
      rfl
    · show (P.kind P.start).Holds _ _
      rw [hb.start]
      rfl

theorem Program.Runs.inv (hb : P.Balanced) (h : P.Runs s) : P.Inv s :=
  h.invariant (fun _ => Inv.first hb) fun _ _ _ hi hl he => hi.step hb hl he

/-- A call that has come to its end returns, with the flag as it was at the call. -/
theorem Program.Runs.return_status (hb : P.Balanced) (h : P.Runs s) (hs : s.stack s.cur = f :: fs)
    (hk : P.kind f.fn = .call ∨ P.kind f.fn = .masked) (hn : (P.code f.fn)[f.pc]? = none) :
    P.step s .go = .ok (s.setStack fs) ∧ s.intr = f.entry := by
  have hst := (h.inv hb).running
  rw [hs] at hst
  obtain ⟨hp, hkind, -⟩ := hst
  have hend : P.phase f = (P.kind f.fn).last := balanced_end (hb.code f.fn) hn
  rw [hend] at hp
  refine ⟨?_, ?_⟩
  · unfold Program.step
    simp only [hs, hn, Program.exec]
    rw [if_neg]
    rcases hk with e | e <;> rw [e] <;> simp
  · rcases hk with e | e <;> rw [e] at hp hkind
    · exact hp
    · have hp : s.intr = false := hp
      have hkind : f.entry = false := hkind
      rw [hp, hkind]

omit [DecidableEq T] in
/-- Below a frame that is in a section the flag was clear at every call, and it is clear now. -/
theorem Program.Stack.section (hb : P.Balanced) {b : Bool} {gs : List (Frame F L)} (h : P.Stack b gs) {f : Frame F L} (hf : f ∈ gs)
    (hin : P.InSection f) : b = false := by
  induction gs generalizing b with
  | nil => cases hf
  | cons g gs ih =>
    obtain ⟨hp, hk, hrest⟩ := h
    rcases List.mem_cons.mp hf with rfl | hf
    · rw [hin] at hp
      exact hp.1
    · have he := ih hrest hf
      cases hph : P.phase g with
      | plain =>
        rw [hph] at hp
        exact Eq.trans hp he
      | saved =>
        rw [hph] at hp
        exact hp.1.trans he
      | inside =>
        rw [hph] at hp
        exact hp.1
      | masked =>
        rw [hph] at hp
        exact hp
      | free =>
        rw [phaseAt_free (hb.code g.fn) hph] at hk
        have hk : gs = [] := hk
        rw [hk] at hf
        cases hf

theorem Program.Runs.section_masked (hb : P.Balanced) (h : P.Runs s) (hf : f ∈ s.stack s.cur) (hin : P.InSection f) :
    s.intr = false := (h.inv hb).running.section hb hf hin

theorem liftData_bind {α β : Type} {x : Except ε α} {g : α → Except (Halt ε) β} (hg : ∀ a, g a ≠ .error .assertOff) :
    (liftData x >>= g) ≠ .error .assertOff := by
  cases x with
  | error e =>
    intro h
    cases h
  | ok a => exact hg a

theorem Program.Runs.assertOff_holds (hb : P.Balanced) (h : P.Runs s) (ev : Event F D) : P.step s ev ≠ .error .assertOff := by
  cases ev with
  | go =>
    unfold Program.step
    cases hs : s.stack s.cur with
    | nil =>
      intro he
      cases he
    | cons f fs =>
      have hst := (h.inv hb).running
      rw [hs] at hst
      simp only
      cases hn : (P.code f.fn)[f.pc]? with
      | none =>
        intro he
        cases he
      | some i =>
        have hfit := balanced_fits (hb.code f.fn) hn
        cases i with
        | stmt g => exact liftData_bind fun _ he => by cases he
        | branch c target => exact liftData_bind fun _ he => by cases he
        | call g => exact liftData_bind fun _ he => by cases he
        | switch next => exact liftData_bind fun _ he => by cases he
        | assertOff =>
          have hoff : s.intr = false := hst.1.off hfit
          show (if s.intr then _ else _) ≠ _
          rw [hoff]
          intro he
          cases he
        | jump target => exact fun he => by cases he
        | getStatus => exact fun he => by cases he
        | cli => exact fun he => by cases he
        | setStatus => exact fun he => by cases he
        | enable => exact fun he => by cases he
  | interrupt => exact fun he => by cases he
  | call fn => exact fun he => by cases he
  | own intr d => exact fun he => by cases he

end TinyOs.Logic.Interrupts
