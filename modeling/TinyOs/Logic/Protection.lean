/-
  TinyOs.Logic.Protection — the processor's privilege checks on selectors and gates.

  Of a descriptor only the access byte is read: P, DPL, S and the type. A table gives the
  access byte of every entry within its limit. No LDT is loaded, so a selector of one
  faults. An `Outcome` is a fault, the level that the program goes on at, or a way out of
  this model (a call gate or a task).

  - `Domain.step_level`: every `Transfer` but an interrupt leaves a program at level 3 at
    level 3, if it does not fault or find a gate.
  - `Domain.Sealed.run`: without gates, and with one vector to raise, a program at level 3
    stays there until it raises that vector.
-/

import TinyOs.Logic.X86

namespace TinyOs.Logic.X86

/-! ## Access bytes and selectors -/

namespace Access

def present (a : BitVec 8) : Bool := a.getLsbD 7

def dpl (a : BitVec 8) : Nat := (a >>> 5 &&& 3).toNat

/-- A code or data segment, not a system descriptor. -/
def segment (a : BitVec 8) : Bool := a.getLsbD 4

def code (a : BitVec 8) : Bool := a.getLsbD 3

def conforming (a : BitVec 8) : Bool := a.getLsbD 2

/-- Writable data, or readable code. -/
def access (a : BitVec 8) : Bool := a.getLsbD 1

/-- The type of a system descriptor. -/
def kind (a : BitVec 8) : Nat := (a &&& 0xf).toNat

end Access

open Access

/-- Bits 1..0. -/
def rpl (sel : BitVec 16) : Nat := sel.toNat % 4

def null (sel : BitVec 16) : Bool := sel.toNat < 4

abbrev Table := Nat → Option (BitVec 8)

/-- Bits 15..3 are the index; bit 2 selects the LDT. -/
def Table.select (t : Table) (sel : BitVec 16) : Option (BitVec 8) :=
  if sel.toNat / 4 % 2 = 1 then none else t (sel.toNat / 8)

/-! ## The checks -/

/-- Into ds, es, fs or gs. -/
def Table.loadsData (t : Table) (cpl : Nat) (sel : BitVec 16) : Bool :=
  null sel || (t.select sel).any fun a =>
    segment a && (!code a || access a) && (code a && conforming a || decide (max cpl (rpl sel) ≤ dpl a)) && present a

/-- Into ss. -/
def Table.loadsStack (t : Table) (cpl : Nat) (sel : BitVec 16) : Bool :=
  !null sel && (t.select sel).any fun a =>
    segment a && !code a && access a && decide (rpl sel = cpl ∧ dpl a = cpl) && present a

inductive Outcome where
  | fault
  | level (cpl : Nat)
  /-- A call gate or a task. -/
  | gate
  deriving DecidableEq, Repr

/-- A code segment runs at `cpl`, for a selector with RPL `rpl`. -/
def mayJump (a : BitVec 8) (cpl rpl : Nat) : Bool := if conforming a then dpl a ≤ cpl else decide (rpl ≤ cpl ∧ dpl a = cpl)

/-- The same for a return to level `rpl`. -/
def mayReturn (a : BitVec 8) (rpl : Nat) : Bool := if conforming a then dpl a ≤ rpl else decide (dpl a = rpl)

/-- A far jump or call. -/
def Table.jump (t : Table) (cpl : Nat) (sel : BitVec 16) : Outcome :=
  if null sel then .fault
  else
    match t.select sel with
    | none => .fault
    | some a =>
      if segment a then
        if code a && present a && mayJump a cpl (rpl sel) then .level cpl else .fault
      -- call gates, available tasks and task gates
      else if kind a ∈ [1, 4, 5, 9, 12] ∧ max cpl (rpl sel) ≤ dpl a ∧ present a then .gate
      else .fault

/-- `retf` and `iretd`; to an outer level the stack is loaded too. -/
def Table.ret (t : Table) (cpl : Nat) (cs ss : BitVec 16) : Outcome :=
  if !null cs && decide (cpl ≤ rpl cs) &&
      ((t.select cs).any fun a => segment a && code a && present a && mayReturn a (rpl cs)) &&
      (rpl cs = cpl || t.loadsStack (rpl cs) ss) then .level (rpl cs)
  else .fault

/-- `iretd` with NT set, to the task that the TSS links back to. -/
def Table.taskReturn (t : Table) (backlink : BitVec 16) : Outcome :=
  if !null backlink && (t.select backlink).any fun a => !segment a && decide (kind a ∈ [3, 11]) && present a then .gate
  else .fault

structure GateAccess where
  selector : BitVec 16
  attr : BitVec 8

/-- The tables, and what is read of the TSS. -/
structure Domain where
  gdt : Table
  idt : Nat → Option GateAccess
  ss : Nat → BitVec 16
  backlink : BitVec 16

/-- `int n`; to an inner level the stack of the TSS is loaded. -/
def Domain.interrupt (d : Domain) (cpl n : Nat) : Outcome :=
  match d.idt n with
  | none => .fault
  | some g =>
    if segment g.attr || !present g.attr || decide (dpl g.attr < cpl) then .fault
    else if kind g.attr = 5 then .gate
    else if kind g.attr ∉ [6, 7, 14, 15] ∨ null g.selector then .fault
    else
      match d.gdt.select g.selector with
      | none => .fault
      | some a =>
        if segment a && code a && present a && decide (dpl a ≤ cpl) then
          let inner := if conforming a then cpl else dpl a
          if inner = cpl ∨ d.gdt.loadsStack inner (d.ss inner) then .level inner else .fault
        else .fault

/-! ## Programs -/

/-- The instructions that may change the level, and those that load a segment register. -/
inductive Transfer where
  | loadData (sel : BitVec 16)
  | loadStack (sel : BitVec 16)
  | jump (sel : BitVec 16)
  | ret (cs ss : BitVec 16)
  | taskReturn
  | interrupt (n : BitVec 8)

def Domain.step (d : Domain) (cpl : Nat) : Transfer → Outcome
  | .loadData sel => if d.gdt.loadsData cpl sel then .level cpl else .fault
  | .loadStack sel => if d.gdt.loadsStack cpl sel then .level cpl else .fault
  | .jump sel => d.gdt.jump cpl sel
  | .ret cs ss => d.gdt.ret cpl cs ss
  | .taskReturn => d.gdt.taskReturn d.backlink
  | .interrupt n => d.interrupt cpl n.toNat

/-- A program until its first fault, gate, or change of level: what it still had to do, and what came of it. -/
def Domain.run (d : Domain) (cpl : Nat) : List Transfer → Option (Transfer × Outcome)
  | [] => none
  | op :: ops => if d.step cpl op = .level cpl then d.run cpl ops else some (op, d.step cpl op)

variable {t : Table} {d : Domain} {cpl l : Nat} {sel cs ss : BitVec 16}

theorem rpl_le (sel : BitVec 16) : rpl sel ≤ 3 := by unfold rpl; omega

theorem Table.jump_level (h : t.jump cpl sel = .level l) : l = cpl := by
  unfold Table.jump at h
  split at h
  · cases h
  · split at h
    · cases h
    · split at h
      · split at h
        · cases h; rfl
        · cases h
      · split at h
        · cases h
        · cases h

theorem Table.ret_level (h : t.ret cpl cs ss = .level l) : cpl ≤ l ∧ l = rpl cs := by
  unfold Table.ret at h
  split at h
  · next hc =>
    simp only [Bool.and_eq_true, decide_eq_true_eq] at hc
    cases h
    exact ⟨hc.1.1.2, rfl⟩
  · cases h

/-- The outermost level returns to itself, and loads no stack. -/
theorem Table.ret_outermost (t : Table) (cs ss ss' : BitVec 16) : t.ret 3 cs ss = t.ret 3 cs ss' := by
  unfold Table.ret
  by_cases hr : rpl cs = 3
  · simp only [hr, decide_true, Bool.true_or]
  · have hle := rpl_le cs
    have hlt : decide (3 ≤ rpl cs) = false := decide_eq_false (by omega)
    simp only [hlt, Bool.and_false, Bool.false_and]

/-- No transfer but an interrupt leads out of level 3. -/
theorem Domain.step_level {op : Transfer} (h : d.step 3 op = .level l) (hop : ∀ n, op ≠ .interrupt n) : l = 3 := by
  cases op with
  | loadData sel =>
    simp only [Domain.step] at h
    split at h
    · cases h; rfl
    · cases h
  | loadStack sel =>
    simp only [Domain.step] at h
    split at h
    · cases h; rfl
    · cases h
  | jump sel => exact Table.jump_level h
  | ret cs ss =>
    obtain ⟨hge, rfl⟩ := Table.ret_level h
    have hle := rpl_le cs
    omega
  | taskReturn =>
    simp only [Domain.step, Table.taskReturn] at h
    split at h
    · cases h
    · cases h
  | interrupt n => exact absurd rfl (hop n)

/-- A vector beyond the table, or whose gate is for inner levels only. -/
theorem Domain.interrupt_denied {n : Nat} (h : ∀ g, d.idt n = some g → dpl g.attr < cpl) : d.interrupt cpl n = .fault := by
  unfold Domain.interrupt
  split
  · rfl
  · next g hg => rw [if_pos (by simp [h g hg])]

/-- Through an interrupt gate to the level of the handler's segment. -/
theorem Domain.interrupt_inner {n : Nat} {g : GateAccess} {a : BitVec 8} (h : d.idt n = some g)
    (hgate : segment g.attr = false ∧ present g.attr = true ∧ cpl ≤ dpl g.attr ∧ kind g.attr = 14)
    (hsel : null g.selector = false ∧ d.gdt.select g.selector = some a)
    (ha : (segment a && code a && present a) = true ∧ conforming a = false ∧ dpl a ≤ cpl)
    (hstack : d.gdt.loadsStack (dpl a) (d.ss (dpl a)) = true) : d.interrupt cpl n = .level (dpl a) := by
  obtain ⟨h1, h2, h3, h4⟩ := hgate
  have hdpl : decide (dpl g.attr < cpl) = false := decide_eq_false (by omega)
  unfold Domain.interrupt
  simp [h, h1, h2, hdpl, h4, hsel.1, hsel.2, ha.1, ha.2.1, ha.2.2, hstack]

/-- Level 3 has no gate, and `entry` is the one vector that it may raise. -/
structure Domain.Sealed (d : Domain) (entry : BitVec 8) : Prop where
  jump : ∀ sel, d.gdt.jump 3 sel ≠ .gate
  taskReturn : d.gdt.taskReturn d.backlink = .fault
  interrupt : ∀ n : BitVec 8, n ≠ entry → d.interrupt 3 n.toNat = .fault

theorem Domain.Sealed.step {entry : BitVec 8} (h : d.Sealed entry) (op : Transfer) :
    d.step 3 op = .fault ∨ d.step 3 op = .level 3 ∨ op = .interrupt entry := by
  by_cases hop : ∃ n, op = .interrupt n
  · obtain ⟨n, rfl⟩ := hop
    by_cases hn : n = entry
    · exact .inr (.inr (hn ▸ rfl))
    · exact .inl (h.interrupt n hn)
  · cases he : d.step 3 op with
    | fault => exact .inl rfl
    | level l => rw [step_level he fun n hn => hop ⟨n, hn⟩]; exact .inr (.inl rfl)
    | gate =>
      exfalso
      cases op with
      | loadData sel =>
        simp only [Domain.step] at he
        split at he
        · cases he
        · cases he
      | loadStack sel =>
        simp only [Domain.step] at he
        split at he
        · cases he
        · cases he
      | jump sel => exact h.jump sel he
      | ret cs ss =>
        simp only [Domain.step, Table.ret] at he
        split at he
        · cases he
        · cases he
      | taskReturn => exact Outcome.noConfusion (h.taskReturn.symm.trans he)
      | interrupt n => exact hop ⟨n, rfl⟩

/-- What ends a program at level 3 is a fault or the entry's vector. -/
theorem Domain.Sealed.run {entry : BitVec 8} (h : d.Sealed entry) {ops : List Transfer} {op : Transfer} {o : Outcome}
    (he : d.run 3 ops = some (op, o)) : o = .fault ∨ op = .interrupt entry := by
  induction ops with
  | nil => cases he
  | cons op' ops ih =>
    rw [Domain.run] at he
    split at he
    · exact ih he
    · next hne =>
      cases he
      rcases h.step op with hf | hl | hi
      · exact .inl hf
      · exact absurd hl hne
      · exact .inr hi

/-! ## Short tables -/

/-- A selector selects one of the `n` entries, or nothing. -/
theorem Table.select_cases {n : Nat} (h : ∀ i, n ≤ i → t i = none) (sel : BitVec 16) :
    (∃ i < n, ∃ r < 4, sel = BitVec.ofNat 16 (8 * i + r)) ∨
      t.select sel = none ∧ (8 * n ≤ sel.toNat ∨ sel.toNat / 4 % 2 = 1) := by
  have hlt : sel.toNat < 2 ^ 16 := sel.isLt
  by_cases hin : sel.toNat / 4 % 2 = 0 ∧ sel.toNat / 8 < n
  · refine .inl ⟨sel.toNat / 8, hin.2, sel.toNat % 4, Nat.mod_lt _ (by omega), ?_⟩
    apply BitVec.eq_of_toNat_eq
    rw [BitVec.toNat_ofNat]
    omega
  · refine .inr ⟨?_, by omega⟩
    unfold Table.select
    split
    · rfl
    · exact h _ (by omega)

/-- What selects nothing is refused. -/
theorem Table.refused (cpl : Nat) (ss : BitVec 16) (h : t.select sel = none) (hnull : null sel = false) :
    t.loadsData cpl sel = false ∧ t.loadsStack cpl sel = false ∧ t.jump cpl sel = .fault ∧ t.ret cpl sel ss = .fault := by
  unfold Table.loadsData Table.loadsStack Table.jump Table.ret
  rw [h, hnull]
  simp

end TinyOs.Logic.X86
