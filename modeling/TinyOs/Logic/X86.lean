/-
  TinyOs.Logic.X86 — a part of the 32-bit x86 machine, and its stack.

  Registers and addresses are 32-bit words, and memory is a byte at every address;
  address arithmetic wraps. Code is a list of instructions that is run from its start;
  `eip` changes where control leaves the list.

  cs and ss are flat. Which selectors name flat data segments is a parameter: `execute`
  faults where an instruction goes through ds and ds holds none of them, a null selector
  for one. `run` is the same code while nothing faults. A segment register is loaded with
  what it has held before, so a load does not fault and `iretd` clears none.

  `Stack s ws`: from esp upward the words `ws`. A push puts a word in front, a pop
  takes it off, and both leave the other words alone as long as the stack does not
  reach round the whole address space.
-/

import Mathlib.Algebra.Group.Nat.Defs
import Mathlib.Logic.Function.Basic

namespace TinyOs.Logic.X86

abbrev Word := BitVec 32

abbrev Ram := Word → BitVec 8

namespace Ram

open BitVec (extractLsb'_append_extractLsb'_eq_extractLsb' extractLsb'_eq_self)

def read32 (m : Ram) (a : Word) : Word := m (a + 3) ++ m (a + 2) ++ m (a + 1) ++ m a

def write32 (m : Ram) (a v : Word) : Ram :=
  fun x => if (x - a).toNat < 4 then v.extractLsb' (8 * (x - a).toNat) 8 else m x

def read16 (m : Ram) (a : Word) : BitVec 16 := m (a + 1) ++ m a

def write16 (m : Ram) (a : Word) (v : BitVec 16) : Ram :=
  fun x => if (x - a).toNat < 2 then v.extractLsb' (8 * (x - a).toNat) 8 else m x

def write8 (m : Ram) (a : Word) (v : BitVec 8) : Ram := Function.update m a v

variable {m m' : Ram} {a b v : Word}

theorem read32_eq (h : ∀ i : Word, i.toNat < 4 → m' (a + i) = m (b + i)) : m'.read32 a = m.read32 b := by
  have h0 : m' a = m b := by simpa using h 0 (by decide)
  unfold read32
  rw [h0, h 1 (by decide), h 2 (by decide), h 3 (by decide)]

theorem read32_congr (h : ∀ x : Word, (x - a).toNat < 4 → m' x = m x) : m'.read32 a = m.read32 a := by
  apply read32_eq
  intro i hi
  apply h (a + i)
  rw [BitVec.add_comm, BitVec.add_sub_cancel]
  exact hi

theorem write32_far {x : Word} (h : 4 ≤ (x - a).toNat) : m.write32 a v x = m x := if_neg (by omega)

theorem write32_at (i : Word) (hi : i.toNat < 4) : m.write32 a v (a + i) = v.extractLsb' (8 * i.toNat) 8 := by
  have he : a + i - a = i := by rw [BitVec.add_comm, BitVec.add_sub_cancel]
  unfold write32
  rw [he, if_pos hi]

theorem read32_write32 (m : Ram) (a v : Word) : (m.write32 a v).read32 a = v := by
  have h0 : m.write32 a v a = v.extractLsb' 0 8 := by simpa using write32_at (m := m) (a := a) (v := v) 0 (by decide)
  unfold read32
  rw [h0, write32_at 1 (by decide), write32_at 2 (by decide), write32_at 3 (by decide)]
  have h32 : v.extractLsb' 24 8 ++ v.extractLsb' 16 8 = v.extractLsb' 16 16 := extractLsb'_append_extractLsb'_eq_extractLsb' rfl
  have h21 : v.extractLsb' 16 16 ++ v.extractLsb' 8 8 = v.extractLsb' 8 24 := extractLsb'_append_extractLsb'_eq_extractLsb' rfl
  have h10 : v.extractLsb' 8 24 ++ v.extractLsb' 0 8 = v.extractLsb' 0 32 := extractLsb'_append_extractLsb'_eq_extractLsb' rfl
  calc v.extractLsb' 24 8 ++ v.extractLsb' 16 8 ++ v.extractLsb' 8 8 ++ v.extractLsb' 0 8
      = v.extractLsb' 16 16 ++ v.extractLsb' 8 8 ++ v.extractLsb' 0 8 := by rw [h32]
    _ = v.extractLsb' 8 24 ++ v.extractLsb' 0 8 := by rw [h21]
    _ = v.extractLsb' 0 32 := h10
    _ = v := extractLsb'_eq_self

theorem read32_write32_ne (h1 : 4 ≤ (a - b).toNat) (h2 : 4 ≤ (b - a).toNat) : (m.write32 b v).read32 a = m.read32 a := by
  apply read32_congr
  intro x hx
  exact write32_far (by bv_omega)

theorem write8_far {x : Word} {v : BitVec 8} (h : x ≠ a) : m.write8 a v x = m x := Function.update_of_ne h ..

theorem write8_at (m : Ram) (a : Word) (v : BitVec 8) : m.write8 a v a = v := Function.update_self ..

theorem read32_write8 {v : BitVec 8} (h : 4 ≤ (b - a).toNat) : (m.write8 b v).read32 a = m.read32 a := by
  apply read32_congr
  intro x hx
  apply write8_far
  intro hxb
  rw [hxb] at hx
  omega

theorem read16_congr (h : ∀ x : Word, (x - a).toNat < 2 → m' x = m x) : m'.read16 a = m.read16 a := by
  unfold read16
  rw [h a (by simp), h (a + 1) (by bv_omega)]

theorem write16_far {x : Word} {v : BitVec 16} (h : 2 ≤ (x - a).toNat) : m.write16 a v x = m x := if_neg (by omega)

theorem read16_write16 (m : Ram) (a : Word) (v : BitVec 16) : (m.write16 a v).read16 a = v := by
  have h0 : m.write16 a v a = v.extractLsb' 0 8 := by simp [write16]
  have h1 : m.write16 a v (a + 1) = v.extractLsb' 8 8 := by
    have he : a + 1 - a = 1 := by grind
    unfold write16
    rw [he]
    rfl
  unfold read16
  calc m.write16 a v (a + 1) ++ m.write16 a v a = v.extractLsb' 8 8 ++ v.extractLsb' 0 8 := by rw [h0, h1]
    _ = v.extractLsb' 0 16 := extractLsb'_append_extractLsb'_eq_extractLsb' rfl
    _ = v := extractLsb'_eq_self

/-- A write and a read at offsets from one address. -/
theorem write32_offset (m : Ram) (a v : Word) {j k : Nat} (hj : j < 2 ^ 32) (hk : k + 4 ≤ 2 ^ 32) :
    m.write32 (a + BitVec.ofNat 32 k) v (a + BitVec.ofNat 32 j) =
      if k ≤ j ∧ j < k + 4 then v.extractLsb' (8 * (j - k)) 8 else m (a + BitVec.ofNat 32 j) := by
  have hd : a + BitVec.ofNat 32 j - (a + BitVec.ofNat 32 k) = BitVec.ofNat 32 j - BitVec.ofNat 32 k := by grind
  have hn : (BitVec.ofNat 32 j - BitVec.ofNat 32 k).toNat = (2 ^ 32 - k + j) % 2 ^ 32 := by
    have hk' : k % 2 ^ 32 = k := Nat.mod_eq_of_lt (by omega)
    rw [BitVec.toNat_sub, BitVec.toNat_ofNat, BitVec.toNat_ofNat, Nat.mod_eq_of_lt hj, hk']
  unfold write32
  rw [hd, hn]
  by_cases h : k ≤ j ∧ j < k + 4
  · have hjk : (2 ^ 32 - k + j) % 2 ^ 32 = j - k := by omega
    rw [if_pos h, hjk, if_pos (by omega)]
  · rw [if_neg h, if_neg (by omega)]

end Ram

theorem low_half (w : Word) : (w &&& 0x0000ffff).setWidth 16 = w.setWidth 16 := by
  have hm : (0x0000ffff : Word).setWidth 16 = BitVec.allOnes 16 := by decide
  rw [BitVec.setWidth_and, hm, BitVec.and_allOnes]

/-! ## Words in memory -/

/-- From `a` upward the words `ws`. -/
def Words (m : Ram) : Word → List Word → Prop
  | _, [] => True
  | a, w :: ws => m.read32 a = w ∧ Words m (a + 4) ws

theorem bytes_succ (n : Nat) : BitVec.ofNat 32 (4 * (n + 1)) = BitVec.ofNat 32 (4 * n) + 4 := BitVec.ofNat_add ..

theorem bytes_toNat {n : Nat} (h : 4 * n < 2 ^ 32) : (BitVec.ofNat 32 (4 * n)).toNat = 4 * n := by
  rw [BitVec.toNat_ofNat, Nat.mod_eq_of_lt h]

variable {m m' : Ram} {a : Word} {w : Word} {ws us : List Word}

theorem addr_nil : a + BitVec.ofNat 32 (4 * ([] : List Word).length) = a := BitVec.add_zero a

theorem addr_cons (u : Word) : a + BitVec.ofNat 32 (4 * (u :: us).length) = a + 4 + BitVec.ofNat 32 (4 * us.length) := by
  rw [List.length_cons, bytes_succ]
  grind

theorem Words.congr (h : Words m a ws) (hl : 4 * ws.length ≤ 2 ^ 32)
    (hm : ∀ x : Word, (x - a).toNat < 4 * ws.length → m' x = m x) : Words m' a ws := by
  induction ws generalizing a with
  | nil => trivial
  | cons w ws ih =>
    rw [List.length_cons] at hl hm
    refine ⟨?_, ih h.2 (by omega) ?_⟩
    · rw [← h.1]
      apply Ram.read32_congr
      intro x hx
      exact hm x (by omega)
    · intro x hx
      apply hm x
      bv_omega

theorem Words.cons (h : Words m a ws) (hl : 4 * ws.length + 4 ≤ 2 ^ 32) (w : Word) :
    Words (m.write32 (a - 4) w) (a - 4) (w :: ws) := by
  refine ⟨Ram.read32_write32 _ _ _, ?_⟩
  rw [BitVec.sub_add_cancel]
  apply h.congr (by omega)
  intro x hx
  apply Ram.write32_far
  bv_omega

theorem Words.append (ws : List Word) (h : Words m a (us ++ ws)) : Words m a us := by
  induction us generalizing a with
  | nil => trivial
  | cons u us ih => exact ⟨h.1, ih h.2⟩

theorem Words.get (us : List Word) (h : Words m a (us ++ w :: ws)) : m.read32 (a + BitVec.ofNat 32 (4 * us.length)) = w := by
  induction us generalizing a with
  | nil =>
    rw [addr_nil]
    exact h.1
  | cons u us ih =>
    rw [addr_cons]
    exact ih h.2

/-- A store into one word of a list. -/
theorem Words.write (us : List Word) (h : Words m a (us ++ w :: ws)) (hl : 4 * (us.length + (ws.length + 1)) ≤ 2 ^ 32)
    (v : Word) : Words (m.write32 (a + BitVec.ofNat 32 (4 * us.length)) v) a (us ++ v :: ws) := by
  induction us generalizing a with
  | nil =>
    rw [addr_nil]
    refine ⟨Ram.read32_write32 m a v, h.2.congr (by omega) ?_⟩
    intro x hx
    exact Ram.write32_far (by bv_omega)
  | cons u us ih =>
    rw [List.length_cons] at hl
    have hk := bytes_toNat (n := us.length) (by omega)
    rw [addr_cons]
    refine ⟨?_, ih h.2 (by omega)⟩
    rw [← h.1]
    exact Ram.read32_write32_ne (by bv_omega) (by bv_omega)

/-! ## The processor -/

inductive Reg where
  | eax | ecx | edx | ebx | esp | ebp | esi | edi
  deriving DecidableEq, Repr

inductive Sreg where
  | es | cs | ss | ds | fs | gs
  deriving DecidableEq, Repr

structure Cpu where
  reg : Reg → Word
  sreg : Sreg → BitVec 16
  eip : Word
  eflags : Word
  mem : Ram

namespace Cpu

def setReg (s : Cpu) (r : Reg) (v : Word) : Cpu := { s with reg := Function.update s.reg r v }

def setSreg (s : Cpu) (r : Sreg) (v : BitVec 16) : Cpu := { s with sreg := Function.update s.sreg r v }

abbrev esp (s : Cpu) : Word := s.reg .esp

def push (s : Cpu) (w : Word) : Cpu := { s.setReg .esp (s.esp - 4) with mem := s.mem.write32 (s.esp - 4) w }

/-- The word that a pop takes off. -/
def top (s : Cpu) : Word := s.mem.read32 s.esp

def drop (s : Cpu) : Cpu := s.setReg .esp (s.esp + 4)

def popReg (s : Cpu) (r : Reg) : Cpu := s.drop.setReg r s.top

/-- A 32-bit pop of a segment register loads the low half of the word. -/
def popSreg (s : Cpu) (r : Sreg) : Cpu := s.drop.setSreg r (s.top.setWidth 16)

/-- The privilege level of a selector. -/
def level (sel : BitVec 16) : BitVec 16 := sel &&& 3

end Cpu

inductive Instr where
  | nop
  | pushImm (w : Word)
  | pushReg (r : Reg)
  /-- Zero-extended to a word. -/
  | pushSreg (r : Sreg)
  | popReg (r : Reg)
  | popSreg (r : Sreg)
  | pushad
  | popad
  | movAl (b : BitVec 8)
  /-- Output reaches a device, not the processor. -/
  | outAl (port : BitVec 8)
  | addEsp (n : Word)
  /-- `mov r, [base + off]` -/
  | load (r base : Reg) (off : Word)
  /-- `mov [base], r` -/
  | store (base r : Reg)
  /-- `call [a]`, with the return address `back`. -/
  | callMem (a back : Word)
  | ret
  | iretd

/-- `iretd` outside task switches and virtual-8086 mode: a return to an outer level pops esp and ss too. -/
def Cpu.iretd (s : Cpu) : Cpu :=
  let s1 := s.drop.drop.drop
  let s2 := if Cpu.level (s.drop.top.setWidth 16) = Cpu.level (s.sreg .cs) then s1
    else (s1.drop.setSreg .ss (s1.drop.top.setWidth 16)).setReg .esp s1.top
  { s2.setSreg .cs (s.drop.top.setWidth 16) with eip := s.top, eflags := s.drop.drop.top }

def Instr.exec (s : Cpu) : Instr → Cpu
  | .nop => s
  | .pushImm w => s.push w
  | .pushReg r => s.push (s.reg r)
  | .pushSreg r => s.push ((s.sreg r).setWidth 32)
  | .popReg r => s.popReg r
  | .popSreg r => s.popSreg r
  | .pushad =>
    [s.reg .eax, s.reg .ecx, s.reg .edx, s.reg .ebx, s.esp, s.reg .ebp, s.reg .esi, s.reg .edi].foldl Cpu.push s
  | .popad =>
    ((((s.popReg .edi).popReg .esi).popReg .ebp).drop.popReg .ebx).popReg .edx |>.popReg .ecx |>.popReg .eax
  | .movAl b => s.setReg .eax (s.reg .eax &&& 0xffffff00 ||| b.setWidth 32)
  | .outAl _ => s
  | .addEsp n => s.setReg .esp (s.esp + n)
  | .load r base off => s.setReg r (s.mem.read32 (s.reg base + off))
  | .store base r => { s with mem := s.mem.write32 (s.reg base) (s.reg r) }
  | .callMem a back => { s.push back with eip := s.mem.read32 a }
  | .ret => { s.drop with eip := s.top }
  | .iretd => s.iretd

def run (code : List Instr) (s : Cpu) : Cpu := code.foldl Instr.exec s

theorem run_append (code code' : List Instr) (s : Cpu) : run (code ++ code') s = run code' (run code s) := List.foldl_append

theorem run_cons (i : Instr) (code : List Instr) (s : Cpu) : run (i :: code) s = run code (Instr.exec s i) := rfl

/-- An address from esp or ebp goes through ss. -/
def Instr.usesDs : Instr → Bool
  | .load _ base _ | .store base _ => base ≠ .esp && base ≠ .ebp
  | .callMem _ _ => true
  | _ => false

def Instr.step (flat : BitVec 16 → Bool) (s : Cpu) (i : Instr) : Option Cpu :=
  if i.usesDs && !flat (s.sreg .ds) then none else some (i.exec s)

/-- `none` is a fault. -/
def execute (flat : BitVec 16 → Bool) (code : List Instr) (s : Cpu) : Option Cpu := code.foldlM (Instr.step flat) s

variable {flat : BitVec 16 → Bool}

theorem step_of_not_usesDs {i : Instr} (h : i.usesDs = false) (s : Cpu) : Instr.step flat s i = some (i.exec s) := by
  simp [Instr.step, h]

theorem step_callMem (s : Cpu) (a back : Word) :
    Instr.step flat s (.callMem a back) = if flat (s.sreg .ds) then some (Instr.exec s (.callMem a back)) else none := by
  cases h : flat (s.sreg .ds) <;> simp [Instr.step, Instr.usesDs, h]

theorem execute_append (code code' : List Instr) (s : Cpu) :
    execute flat (code ++ code') s = execute flat code s >>= execute flat code' := List.foldlM_append

theorem execute_single (i : Instr) (s : Cpu) : execute flat [i] s = Instr.step flat s i := by simp [execute]

/-- Code that keeps to the stack does not fault. -/
theorem execute_run {code : List Instr} (h : ∀ i ∈ code, i.usesDs = false) (s : Cpu) :
    execute flat code s = some (run code s) := by
  induction code generalizing s with
  | nil => rfl
  | cons i code ih =>
    rw [execute, List.foldlM_cons, step_of_not_usesDs (h i List.mem_cons_self)]
    exact ih (fun j hj => h j (List.mem_cons_of_mem i hj)) (i.exec s)

/-- How the processor enters a handler through an interrupt gate into level 0. -/
structure Gate where
  selector : BitVec 16
  offset : Word

/-- The stack of level 0, from the TSS. -/
structure Inner where
  ss0 : BitVec 16
  esp0 : Word

/-- Interrupt delivery: from an outer level the stack is changed; `err` is the error code, where the exception has one. -/
def deliver (gate : Gate) (inner : Inner) (err : Option Word) (s : Cpu) : Cpu :=
  let s1 := if Cpu.level (s.sreg .cs) = 0 then s
    else (((s.setReg .esp inner.esp0).setSreg .ss inner.ss0).push ((s.sreg .ss).setWidth 32)).push s.esp
  let s2 := ((s1.push s.eflags).push ((s.sreg .cs).setWidth 32)).push s.eip
  let s3 := err.elim s2 s2.push
  -- TF, IF, NT, RF and VM are cleared
  { s3.setSreg .cs gate.selector with eip := gate.offset, eflags := s.eflags &&& 0xfffcbcff }

/-! ## The stack -/

def Stack (s : Cpu) (ws : List Word) : Prop := Words s.mem s.esp ws

variable {s : Cpu}

@[simp] theorem setReg_same (s : Cpu) (r : Reg) (v : Word) : (s.setReg r v).reg r = v := Function.update_self ..
@[simp] theorem setReg_ne (s : Cpu) {r r' : Reg} (v : Word) (h : r' ≠ r) : (s.setReg r v).reg r' = s.reg r' :=
  Function.update_of_ne h ..
@[simp] theorem setReg_sreg (s : Cpu) (r : Reg) (v : Word) : (s.setReg r v).sreg = s.sreg := rfl
@[simp] theorem setReg_mem (s : Cpu) (r : Reg) (v : Word) : (s.setReg r v).mem = s.mem := rfl
@[simp] theorem setReg_eip (s : Cpu) (r : Reg) (v : Word) : (s.setReg r v).eip = s.eip := rfl
@[simp] theorem setReg_eflags (s : Cpu) (r : Reg) (v : Word) : (s.setReg r v).eflags = s.eflags := rfl
@[simp] theorem setSreg_same (s : Cpu) (r : Sreg) (v : BitVec 16) : (s.setSreg r v).sreg r = v := Function.update_self ..
@[simp] theorem setSreg_ne (s : Cpu) {r r' : Sreg} (v : BitVec 16) (h : r' ≠ r) : (s.setSreg r v).sreg r' = s.sreg r' :=
  Function.update_of_ne h ..
@[simp] theorem setSreg_reg (s : Cpu) (r : Sreg) (v : BitVec 16) : (s.setSreg r v).reg = s.reg := rfl
@[simp] theorem setSreg_mem (s : Cpu) (r : Sreg) (v : BitVec 16) : (s.setSreg r v).mem = s.mem := rfl
@[simp] theorem setSreg_eip (s : Cpu) (r : Sreg) (v : BitVec 16) : (s.setSreg r v).eip = s.eip := rfl
@[simp] theorem setSreg_eflags (s : Cpu) (r : Sreg) (v : BitVec 16) : (s.setSreg r v).eflags = s.eflags := rfl
@[simp] theorem push_esp (s : Cpu) (w : Word) : (s.push w).reg .esp = s.esp - 4 := setReg_same s .esp (s.esp - 4)
@[simp] theorem push_reg (s : Cpu) (w : Word) {r : Reg} (h : r ≠ .esp) : (s.push w).reg r = s.reg r := setReg_ne s _ h
@[simp] theorem push_sreg (s : Cpu) (w : Word) : (s.push w).sreg = s.sreg := rfl
@[simp] theorem push_eip (s : Cpu) (w : Word) : (s.push w).eip = s.eip := rfl
@[simp] theorem push_eflags (s : Cpu) (w : Word) : (s.push w).eflags = s.eflags := rfl

theorem Stack.push (h : Stack s ws) (hl : 4 * ws.length + 4 ≤ 2 ^ 32) (w : Word) : Stack (s.push w) (w :: ws) := by
  have hesp : (s.push w).esp = s.esp - 4 := push_esp s w
  unfold Stack
  rw [hesp]
  exact Words.cons h hl w

theorem Stack.top (h : Stack s (w :: ws)) : s.top = w := h.1

theorem Stack.drop (h : Stack s (w :: ws)) : Stack s.drop ws := by
  unfold Stack Cpu.drop Cpu.esp
  rw [setReg_same]
  exact h.2

/-- What is not on the stack's way. -/
theorem Stack.setReg (h : Stack s ws) {r : Reg} (hr : r ≠ .esp) (v : Word) : Stack (s.setReg r v) ws := by
  unfold Stack Cpu.esp
  rw [setReg_ne s v hr.symm]
  exact h

theorem Stack.pushes (h : Stack s ws) (us : List Word) (hl : 4 * (us.length + ws.length) ≤ 2 ^ 32) :
    Stack (us.foldl Cpu.push s) (us.reverse ++ ws) := by
  induction us generalizing s ws with
  | nil => exact h
  | cons u us ih =>
    rw [List.length_cons] at hl
    have h1 := ih (h.push (by omega) u) (by rw [List.length_cons]; omega)
    rw [List.reverse_cons, List.append_assoc]
    exact h1

theorem pushes_reg (us : List Word) (s : Cpu) {r : Reg} (h : r ≠ .esp) : (us.foldl Cpu.push s).reg r = s.reg r := by
  induction us generalizing s with
  | nil => rfl
  | cons u us ih => exact (ih (s.push u)).trans (push_reg s u h)

theorem pushes_sreg (us : List Word) (s : Cpu) : (us.foldl Cpu.push s).sreg = s.sreg := by
  induction us generalizing s with
  | nil => rfl
  | cons u us ih => exact ih (s.push u)

theorem pushes_esp (us : List Word) (s : Cpu) : (us.foldl Cpu.push s).esp = s.esp - BitVec.ofNat 32 (4 * us.length) := by
  induction us generalizing s with
  | nil => exact (BitVec.sub_zero s.esp).symm
  | cons u us ih =>
    rw [List.foldl_cons, ih, List.length_cons, bytes_succ, Cpu.esp, push_esp]
    grind

/-- Pushes stay below the stack pointer. -/
theorem pushes_mem (us : List Word) (s : Cpu) (hl : 4 * us.length ≤ 2 ^ 32) {x : Word}
    (hx : 4 * us.length ≤ (x - (s.esp - BitVec.ofNat 32 (4 * us.length))).toNat) : (us.foldl Cpu.push s).mem x = s.mem x := by
  induction us generalizing s with
  | nil => rfl
  | cons u us ih =>
    rw [List.length_cons] at hl hx
    have hk := bytes_toNat (n := us.length) (by omega)
    rw [bytes_succ] at hx
    have hesp : (s.push u).esp - BitVec.ofNat 32 (4 * us.length) = s.esp - (BitVec.ofNat 32 (4 * us.length) + 4) := by
      rw [Cpu.esp, push_esp]
      grind
    rw [List.foldl_cons, ih (s.push u) (by omega) (by rw [hesp]; omega)]
    exact Ram.write32_far (by bv_omega)

theorem Stack.pushad (h : Stack s ws) (hl : 4 * ws.length + 32 ≤ 2 ^ 32) : Stack (Instr.exec s .pushad)
    ([s.reg .edi, s.reg .esi, s.reg .ebp, s.esp, s.reg .ebx, s.reg .edx, s.reg .ecx, s.reg .eax] ++ ws) :=
  h.pushes _ (by simp only [List.length_cons, List.length_nil]; omega)

theorem Stack.movAl (h : Stack s ws) (b : BitVec 8) : Stack (Instr.exec s (.movAl b)) ws := h.setReg (by decide) _

theorem Stack.callMem (h : Stack s ws) (hl : 4 * ws.length + 4 ≤ 2 ^ 32) (a back : Word) :
    Stack (Instr.exec s (.callMem a back)) (back :: ws) := h.push hl back

@[simp] theorem callMem_esp (s : Cpu) (a back : Word) : (Instr.exec s (.callMem a back)).esp = s.esp - 4 := push_esp s back
@[simp] theorem callMem_sreg (s : Cpu) (a back : Word) : (Instr.exec s (.callMem a back)).sreg = s.sreg := rfl

/-! ## How far the stack has grown -/

/-- `n` words have been pushed since `s`, and nothing else has been stored. -/
structure Grown (n : Nat) (s s' : Cpu) : Prop where
  esp : s'.esp = s.esp - BitVec.ofNat 32 (4 * n)
  mem : ∀ x : Word, 4 * n ≤ (x - s'.esp).toNat → s'.mem x = s.mem x

variable {n : Nat} {s' : Cpu}

theorem Grown.refl (s : Cpu) : Grown 0 s s := ⟨(BitVec.sub_zero s.esp).symm, fun _ _ => rfl⟩

theorem Grown.setReg (h : Grown n s s') {r : Reg} (hr : r ≠ .esp) (v : Word) : Grown n s (s'.setReg r v) := by
  have hesp : (s'.setReg r v).esp = s'.esp := setReg_ne s' v hr.symm
  refine ⟨hesp.trans h.esp, ?_⟩
  rw [hesp]
  exact h.mem

theorem Grown.push (h : Grown n s s') (hl : 4 * (n + 1) < 2 ^ 32) (w : Word) : Grown (n + 1) s (s'.push w) := by
  have hesp : (s'.push w).esp = s'.esp - 4 := push_esp s' w
  refine ⟨?_, fun x hx => ?_⟩
  · rw [hesp, h.esp, bytes_succ]
    grind
  · rw [hesp] at hx
    have hfar : (s'.push w).mem x = s'.mem x := Ram.write32_far (by omega)
    rw [hfar]
    exact h.mem x (by bv_omega)

theorem Grown.pushes (h : Grown n s s') (us : List Word) (hl : 4 * (n + us.length) < 2 ^ 32) :
    Grown (n + us.length) s (us.foldl Cpu.push s') := by
  induction us generalizing n s' with
  | nil => exact h
  | cons u us ih =>
    rw [List.length_cons] at hl ⊢
    have hnext := ih (h.push (by omega) u) (by omega)
    rw [show n + 1 + us.length = n + (us.length + 1) by omega] at hnext
    exact hnext

theorem Grown.pushad (h : Grown n s s') (hl : 4 * (n + 8) < 2 ^ 32) : Grown (n + 8) s (Instr.exec s' .pushad) :=
  h.pushes [s'.reg .eax, s'.reg .ecx, s'.reg .edx, s'.reg .ebx, s'.esp, s'.reg .ebp, s'.reg .esi, s'.reg .edi] hl

/-- A stack holds one list of words of a length. -/
theorem Words.unique (h : Words m a ws) (h' : Words m a us) (hl : ws.length = us.length) : ws = us := by
  induction ws generalizing a us with
  | nil => exact (List.length_eq_zero_iff.mp hl.symm).symm
  | cons w ws ih =>
    cases us with
    | nil => cases hl
    | cons u us => rw [← h.1, h'.1, ih h.2 h'.2 (Nat.succ.inj hl)]

/-! ## Interrupt delivery -/

/-- What the processor pushes besides the error code. -/
def Cpu.frame (s : Cpu) : List Word :=
  [s.eip, (s.sreg .cs).setWidth 32, s.eflags] ++
    if Cpu.level (s.sreg .cs) = 0 then [] else [s.esp, (s.sreg .ss).setWidth 32]

theorem deliver_stack (gate : Gate) (inner : Inner) (err : Option Word) (s : Cpu) :
    Stack (deliver gate inner err s) (err.toList ++ s.frame) := by
  by_cases hl : Cpu.level (s.sreg .cs) = 0
  · have hf : s.frame = [s.eip, (s.sreg .cs).setWidth 32, s.eflags] := by
      unfold Cpu.frame
      rw [if_pos hl, List.append_nil]
    have h3 : Stack (((s.push s.eflags).push ((s.sreg .cs).setWidth 32)).push s.eip) s.frame := by
      rw [hf]
      have h0 : Stack s [] := trivial
      exact h0.pushes [s.eflags, (s.sreg .cs).setWidth 32, s.eip] (by simp)
    unfold deliver
    simp only [if_pos hl]
    cases err with
    | none => exact h3
    | some e => exact h3.push (by rw [hf]; simp) e
  · have hf : s.frame = [s.eip, (s.sreg .cs).setWidth 32, s.eflags, s.esp, (s.sreg .ss).setWidth 32] := by
      unfold Cpu.frame
      rw [if_neg hl]
      rfl
    have h3 : Stack ((((((s.setReg .esp inner.esp0).setSreg .ss inner.ss0).push ((s.sreg .ss).setWidth 32)).push s.esp).push
        s.eflags).push ((s.sreg .cs).setWidth 32) |>.push s.eip) s.frame := by
      rw [hf]
      have h0 : Stack ((s.setReg .esp inner.esp0).setSreg .ss inner.ss0) [] := trivial
      exact h0.pushes [(s.sreg .ss).setWidth 32, s.esp, s.eflags, (s.sreg .cs).setWidth 32, s.eip] (by simp)
    unfold deliver
    simp only [if_neg hl]
    cases err with
    | none => exact h3
    | some e => exact h3.push (by rw [hf]; simp) e

/-- Delivery changes cs, and to another level esp and ss. -/
theorem deliver_frame (gate : Gate) (inner : Inner) (err : Option Word) (s : Cpu) :
    (∀ r, r ≠ .esp → (deliver gate inner err s).reg r = s.reg r) ∧ (deliver gate inner err s).sreg .cs = gate.selector ∧
      (∀ r, r ≠ .cs → r ≠ .ss → (deliver gate inner err s).sreg r = s.sreg r) ∧
      (Cpu.level (s.sreg .cs) = 0 → (deliver gate inner err s).esp = s.esp - 12 - err.elim 0 (fun _ => 4) ∧
        (deliver gate inner err s).sreg .ss = s.sreg .ss) := by
  refine ⟨fun r hr => ?_, ?_, fun r hcs hss => ?_, fun hl => ⟨?_, ?_⟩⟩
  · by_cases hl : Cpu.level (s.sreg .cs) = 0
    · cases err <;> simp only [deliver, if_pos hl] <;> simp [hr]
    · cases err <;> simp only [deliver, if_neg hl] <;> simp [hr]
  · simp [deliver]
  · by_cases hl : Cpu.level (s.sreg .cs) = 0
    · cases err <;> simp only [deliver, if_pos hl] <;> simp [hcs]
    · cases err <;> simp only [deliver, if_neg hl] <;> simp [hcs, hss]
  · cases err <;> simp only [deliver, if_pos hl] <;> simp [Cpu.esp] <;> bv_omega
  · cases err <;> simp only [deliver, if_pos hl] <;> simp

/-- Where the processor pushes to. -/
def Inner.entry (inner : Inner) (s : Cpu) : Cpu := if Cpu.level (s.sreg .cs) = 0 then s else s.setReg .esp inner.esp0

theorem deliver_grown (gate : Gate) (inner : Inner) (err : Option Word) (s : Cpu) :
    Grown (s.frame.length + err.toList.length) (inner.entry s) (deliver gate inner err s) := by
  have herr : err.toList.length ≤ 1 := by cases err <;> simp
  by_cases hl : Cpu.level (s.sreg .cs) = 0
  · have hp := ((Grown.refl s).pushes [s.eflags, (s.sreg .cs).setWidth 32, s.eip] (by simp)).pushes err.toList
      (by simp only [List.length_cons, List.length_nil]; omega)
    simp only [Cpu.frame, Inner.entry, deliver, if_pos hl]
    cases err with
    | none => exact ⟨hp.esp, hp.mem⟩
    | some e => exact ⟨hp.esp, hp.mem⟩
  · have hp := ((Grown.refl (s.setReg .esp inner.esp0)).pushes
      [(s.sreg .ss).setWidth 32, s.esp, s.eflags, (s.sreg .cs).setWidth 32, s.eip] (by simp)).pushes err.toList
      (by simp only [List.length_cons, List.length_nil]; omega)
    simp only [Cpu.frame, Inner.entry, deliver, if_neg hl]
    cases err with
    | none => exact ⟨hp.esp, hp.mem⟩
    | some e => exact ⟨hp.esp, hp.mem⟩

/-! ## Return from an interrupt -/

/-- A return within the level. -/
theorem iretd_same {eip cs eflags : Word} (h : Stack s ([eip, cs, eflags] ++ ws))
    (hl : Cpu.level (cs.setWidth 16) = Cpu.level (s.sreg .cs)) : s.iretd.eip = eip ∧ s.iretd.eflags = eflags ∧
      s.iretd.reg = Function.update s.reg .esp (s.esp + 12) ∧ s.iretd.sreg = Function.update s.sreg .cs (cs.setWidth 16) := by
  have hcs : s.drop.top = cs := h.drop.top
  have hret : s.iretd = { s.drop.drop.drop.setSreg .cs (s.drop.top.setWidth 16) with
      eip := s.top, eflags := s.drop.drop.top } := by
    unfold Cpu.iretd
    simp only [hcs, if_pos hl]
  have hesp : s.esp + 4 + 4 + 4 = s.esp + 12 := by bv_omega
  rw [hret]
  refine ⟨h.top, h.drop.drop.top, ?_, ?_⟩
  · funext r
    by_cases hr : r = .esp
    · subst hr
      rw [Function.update_self]
      exact hesp
    · simp [Cpu.drop, hr]
  · rw [hcs]
    rfl

/-- A return to an outer level. -/
theorem iretd_outer {eip cs eflags esp ss : Word} (h : Stack s ([eip, cs, eflags, esp, ss] ++ ws))
    (hl : Cpu.level (cs.setWidth 16) ≠ Cpu.level (s.sreg .cs)) : s.iretd.eip = eip ∧ s.iretd.eflags = eflags ∧
      s.iretd.reg = Function.update s.reg .esp esp ∧
      s.iretd.sreg = Function.update (Function.update s.sreg .ss (ss.setWidth 16)) .cs (cs.setWidth 16) := by
  have hcs : s.drop.top = cs := h.drop.top
  have hesp : s.drop.drop.drop.top = esp := h.drop.drop.drop.top
  have hss : s.drop.drop.drop.drop.top = ss := h.drop.drop.drop.drop.top
  have hret : s.iretd = { ((s.drop.drop.drop.drop.setSreg .ss (ss.setWidth 16)).setReg .esp esp).setSreg .cs
      (cs.setWidth 16) with eip := s.top, eflags := s.drop.drop.top } := by
    unfold Cpu.iretd
    simp only [hcs, if_neg hl, hesp, hss]
  rw [hret]
  refine ⟨h.top, h.drop.drop.top, ?_, rfl⟩
  funext r
  by_cases hr : r = .esp
  · subst hr
    simp
  · simp [Cpu.drop, hr]

end TinyOs.Logic.X86
