/-
  TinyOs.Kernel.InterruptEntry — the entry stubs of kernel.S.

  Each `VECTOR` instance pushes a word of its own where the processor pushes no error
  code, saves the registers, calls the C handler and goes on at `intr_exit`. The words
  from the vector number upward are meant to be `struct intr_stack`, and `iretd` is
  meant to find eip where the processor has put it. Which instances push is a table of
  48 choices, and one of them is wrong: vector 0x0c. And no instance loads ds before it
  reads idt_table through it: a program that has left a null selector there does not get
  to the handler.

  `transparent_iff`: at a vector the processor can deliver, from any registers and with
  any C handler, the entry is transparent exactly when the vector is not 0x0c and ds
  selects a flat data segment.
-/

import TinyOs.Logic.X86

namespace TinyOs.Kernel

open TinyOs.Logic.X86

/-! ## The stubs -/

/-- The second argument of `VECTOR`. -/
inductive VectorKind where
  /-- `nop` -/
  | errorCode
  /-- `push 0` -/
  | zero
  deriving DecidableEq, Repr

def VectorKind.instr : VectorKind → Instr
  | .errorCode => .nop
  | .zero => .pushImm 0

/-- The `VECTOR` instances, 0x00 to 0x2f. -/
def vectors : List VectorKind :=
  [.zero, .zero, .zero, .zero, .zero, .zero, .zero, .zero,
    .errorCode, .zero, .errorCode, .errorCode, .zero, .errorCode, .errorCode, .zero,
    .zero, .errorCode, .zero, .zero, .zero, .zero, .zero, .zero,
    .errorCode, .zero, .errorCode, .errorCode, .zero, .errorCode, .errorCode, .zero,
    .zero, .zero, .zero, .zero, .zero, .zero, .zero, .zero,
    .zero, .zero, .zero, .zero, .zero, .zero, .zero, .zero]

/-- `intr%1entry` up to its call; `idtTable` and the return address `back` are the linker's. -/
def intrEntry (idtTable back : Word) (v : Nat) (kind : VectorKind) : List Instr :=
  [kind.instr,
    .pushSreg .ds, .pushSreg .es, .pushSreg .fs, .pushSreg .gs, .pushad,
    .movAl 0x20, .outAl 0xa0, .outAl 0x20,
    .pushImm (BitVec.ofNat 32 v), .callMem (idtTable + BitVec.ofNat 32 v * 4) back]

def intrExit : List Instr :=
  [.addEsp 4, .popad, .popSreg .gs, .popSreg .fs, .popSreg .es, .popSreg .ds, .addEsp 4, .iretd]

/-- `struct intr_stack`; without a change of level the processor pushes no esp and ss. -/
structure IntrStack where
  vecNo : Word
  edi : Word
  esi : Word
  ebp : Word
  espDummy : Word
  ebx : Word
  edx : Word
  ecx : Word
  eax : Word
  gs : Word
  fs : Word
  es : Word
  ds : Word
  errCode : Word
  eip : Word
  cs : Word
  eflags : Word
  outer : Option (Word × Word)

def IntrStack.words (f : IntrStack) : List Word :=
  [f.vecNo, f.edi, f.esi, f.ebp, f.espDummy, f.ebx, f.edx, f.ecx, f.eax, f.gs, f.fs, f.es, f.ds, f.errCode, f.eip, f.cs,
    f.eflags] ++ f.outer.elim [] fun o => [o.1, o.2]

/-! ## What the processor does -/

/-- The exceptions that push an error code. -/
def pushesErrorCode (v : Nat) : Bool := v ∈ [8, 10, 11, 12, 13, 14, 17]

def Deliverable (v : Nat) : Prop := v ≤ 0x17 ∨ 0x20 ≤ v ∧ v ≤ 0x2f

/-- An interrupt at vector `v` of the code that runs in `s`. -/
structure Interrupt where
  v : Nat
  err : Option Word
  s : Cpu
  gate : Gate
  inner : Inner
  idtTable : Word
  back : Word

/-- The gate leads to a code segment of level 0. -/
structure Interrupt.Arrives (i : Interrupt) : Prop where
  deliverable : Deliverable i.v
  err : i.err.isSome = pushesErrorCode i.v
  level : Cpu.level i.gate.selector = 0

/-- The selectors of the flat data segments, 0x10 of the kernel and 0x30 of the users. A null selector names no segment,
and the tables of the handlers lie beyond the limit of the video segment. -/
def flatData (sel : BitVec 16) : Bool := sel.toNat / 4 = 0x10 / 4 || sel.toNat / 4 = 0x30 / 4

/-- At the handler's first instruction, if the stub does not fault. -/
def Interrupt.calls (i : Interrupt) : Option Cpu :=
  execute flatData (intrEntry i.idtTable i.back i.v (vectors.getD i.v .zero)) (deliver i.gate i.inner i.err i.s)

/-- The same while nothing faults. -/
def Interrupt.entered (i : Interrupt) : Cpu :=
  run (intrEntry i.idtTable i.back i.v (vectors.getD i.v .zero)) (deliver i.gate i.inner i.err i.s)

/-- The words on the stack since the interrupt, but for the vector number. -/
def Interrupt.saved (i : Interrupt) : Nat :=
  12 + (if vectors.getD i.v .zero = .zero then 1 else 0) + i.err.toList.length + 3 +
    if Cpu.level (i.s.sreg .cs) = 0 then 0 else 2

/-- A C function with one argument that returns: `n` words above the argument are its caller's. -/
def Cdecl (n : Nat) (f : Cpu → Cpu) : Prop :=
  ∀ c : Cpu, (f c).esp = c.esp + 4 ∧ (f c).eip = c.top ∧ (∀ r ∈ [Reg.ebx, .esi, .edi, .ebp], (f c).reg r = c.reg r) ∧
    (f c).sreg .cs = c.sreg .cs ∧ (f c).sreg .ss = c.sreg .ss ∧
    ∀ x : Word, (x - (c.esp + 8)).toNat < 4 * n → (f c).mem x = c.mem x

/-- Back from the interrupt; `fn a` is the C function at address `a`. -/
def Interrupt.resumes (i : Interrupt) (fn : Word → Cpu → Cpu) : Option Cpu :=
  i.calls >>= fun c => execute flatData intrExit (fn c.eip c)

/-- The same while nothing faults. -/
def Interrupt.left (i : Interrupt) (fn : Word → Cpu → Cpu) : Cpu := run intrExit (fn i.entered.eip i.entered)

/-- The interrupted context as `struct intr_stack`. -/
def Interrupt.context (i : Interrupt) (espDummy : Word) : IntrStack where
  vecNo := BitVec.ofNat 32 i.v
  edi := i.s.reg .edi
  esi := i.s.reg .esi
  ebp := i.s.reg .ebp
  espDummy := espDummy
  ebx := i.s.reg .ebx
  edx := i.s.reg .edx
  ecx := i.s.reg .ecx
  eax := i.s.reg .eax
  gs := (i.s.sreg .gs).setWidth 32
  fs := (i.s.sreg .fs).setWidth 32
  es := (i.s.sreg .es).setWidth 32
  ds := (i.s.sreg .ds).setWidth 32
  errCode := i.err.getD 0
  eip := i.s.eip
  cs := (i.s.sreg .cs).setWidth 32
  eflags := i.s.eflags
  outer := if Cpu.level (i.s.sreg .cs) = 0 then none else some (i.s.esp, (i.s.sreg .ss).setWidth 32)

structure Interrupt.Transparent (i : Interrupt) (fn : Word → Cpu → Cpu) : Prop where
  layout : ∃ c espDummy, i.calls = some c ∧ Stack c (i.back :: (i.context espDummy).words)
  resumed : ∃ c, i.resumes fn = some c ∧ c.reg = i.s.reg ∧ c.sreg = i.s.sreg ∧ c.eip = i.s.eip ∧ c.eflags = i.s.eflags

/-! ## Up to the call -/

/-- The stub between its first instruction and its call. -/
def saveContext (v : Nat) : List Instr :=
  [.pushSreg .ds, .pushSreg .es, .pushSreg .fs, .pushSreg .gs, .pushad, .movAl 0x20, .outAl 0xa0, .outAl 0x20,
    .pushImm (BitVec.ofNat 32 v)]

theorem saveContext_stack {s : Cpu} {ws : List Word} (h : Stack s ws) (hl : ws.length ≤ 16) (v : Nat) :
    Stack (run (saveContext v) s) ([BitVec.ofNat 32 v, s.reg .edi, s.reg .esi, s.reg .ebp, s.esp - 4 - 4 - 4 - 4,
      s.reg .ebx, s.reg .edx, s.reg .ecx, s.reg .eax, (s.sreg .gs).setWidth 32, (s.sreg .fs).setWidth 32,
      (s.sreg .es).setWidth 32, (s.sreg .ds).setWidth 32] ++ ws) := by
  have hsegs := (((h.push (by omega) ((s.sreg .ds).setWidth 32)).push (by simp only [List.length_cons]; omega)
    ((s.sreg .es).setWidth 32)).push (by simp only [List.length_cons]; omega) ((s.sreg .fs).setWidth 32)).push
    (by simp only [List.length_cons]; omega) ((s.sreg .gs).setWidth 32)
  have hall := hsegs.pushad (by simp only [List.length_cons]; omega)
  have hal := hall.movAl 0x20
  exact hal.push (by simp only [List.length_cons, List.length_append, List.length_nil]; omega) (BitVec.ofNat 32 v)

/-- What the stub changes besides the stack: the low byte of eax. -/
theorem saveContext_frame (s : Cpu) (v : Nat) : (run (saveContext v) s).esp = s.esp - 52 ∧
    (∀ r ∈ [Reg.ebx, .esi, .edi, .ebp], (run (saveContext v) s).reg r = s.reg r) ∧ (run (saveContext v) s).sreg = s.sreg := by
  refine ⟨?_, fun r hr => ?_, rfl⟩
  · simp [saveContext, run, Instr.exec]
    bv_omega
  · have hne : r ≠ .esp ∧ r ≠ .eax := by
      constructor
      · intro e
        simp [e] at hr
      · intro e
        simp [e] at hr
    simp [saveContext, run, Instr.exec, hne.1, hne.2]

/-- What the stub's first instruction pushes. -/
def VectorKind.words : VectorKind → List Word
  | .errorCode => []
  | .zero => [0]

theorem VectorKind.stack (kind : VectorKind) {s : Cpu} {ws : List Word} (h : Stack s ws) (hl : ws.length ≤ 16) :
    Stack (kind.instr.exec s) (kind.words ++ ws) := by
  cases kind with
  | errorCode => exact h
  | zero => exact h.push (by omega) 0

theorem VectorKind.frame (kind : VectorKind) (s : Cpu) : (kind.instr.exec s).esp = s.esp - 4 * kind.words.length ∧
    (∀ r, r ≠ .esp → (kind.instr.exec s).reg r = s.reg r) ∧ (kind.instr.exec s).sreg = s.sreg := by
  cases kind with
  | errorCode => exact ⟨(BitVec.sub_zero s.esp).symm, fun _ _ => rfl, rfl⟩
  | zero => exact ⟨push_esp s 0, fun r hr => push_reg s 0 hr, rfl⟩

def Interrupt.kind (i : Interrupt) : VectorKind := vectors.getD i.v .zero

theorem run_intrEntry (idtTable back : Word) (v : Nat) (kind : VectorKind) (s : Cpu) :
    run (intrEntry idtTable back v kind) s =
      Instr.exec (run (saveContext v) (kind.instr.exec s)) (.callMem (idtTable + BitVec.ofNat 32 v * 4) back) := by
  have hcode : intrEntry idtTable back v kind =
    kind.instr :: (saveContext v ++ [.callMem (idtTable + BitVec.ofNat 32 v * 4) back]) := rfl
  rw [hcode, run_cons, run_append, run_cons]
  rfl

/-- Before the stub's call. -/
def Interrupt.atCall (i : Interrupt) : Cpu := run (saveContext i.v) (i.kind.instr.exec (deliver i.gate i.inner i.err i.s))

theorem Interrupt.entered_eq (i : Interrupt) :
    i.entered = Instr.exec i.atCall (.callMem (i.idtTable + BitVec.ofNat 32 i.v * 4) i.back) := run_intrEntry ..

/-- The registers as the stub saves them. -/
def Interrupt.context12 (i : Interrupt) (espDummy : Word) : List Word :=
  [i.s.reg .edi, i.s.reg .esi, i.s.reg .ebp, espDummy, i.s.reg .ebx, i.s.reg .edx, i.s.reg .ecx, i.s.reg .eax,
    (i.s.sreg .gs).setWidth 32, (i.s.sreg .fs).setWidth 32, (i.s.sreg .es).setWidth 32, (i.s.sreg .ds).setWidth 32]

/-- What lies above the saved registers. -/
def Interrupt.above (i : Interrupt) : List Word := i.kind.words ++ (i.err.toList ++ i.s.frame)

theorem frame_length (s : Cpu) : s.frame.length = 3 + if Cpu.level (s.sreg .cs) = 0 then 0 else 2 := by
  unfold Cpu.frame
  split <;> rfl

theorem Interrupt.saved_eq (i : Interrupt) (d : Word) : (i.context12 d ++ i.above).length = i.saved := by
  have hk : i.kind.words.length = if i.kind = .zero then 1 else 0 := by cases i.kind <;> rfl
  have h12 : (i.context12 d).length = 12 := rfl
  have hsaved : i.saved = 12 + (if i.kind = .zero then 1 else 0) + i.err.toList.length + 3 +
    if Cpu.level (i.s.sreg .cs) = 0 then 0 else 2 := rfl
  simp only [Interrupt.above, List.length_append, frame_length, hk, h12, hsaved]
  omega

theorem Interrupt.saved_le (i : Interrupt) : i.saved ≤ 19 := by
  unfold Interrupt.saved
  have : i.err.toList.length ≤ 1 := by cases i.err <;> simp
  split <;> split <;> omega

/-- At the call. -/
theorem Interrupt.atCall_stack (i : Interrupt) :
    ∃ d, Stack i.atCall (BitVec.ofNat 32 i.v :: (i.context12 d ++ i.above)) := by
  have hd := deliver_stack i.gate i.inner i.err i.s
  obtain ⟨hreg, -, hsreg, -⟩ := deliver_frame i.gate i.inner i.err i.s
  have hlen : (i.err.toList ++ i.s.frame).length ≤ 6 := by
    rw [List.length_append, frame_length]
    have : i.err.toList.length ≤ 1 := by cases i.err <;> simp
    split <;> omega
  have hk : i.kind.words.length ≤ 1 := by cases i.kind <;> decide
  obtain ⟨-, hkreg, hksreg⟩ := i.kind.frame (deliver i.gate i.inner i.err i.s)
  have h2 := saveContext_stack (i.kind.stack hd (by omega)) (by rw [List.length_append]; omega) i.v
  rw [hkreg .edi (by decide), hkreg .esi (by decide), hkreg .ebp (by decide), hkreg .ebx (by decide), hkreg .edx (by decide),
    hkreg .ecx (by decide), hkreg .eax (by decide), hksreg, hreg .edi (by decide), hreg .esi (by decide),
    hreg .ebp (by decide), hreg .ebx (by decide), hreg .edx (by decide), hreg .ecx (by decide), hreg .eax (by decide),
    hsreg .gs (by decide) (by decide), hsreg .fs (by decide) (by decide), hsreg .es (by decide) (by decide),
    hsreg .ds (by decide) (by decide)] at h2
  exact ⟨_, h2⟩

theorem Interrupt.entered_stack (i : Interrupt) :
    ∃ d, Stack i.entered (i.back :: BitVec.ofNat 32 i.v :: (i.context12 d ++ i.above)) := by
  obtain ⟨d, h⟩ := i.atCall_stack
  rw [i.entered_eq]
  refine ⟨d, h.callMem ?_ _ i.back⟩
  have := i.saved_le
  rw [List.length_cons, i.saved_eq]
  omega

theorem Interrupt.entered_sreg (i : Interrupt) : i.entered.sreg = (deliver i.gate i.inner i.err i.s).sreg := by
  obtain ⟨-, -, hsreg⟩ := i.kind.frame (deliver i.gate i.inner i.err i.s)
  rw [i.entered_eq, callMem_sreg]
  exact (saveContext_frame _ i.v).2.2.trans hsreg

/-- The stub's call goes through the ds of the interrupted code. -/
theorem Interrupt.calls_eq (i : Interrupt) : i.calls = if flatData (i.s.sreg .ds) then some i.entered else none := by
  have hcode : intrEntry i.idtTable i.back i.v i.kind =
    (i.kind.instr :: saveContext i.v) ++ [.callMem (i.idtTable + BitVec.ofNat 32 i.v * 4) i.back] := rfl
  have hstack : ∀ j ∈ i.kind.instr :: saveContext i.v, j.usesDs = false := by
    cases i.kind <;> simp [saveContext, VectorKind.instr, Instr.usesDs]
  have hds : i.atCall.sreg .ds = i.s.sreg .ds := by
    have hcall : i.entered.sreg = i.atCall.sreg := by rw [i.entered_eq, callMem_sreg]
    obtain ⟨-, -, hsreg, -⟩ := deliver_frame i.gate i.inner i.err i.s
    rw [← hcall, i.entered_sreg, hsreg .ds (by decide) (by decide)]
  have hcalls : i.calls = Instr.step flatData i.atCall (.callMem (i.idtTable + BitVec.ofNat 32 i.v * 4) i.back) := by
    show execute flatData (intrEntry i.idtTable i.back i.v i.kind) _ = _
    rw [hcode, execute_append, execute_run hstack, Option.bind_eq_bind, Option.bind_some, execute_single, run_cons]
    rfl
  rw [hcalls, step_callMem, hds, ← i.entered_eq]

theorem intrExit_stack : ∀ j ∈ intrExit, j.usesDs = false := by simp [intrExit, Instr.usesDs]

theorem Interrupt.resumes_eq (i : Interrupt) (fn : Word → Cpu → Cpu) :
    i.resumes fn = if flatData (i.s.sreg .ds) then some (i.left fn) else none := by
  unfold Interrupt.resumes Interrupt.left
  rw [i.calls_eq]
  by_cases hds : flatData (i.s.sreg .ds) = true
  · rw [if_pos hds, if_pos hds, Option.bind_eq_bind, Option.bind_some, execute_run intrExit_stack]
  · rw [if_neg hds, if_neg hds, Option.bind_eq_bind, Option.bind_none]

theorem Interrupt.atCall_esp (i : Interrupt) :
    i.atCall.esp = (i.kind.instr.exec (deliver i.gate i.inner i.err i.s)).esp - 52 :=
  (saveContext_frame (i.kind.instr.exec (deliver i.gate i.inner i.err i.s)) i.v).1

/-- From level 0, how far down the stack goes. -/
theorem Interrupt.entered_esp (i : Interrupt) (hl : Cpu.level (i.s.sreg .cs) = 0) :
    i.entered.esp = i.s.esp - 68 - 4 * i.kind.words.length - i.err.elim 0 fun _ => 4 := by
  have hd := ((deliver_frame i.gate i.inner i.err i.s).2.2.2 hl).1
  have hk := (i.kind.frame (deliver i.gate i.inner i.err i.s)).1
  rw [i.entered_eq, callMem_esp, i.atCall_esp, hk, hd]
  grind

/-! ## From the call on -/

/-- The state in which `intr_exit` gets to its `iretd`, on a stack as the stub has left it. -/
structure Restored (t u : Cpu) (f : IntrStack) : Prop where
  edi : u.reg .edi = f.edi
  esi : u.reg .esi = f.esi
  ebp : u.reg .ebp = f.ebp
  ebx : u.reg .ebx = f.ebx
  edx : u.reg .edx = f.edx
  ecx : u.reg .ecx = f.ecx
  eax : u.reg .eax = f.eax
  gs : u.sreg .gs = f.gs.setWidth 16
  fs : u.sreg .fs = f.fs.setWidth 16
  es : u.sreg .es = f.es.setWidth 16
  ds : u.sreg .ds = f.ds.setWidth 16
  cs : u.sreg .cs = t.sreg .cs
  ss : u.sreg .ss = t.sreg .ss
  esp : u.esp = t.esp + 56
  mem : u.mem = t.mem

theorem intrExit_restored {t : Cpu} {f : IntrStack} (h : Stack t f.words) :
    ∃ u, run intrExit t = u.iretd ∧ Restored t u f ∧
      Stack u ([f.eip, f.cs, f.eflags] ++ f.outer.elim [] fun o => [o.1, o.2]) := by
  obtain ⟨h1, h2, h3, h4, h5, h6, h7, h8, h9, h10, h11, h12, h13, h14, hrest⟩ := h
  refine ⟨run [.addEsp 4, .popad, .popSreg .gs, .popSreg .fs, .popSreg .es, .popSreg .ds, .addEsp 4] t, rfl, ?_, hrest⟩
  have hesp : t.esp + 4 + 4 + 4 + 4 + 4 + 4 + 4 + 4 + 4 + 4 + 4 + 4 + 4 + 4 = t.esp + 56 := by grind
  constructor
  · exact h2
  · exact h3
  · exact h4
  · exact h6
  · exact h7
  · exact h8
  · exact h9
  · exact congrArg (BitVec.setWidth 16) h10
  · exact congrArg (BitVec.setWidth 16) h11
  · exact congrArg (BitVec.setWidth 16) h12
  · exact congrArg (BitVec.setWidth 16) h13
  · rfl
  · rfl
  · exact hesp
  · rfl

theorem Interrupt.context_words (i : Interrupt) (d : Word) :
    (i.context d).words = BitVec.ofNat 32 i.v :: (i.context12 d ++ (i.err.getD 0 :: i.s.frame)) := by
  by_cases hl : Cpu.level (i.s.sreg .cs) = 0
  · simp only [IntrStack.words, Interrupt.context, Interrupt.context12, Cpu.frame, if_pos hl]
    rfl
  · simp only [IntrStack.words, Interrupt.context, Interrupt.context12, Cpu.frame, if_neg hl]
    rfl

/-- The handler has taken off the return address, and may have used its argument's word. -/
theorem Cdecl.stack {f : Cpu → Cpu} {c : Cpu} {back v : Word} {ws : List Word} (hf : Cdecl ws.length f)
    (hl : 4 * ws.length ≤ 2 ^ 32) (h : Stack c (back :: v :: ws)) : Stack (f c) ((f c).top :: ws) := by
  obtain ⟨hesp, -, -, -, -, hmem⟩ := hf c
  have hws : Words c.mem (c.esp + 8) ws := by
    have h8 : c.esp + 4 + 4 = c.esp + 8 := by grind
    rw [← h8]
    exact h.2.2
  have hnext : (f c).esp + 4 = c.esp + 8 := by
    rw [hesp]
    grind
  refine ⟨rfl, ?_⟩
  rw [hnext]
  exact hws.congr hl hmem

/-- The stub pushes a word exactly where the processor does not. -/
def Interrupt.Fits (i : Interrupt) : Prop := i.kind.words ++ i.err.toList = [i.err.getD 0]

theorem Interrupt.Fits.one_word {i : Interrupt} (h : i.Fits) :
    (4 : Word) * i.kind.words.length + (i.err.elim 0 fun _ => 4) = 4 := by
  have hlen := congrArg List.length h
  rw [List.length_append] at hlen
  cases hk : i.kind <;> cases he : i.err <;> simp [hk, he, VectorKind.words] at hlen ⊢

theorem Interrupt.Fits.above {i : Interrupt} (h : i.Fits) : i.above = i.err.getD 0 :: i.s.frame := by
  unfold Interrupt.above
  rw [← List.append_assoc, show i.kind.words ++ i.err.toList = _ from h]
  rfl

theorem setWidth_back (w : BitVec 16) : (w.setWidth 32).setWidth 16 = w := by
  rw [BitVec.setWidth_setWidth_of_le w (by decide), BitVec.setWidth_eq]

variable {i : Interrupt} {fn : Word → Cpu → Cpu}

/-- The stack in which the handler returns. -/
theorem Interrupt.returned_stack (hfn : Cdecl i.saved (fn i.entered.eip)) :
    ∃ d v, Stack (fn i.entered.eip i.entered) (v :: (i.context12 d ++ i.above)) := by
  obtain ⟨d, h⟩ := i.entered_stack
  have hsaved := i.saved_le
  rw [← i.saved_eq d] at hfn hsaved
  exact ⟨d, _, hfn.stack (by omega) h⟩

/-- What `intr_exit` has popped is the interrupted context. -/
theorem Restored.context {t u : Cpu} {d v : Word} (h : Restored t u { i.context d with vecNo := v }) :
    (∀ r, r ≠ .esp → u.reg r = i.s.reg r) ∧ ∀ r, r ≠ .cs → r ≠ .ss → u.sreg r = i.s.sreg r := by
  constructor
  · intro r hr
    cases r with
    | eax => exact h.eax
    | ecx => exact h.ecx
    | edx => exact h.edx
    | ebx => exact h.ebx
    | esp => exact absurd rfl hr
    | ebp => exact h.ebp
    | esi => exact h.esi
    | edi => exact h.edi
  · intro r hcs hss
    cases r with
    | es => exact h.es.trans (setWidth_back _)
    | cs => exact absurd rfl hcs
    | ss => exact absurd rfl hss
    | ds => exact h.ds.trans (setWidth_back _)
    | fs => exact h.fs.trans (setWidth_back _)
    | gs => exact h.gs.trans (setWidth_back _)

/-- `iretd` may load cs and ss; the others are as the pops left them. -/
theorem sreg_ext {f g : Sreg → BitVec 16} (hcs : f .cs = g .cs) (hss : f .ss = g .ss)
    (h : ∀ r, r ≠ .cs → r ≠ .ss → f r = g r) : f = g := by
  funext r
  by_cases hc : r = .cs
  · rw [hc, hcs]
  · by_cases hs : r = .ss
    · rw [hs, hss]
    · exact h r hc hs

/-- The handler's stack holds the context in its layout: `iretd` finds the frame of the processor. -/
theorem Interrupt.left_of_stack {d v : Word} (hlevel : Cpu.level i.gate.selector = 0) (hfn : Cdecl i.saved (fn i.entered.eip))
    (ht : Stack (fn i.entered.eip i.entered) (v :: (i.context12 d ++ (i.err.getD 0 :: i.s.frame)))) :
    (∀ r, r ≠ .esp → (i.left fn).reg r = i.s.reg r) ∧
      (i.left fn).esp = (if Cpu.level (i.s.sreg .cs) = 0 then i.entered.esp + 72 else i.s.esp) ∧
      (i.left fn).sreg = i.s.sreg ∧ (i.left fn).eip = i.s.eip ∧ (i.left fn).eflags = i.s.eflags := by
  have hwords : ({ i.context d with vecNo := v } : IntrStack).words = v :: (i.context12 d ++ (i.err.getD 0 :: i.s.frame)) :=
    congrArg (fun ws : List Word => v :: ws.tail) (i.context_words d)
  obtain ⟨hesp, -, -, hcs, hss, -⟩ := hfn i.entered
  obtain ⟨-, hgate, -, hsame⟩ := deliver_frame i.gate i.inner i.err i.s
  rw [i.entered_sreg] at hcs hss
  rw [← hwords] at ht
  obtain ⟨u, hu, hr, hst⟩ := intrExit_restored ht
  obtain ⟨hreg, hsreg⟩ := hr.context
  have hucs : Cpu.level (u.sreg .cs) = 0 := by rw [hr.cs, hcs, hgate, hlevel]
  rw [show i.left fn = u.iretd from hu]
  by_cases hl : Cpu.level (i.s.sreg .cs) = 0
  · have hst' : Stack u ([i.s.eip, (i.s.sreg .cs).setWidth 32, i.s.eflags] ++ []) := by
      simp only [Interrupt.context, if_pos hl] at hst
      exact hst
    obtain ⟨heip, hflags, hregs, hsregs⟩ := iretd_same hst' (by rw [setWidth_back, hl, hucs])
    refine ⟨?_, ?_, ?_, heip, hflags⟩
    · intro r he
      rw [hregs, Function.update_of_ne he, hreg r he]
    · rw [Cpu.esp, hregs, Function.update_self, hr.esp, hesp, if_pos hl]
      grind
    · rw [hsregs, setWidth_back]
      refine sreg_ext (Function.update_self ..) ?_ fun r hc hs => ?_
      · rw [Function.update_of_ne (by decide), hr.ss, hss, (hsame hl).2]
      · rw [Function.update_of_ne hc, hsreg r hc hs]
  · have hst' : Stack u ([i.s.eip, (i.s.sreg .cs).setWidth 32, i.s.eflags, i.s.esp, (i.s.sreg .ss).setWidth 32] ++ []) := by
      simp only [Interrupt.context, if_neg hl] at hst
      exact hst
    obtain ⟨heip, hflags, hregs, hsregs⟩ := iretd_outer hst' (by rw [setWidth_back, hucs]; exact hl)
    refine ⟨?_, ?_, ?_, heip, hflags⟩
    · intro r he
      rw [hregs, Function.update_of_ne he, hreg r he]
    · rw [Cpu.esp, hregs, Function.update_self, if_neg hl]
    · rw [hsregs, setWidth_back, setWidth_back]
      refine sreg_ext (Function.update_self ..) ?_ fun r hc hs => ?_
      · rw [Function.update_of_ne (by decide), Function.update_self]
      · rw [Function.update_of_ne hc, Function.update_of_ne hs, hsreg r hc hs]

theorem Interrupt.Fits.left (hfit : i.Fits) (hlevel : Cpu.level i.gate.selector = 0)
    (hfn : Cdecl i.saved (fn i.entered.eip)) : (i.left fn).reg = i.s.reg ∧ (i.left fn).sreg = i.s.sreg ∧
      (i.left fn).eip = i.s.eip ∧ (i.left fn).eflags = i.s.eflags := by
  obtain ⟨d, v, ht⟩ := Interrupt.returned_stack hfn
  rw [hfit.above] at ht
  obtain ⟨hreg, hesp, hrest⟩ := Interrupt.left_of_stack hlevel hfn ht
  refine ⟨?_, hrest⟩
  funext r
  by_cases he : r = .esp
  · rw [he, ← Cpu.esp, hesp]
    by_cases hl : Cpu.level (i.s.sreg .cs) = 0
    · have hone := hfit.one_word
      rw [if_pos hl, i.entered_esp hl]
      grind
    · rw [if_neg hl]
  · exact hreg r he

/-- At vector 0x0c both the processor and the stub push a word. -/
theorem vectors_match (v : Nat) (hv : Deliverable v) :
    (pushesErrorCode v = (vectors.getD v .zero == .errorCode)) ↔ v ≠ 0x0c := by
  have htable : ∀ v < 48, v ≤ 0x17 ∨ 0x20 ≤ v →
      ((pushesErrorCode v = (vectors.getD v .zero == .errorCode)) ↔ v ≠ 0x0c) := by decide
  rcases hv with h | h
  · exact htable v (by omega) (Or.inl h)
  · exact htable v (by omega) (Or.inr h.1)

theorem Interrupt.Arrives.fits (ha : i.Arrives) (hv : i.v ≠ 0x0c) : i.Fits := by
  have hkind := (vectors_match i.v ha.deliverable).mpr hv
  have herr := ha.err
  unfold Interrupt.Fits Interrupt.kind
  cases hk : vectors.getD i.v .zero <;> cases he : i.err <;> rw [hk] at hkind <;> rw [he, hkind] at herr
  · cases herr
  · rfl
  · rfl
  · cases herr

/-- Without a flat data segment the stub faults. -/
theorem Interrupt.Transparent.flat (h : i.Transparent fn) : flatData (i.s.sreg .ds) = true := by
  obtain ⟨c, -, hc, -⟩ := h.layout
  by_contra hds
  rw [i.calls_eq, if_neg hds] at hc
  cases hc

/-- The interrupted level-0 code has its stack pointer one word off. -/
theorem Interrupt.Arrives.off (ha : i.Arrives) (hv : i.v = 0x0c) (hfn : Cdecl i.saved (fn i.entered.eip)) :
    ¬ i.Transparent fn := by
  intro h
  have hkind : i.kind = .zero := by
    unfold Interrupt.kind
    rw [hv]
    rfl
  have herr : ∃ e, i.err = some e := by
    apply Option.isSome_iff_exists.mp
    rw [ha.err, hv]
    rfl
  obtain ⟨e, he⟩ := herr
  obtain ⟨d, hst⟩ := i.entered_stack
  obtain ⟨c, d', hc, hst'⟩ := h.layout
  obtain ⟨b, hb, hbreg, -⟩ := h.resumed
  rw [i.calls_eq, if_pos h.flat, Option.some.injEq] at hc
  rw [i.resumes_eq, if_pos h.flat, Option.some.injEq] at hb
  rw [← hc] at hst'
  have habove : i.above = 0 :: e :: i.s.frame := by
    unfold Interrupt.above
    rw [hkind, he]
    rfl
  rw [i.context_words, he] at hst'
  rw [habove] at hst
  -- both layouts at once: the four words that are one off are all 0
  have hzero : (0 : Word) = e ∧ e = i.s.eip ∧ i.s.eip = (i.s.sreg .cs).setWidth 32 ∧
      (i.s.sreg .cs).setWidth 32 = i.s.eflags := by
    have h1 : Words i.entered.mem i.entered.esp (i.back :: BitVec.ofNat 32 i.v :: (i.context12 d ++
        [0, e, i.s.eip, (i.s.sreg .cs).setWidth 32])) := by
      apply Words.append (i.s.frame.drop 2)
      exact hst
    have h2 : Words i.entered.mem i.entered.esp (i.back :: BitVec.ofNat 32 i.v :: (i.context12 d' ++
        [e, i.s.eip, (i.s.sreg .cs).setWidth 32, i.s.eflags])) := by
      apply Words.append (i.s.frame.drop 3)
      exact hst'
    have heq := Words.unique h1 h2 rfl
    simp only [Interrupt.context12, List.cons_append, List.nil_append, List.cons.injEq, and_true, true_and] at heq
    exact heq.2
  obtain ⟨h0, h1, h2, h3⟩ := hzero
  have hcs : i.s.sreg .cs = 0 := by
    rw [← setWidth_back (i.s.sreg .cs), ← h2, ← h1, ← h0]
    rfl
  have hl : Cpu.level (i.s.sreg .cs) = 0 := by
    rw [hcs]
    decide
  have hframe : i.s.frame = [0, 0, 0] := by
    unfold Cpu.frame
    rw [if_pos hl, ← h3, ← h2, ← h1, ← h0]
    rfl
  obtain ⟨d'', v, ht⟩ := Interrupt.returned_stack hfn
  have ht' : Stack (fn i.entered.eip i.entered) (v :: (i.context12 d'' ++ (i.err.getD 0 :: i.s.frame))) := by
    apply Words.append [0]
    rw [he, hframe, ← h0]
    rw [habove, hframe, ← h0] at ht
    exact ht
  obtain ⟨-, hesp, -⟩ := Interrupt.left_of_stack ha.level hfn ht'
  rw [Cpu.esp, hb, hbreg, if_pos hl, i.entered_esp hl, hkind, he] at hesp
  have hoff : i.s.esp - 68 - 4 - 4 + 72 ≠ i.s.esp := by grind
  exact hoff hesp.symm

/-- At every vector but one, and with a data segment to read idt_table through. -/
theorem transparent_iff (ha : i.Arrives) (hfn : Cdecl i.saved (fn i.entered.eip)) :
    i.Transparent fn ↔ i.v ≠ 0x0c ∧ flatData (i.s.sreg .ds) = true := by
  constructor
  · intro h
    exact ⟨fun hv => ha.off hv hfn h, h.flat⟩
  · intro ⟨hv, hds⟩
    have hfit := ha.fits hv
    obtain ⟨d, hst⟩ := i.entered_stack
    refine ⟨⟨i.entered, d, ?_, ?_⟩, ⟨i.left fn, ?_, hfit.left ha.level hfn⟩⟩
    · rw [i.calls_eq, if_pos hds]
    · rw [i.context_words, ← hfit.above]
      exact hst
    · rw [i.resumes_eq, if_pos hds]

/-- A C function with an empty body. -/
def returns (c : Cpu) : Cpu := Instr.exec c .ret

theorem returns_cdecl (n : Nat) : Cdecl n returns := by
  intro c
  refine ⟨setReg_same c .esp _, rfl, ?_, rfl, rfl, fun _ _ => rfl⟩
  intro r hr
  apply setReg_ne c _
  intro he
  simp [he] at hr

/-- A user program with the selector `ds` is interrupted at vector `v`. -/
def userAt (v : Nat) (err : Option Word) (ds : BitVec 16) : Interrupt where
  v := v
  err := err
  s := {
    reg := fun _ => 0xbffffff0
    sreg := fun r => if r = .cs then 0x2b else if r = .ds then ds else 0x33
    eip := 0x8048000
    eflags := 0x202
    mem := fun _ => 0 }
  gate := { selector := 0x8, offset := 0xc0001500 }
  inner := { ss0 := 0x10, esp0 := 0xc0101000 }
  idtTable := 0xc0005000
  back := 0xc0001540

theorem timer_transparent : (userAt 0x20 none 0x33).Transparent fun _ => returns :=
  (transparent_iff (i := userAt 0x20 none 0x33) ⟨Or.inr (by decide), rfl, rfl⟩ (returns_cdecl _)).mpr (by decide)

/-- A stack fault comes with an error code, and the stub pushes one more. A program that has loaded a null selector into ds
does not see a tick's handler called. -/
theorem stackFault_not_transparent :
    ((userAt 0x0c (some 0) 0x33).Arrives ∧ Cdecl (userAt 0x0c (some 0) 0x33).saved returns ∧
      ¬ (userAt 0x0c (some 0) 0x33).Transparent fun _ => returns) ∧
    (userAt 0x20 none 0).Arrives ∧ Cdecl (userAt 0x20 none 0).saved returns ∧ (userAt 0x20 none 0).calls = none := by
  have ha : (userAt 0x0c (some 0) 0x33).Arrives := ⟨Or.inl (by decide), rfl, rfl⟩
  refine ⟨⟨ha, returns_cdecl _, ha.off rfl (returns_cdecl _)⟩, ⟨Or.inr (by decide), rfl, rfl⟩, returns_cdecl _, ?_⟩
  rw [Interrupt.calls_eq]
  rfl

end TinyOs.Kernel
