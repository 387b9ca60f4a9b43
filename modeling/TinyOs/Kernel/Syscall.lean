/-
  TinyOs.Kernel.Syscall — `syscall_handler` of kernel.S.

  The handler makes the same stack as the entry stubs, puts ebx, ecx and edx on top of
  it as the arguments of a function of `syscall_table`, and stores the function's
  result in the word from which `popad` takes eax. syscall_table is read through the ds
  of the user.

  `syscall_served_iff`: the function finds its three arguments, and the user goes on with
  its result in eax and with everything else as it was, exactly when ds is not null.
-/

import TinyOs.Kernel.InterruptEntry

namespace TinyOs.Kernel

open TinyOs.Logic.X86

/-! ## The handler -/

/-- `syscall_handler` up to its call. -/
def syscallHandler : List Instr :=
  [.pushImm 0,
    .pushSreg .ds, .pushSreg .es, .pushSreg .fs, .pushSreg .gs, .pushad,
    .pushImm 0x80,
    .pushReg .edx, .pushReg .ecx, .pushReg .ebx]

/-- From the call to `jmp intr_exit`. -/
def storeResult (c : Cpu) : Cpu :=
  let c1 := Instr.exec c (.addEsp 12)
  { c1 with mem := c1.mem.write32 (c1.esp + 8 * 4) (c1.reg .eax) }

/-- `int 0x80` in the code that runs in `s`; `syscall_table` is the linker's. -/
structure Syscall where
  s : Cpu
  gate : Gate
  inner : Inner
  syscallTable : Word
  /-- How many functions the table holds. -/
  entries : Nat
  back : Word

/-- Before the call. -/
def Syscall.atCall (y : Syscall) : Cpu := run syscallHandler (deliver y.gate y.inner none y.s)

/-- At the function's first instruction, if the call does not fault. -/
def Syscall.calls (y : Syscall) : Option Cpu :=
  execute flatData syscallHandler (deliver y.gate y.inner none y.s) >>= fun c =>
    Instr.step flatData c (.callMem (y.syscallTable + c.reg .eax * 4) y.back)

/-- The same while nothing faults. -/
def Syscall.entered (y : Syscall) : Cpu :=
  Instr.exec y.atCall (.callMem (y.syscallTable + y.atCall.reg .eax * 4) y.back)

/-- Back in the user's code; `fn a` is the C function at address `a`. -/
def Syscall.resumes (y : Syscall) (fn : Word → Cpu → Cpu) : Option Cpu :=
  y.calls >>= fun c => execute flatData intrExit (storeResult (fn c.eip c))

/-- The same while nothing faults. -/
def Syscall.left (y : Syscall) (fn : Word → Cpu → Cpu) : Cpu := run intrExit (storeResult (fn y.entered.eip y.entered))

/-- The function that the table has for the user's eax. -/
def Syscall.function (y : Syscall) : Word := y.s.mem.read32 (y.syscallTable + y.s.reg .eax * 4)

/-- A call by the user of a function that the table holds. The table is off the 88 bytes of stack that come into use. -/
structure Syscall.Valid (y : Syscall) : Prop where
  user : Cpu.level (y.s.sreg .cs) ≠ 0
  kernel : Cpu.level y.gate.selector = 0
  number : (y.s.reg .eax).toNat < y.entries
  fits : 4 * y.entries ≤ 2 ^ 32
  apart : ∀ x : Word, (x - y.syscallTable).toNat < 4 * y.entries → 88 ≤ (x - (y.inner.esp0 - 88)).toNat

/-- A C function with three arguments has returned from a call in `c`: `n` words above the arguments are its caller's. -/
structure Returned (n : Nat) (c c' : Cpu) : Prop where
  esp : c'.esp = c.esp + 4
  eip : c'.eip = c.top
  reg : ∀ r ∈ [Reg.ebx, .esi, .edi, .ebp], c'.reg r = c.reg r
  cs : c'.sreg .cs = c.sreg .cs
  ss : c'.sreg .ss = c.sreg .ss
  mem : ∀ x : Word, (x - (c.esp + 16)).toNat < 4 * n → c'.mem x = c.mem x

/-- The function is called in `c`, and the user goes on in `c'`. -/
structure Syscall.Served (y : Syscall) (fn : Word → Cpu → Cpu) (c c' : Cpu) : Prop where
  calls : y.calls = some c
  function : c.eip = y.function
  args : ∃ ws, Stack c ([y.back, y.s.reg .ebx, y.s.reg .ecx, y.s.reg .edx] ++ ws)
  resumes : y.resumes fn = some c'
  reg : c'.reg = Function.update y.s.reg .eax ((fn y.function c).reg .eax)
  sreg : c'.sreg = y.s.sreg
  eip : c'.eip = y.s.eip
  eflags : c'.eflags = y.s.eflags

/-! ## Up to the call -/

/-- What the handler pushes on the processor's frame. -/
def handlerWords (s : Cpu) : List Word :=
  [0, (s.sreg .ds).setWidth 32, (s.sreg .es).setWidth 32, (s.sreg .fs).setWidth 32, (s.sreg .gs).setWidth 32,
    s.reg .eax, s.reg .ecx, s.reg .edx, s.reg .ebx, s.esp - 4 - 4 - 4 - 4 - 4, s.reg .ebp, s.reg .esi, s.reg .edi,
    0x80, s.reg .edx, s.reg .ecx, s.reg .ebx]

theorem run_syscallHandler (s : Cpu) : run syscallHandler s = (handlerWords s).foldl Cpu.push s := rfl

variable {y : Syscall} {fn : Word → Cpu → Cpu}

/-- The words of `struct intr_stack` below the processor's frame, with `eax` for the user's. -/
def Syscall.context (y : Syscall) (espDummy eax : Word) : IntrStack where
  vecNo := 0x80
  edi := y.s.reg .edi
  esi := y.s.reg .esi
  ebp := y.s.reg .ebp
  espDummy := espDummy
  ebx := y.s.reg .ebx
  edx := y.s.reg .edx
  ecx := y.s.reg .ecx
  eax := eax
  gs := (y.s.sreg .gs).setWidth 32
  fs := (y.s.sreg .fs).setWidth 32
  es := (y.s.sreg .es).setWidth 32
  ds := (y.s.sreg .ds).setWidth 32
  errCode := 0
  eip := y.s.eip
  cs := (y.s.sreg .cs).setWidth 32
  eflags := y.s.eflags
  outer := some (y.s.esp, (y.s.sreg .ss).setWidth 32)

theorem Syscall.Valid.frame (hv : y.Valid) : y.s.frame =
    [y.s.eip, (y.s.sreg .cs).setWidth 32, y.s.eflags, y.s.esp, (y.s.sreg .ss).setWidth 32] := by
  unfold Cpu.frame
  rw [if_neg hv.user]
  rfl

theorem Syscall.Valid.atCall_stack (hv : y.Valid) : ∃ d, Stack y.atCall
    ([y.s.reg .ebx, y.s.reg .ecx, y.s.reg .edx] ++ (y.context d (y.s.reg .eax)).words) := by
  have hd := deliver_stack y.gate y.inner none y.s
  obtain ⟨hreg, -, hsreg, -⟩ := deliver_frame y.gate y.inner none y.s
  have hst := hd.pushes (handlerWords (deliver y.gate y.inner none y.s)) (by rw [hv.frame]; simp [handlerWords])
  rw [← run_syscallHandler, hv.frame] at hst
  unfold handlerWords at hst
  rw [hreg .edi (by decide), hreg .esi (by decide), hreg .ebp (by decide), hreg .ebx (by decide), hreg .edx (by decide),
    hreg .ecx (by decide), hreg .eax (by decide), hsreg .gs (by decide) (by decide), hsreg .fs (by decide) (by decide),
    hsreg .es (by decide) (by decide), hsreg .ds (by decide) (by decide)] at hst
  exact ⟨_, hst⟩

theorem Syscall.Valid.entered_stack (hv : y.Valid) : ∃ d, Stack y.entered
    ([y.back, y.s.reg .ebx, y.s.reg .ecx, y.s.reg .edx] ++ (y.context d (y.s.reg .eax)).words) := by
  obtain ⟨d, h⟩ := hv.atCall_stack
  exact ⟨d, h.callMem (by simp [IntrStack.words, Syscall.context]) _ y.back⟩

theorem Syscall.atCall_reg (y : Syscall) {r : Reg} (hr : r ≠ .esp) : y.atCall.reg r = y.s.reg r := by
  have hd := (deliver_frame y.gate y.inner none y.s).1 r hr
  unfold Syscall.atCall
  rw [run_syscallHandler, pushes_reg _ _ hr, hd]

theorem Syscall.entered_sreg (y : Syscall) : y.entered.sreg = (deliver y.gate y.inner none y.s).sreg := by
  unfold Syscall.entered Syscall.atCall
  rw [callMem_sreg, run_syscallHandler, pushes_sreg]

/-- The handler's call goes through the user's ds. -/
theorem Syscall.calls_eq (y : Syscall) : y.calls = if flatData (y.s.sreg .ds) then some y.entered else none := by
  have hstack : ∀ j ∈ syscallHandler, j.usesDs = false := by simp [syscallHandler, Instr.usesDs]
  have hds : y.atCall.sreg .ds = y.s.sreg .ds := by
    obtain ⟨-, -, hsreg, -⟩ := deliver_frame y.gate y.inner none y.s
    have hcall : y.entered.sreg = y.atCall.sreg := callMem_sreg ..
    rw [← hcall, y.entered_sreg, hsreg .ds (by decide) (by decide)]
  unfold Syscall.calls
  rw [execute_run hstack, Option.bind_eq_bind, Option.bind_some, ← Syscall.atCall, step_callMem, hds, ← Syscall.entered]

theorem Syscall.resumes_eq (y : Syscall) (fn : Word → Cpu → Cpu) :
    y.resumes fn = if flatData (y.s.sreg .ds) then some (y.left fn) else none := by
  unfold Syscall.resumes Syscall.left
  rw [y.calls_eq]
  by_cases hds : flatData (y.s.sreg .ds) = true
  · rw [if_pos hds, if_pos hds, Option.bind_eq_bind, Option.bind_some, execute_run intrExit_stack]
  · rw [if_neg hds, if_neg hds, Option.bind_eq_bind, Option.bind_none]

/-- Interrupt delivery to the user's kernel stack is five pushes. -/
theorem Syscall.Valid.deliver_mem (hv : y.Valid) : ∃ ws : List Word, ws.length = 5 ∧
    (deliver y.gate y.inner none y.s).esp =
      (ws.foldl Cpu.push ((y.s.setReg .esp y.inner.esp0).setSreg .ss y.inner.ss0)).esp ∧
    (deliver y.gate y.inner none y.s).mem =
      (ws.foldl Cpu.push ((y.s.setReg .esp y.inner.esp0).setSreg .ss y.inner.ss0)).mem := by
  refine ⟨[(y.s.sreg .ss).setWidth 32, y.s.esp, y.s.eflags, (y.s.sreg .cs).setWidth 32, y.s.eip], rfl, ?_, ?_⟩
  · unfold deliver
    simp only [if_neg hv.user]
    rfl
  · unfold deliver
    simp only [if_neg hv.user]
    rfl

/-- Until the call only 88 bytes of the kernel stack change. -/
theorem Syscall.Valid.atCall_mem (hv : y.Valid) {x : Word} (hx : 88 ≤ (x - (y.inner.esp0 - 88)).toNat) :
    y.atCall.mem x = y.s.mem x := by
  obtain ⟨ws, hws, hesp, hmem⟩ := hv.deliver_mem
  have h0 : ((y.s.setReg .esp y.inner.esp0).setSreg .ss y.inner.ss0).esp = y.inner.esp0 := setReg_same y.s .esp _
  have hesp' : (deliver y.gate y.inner none y.s).esp = y.inner.esp0 - 20 := by
    rw [hesp, pushes_esp, hws, h0]
    rfl
  have h17 : (handlerWords (deliver y.gate y.inner none y.s)).length = 17 := rfl
  have h1 : y.atCall.mem x = (deliver y.gate y.inner none y.s).mem x := by
    unfold Syscall.atCall
    rw [run_syscallHandler]
    apply pushes_mem (handlerWords _) _ (by rw [h17]; decide)
    rw [h17, hesp']
    bv_omega
  rw [h1, hmem]
  apply pushes_mem ws _ (by rw [hws]; decide)
  rw [hws, h0]
  bv_omega

/-- The entry of the table is read while arguments are already on the stack. -/
theorem Syscall.Valid.entered_eip (hv : y.Valid) : y.entered.eip = y.function := by
  have heip : y.entered.eip = y.atCall.mem.read32 (y.syscallTable + y.atCall.reg .eax * 4) := rfl
  rw [heip, y.atCall_reg (by decide)]
  apply Ram.read32_congr
  intro x hx
  refine hv.atCall_mem (hv.apart x ?_)
  have hn := hv.number
  have hfit := hv.fits
  have h4 : (y.s.reg .eax * 4).toNat = 4 * (y.s.reg .eax).toNat := by
    rw [BitVec.toNat_mul, Nat.mod_eq_of_lt (by simp; omega)]
    simp [Nat.mul_comm]
  have hsplit : x - y.syscallTable = x - (y.syscallTable + y.s.reg .eax * 4) + y.s.reg .eax * 4 := by grind
  rw [hsplit, BitVec.toNat_add, h4]
  omega

/-! ## From the call on -/

/-- `storeResult` finds the word from which `popad` takes eax. -/
theorem Syscall.storeResult_stack {c : Cpu} {d eax : Word} (hf : Returned 19 y.entered c)
    (h : Stack y.entered ([y.back, y.s.reg .ebx, y.s.reg .ecx, y.s.reg .edx] ++ (y.context d eax).words)) :
    Stack (storeResult c) (y.context d (c.reg .eax)).words := by
  have hwords : Words y.entered.mem (y.entered.esp + 16) (y.context d eax).words := by
    have h16 : y.entered.esp + 16 = y.entered.esp + 4 + 4 + 4 + 4 := by grind
    rw [h16]
    exact h.2.2.2.2
  have hesp : (storeResult c).esp = y.entered.esp + 16 := by
    have hadd : (storeResult c).esp = c.esp + 12 := setReg_same c .esp _
    rw [hadd, hf.esp]
    grind
  have hmem : (storeResult c).mem = c.mem.write32 (y.entered.esp + 16 + BitVec.ofNat 32 (4 * 8)) (c.reg .eax) := by
    have hstore : (storeResult c).mem = c.mem.write32 ((storeResult c).esp + 8 * 4) (c.reg .eax) := rfl
    rw [hstore, hesp]
    rfl
  unfold Stack
  rw [hesp, hmem]
  have hkept : Words c.mem (y.entered.esp + 16) (y.context d eax).words := hwords.congr (by simp [IntrStack.words, Syscall.context]) hf.mem
  exact Words.write [0x80, y.s.reg .edi, y.s.reg .esi, y.s.reg .ebp, d, y.s.reg .ebx, y.s.reg .edx, y.s.reg .ecx] hkept
    (by simp [Syscall.context]) (c.reg .eax)

/-- Only eax is not the user's. -/
theorem Syscall.Valid.served (hv : y.Valid) (hfn : Returned 19 y.entered (fn y.function y.entered))
    (hds : flatData (y.s.sreg .ds) = true) : y.Served fn y.entered (y.left fn) := by
  obtain ⟨d, hst⟩ := hv.entered_stack
  obtain ⟨-, hgate, -, -⟩ := deliver_frame y.gate y.inner none y.s
  obtain ⟨u, hu, hr, hframe⟩ := intrExit_restored (Syscall.storeResult_stack hfn hst)
  have hleft : y.left fn = u.iretd := by
    unfold Syscall.left
    rw [hv.entered_eip]
    exact hu
  have hucs : Cpu.level (u.sreg .cs) = 0 := by
    have hcs : (storeResult (fn y.function y.entered)).sreg .cs = (fn y.function y.entered).sreg .cs := rfl
    rw [hr.cs, hcs, hfn.cs, y.entered_sreg, hgate, hv.kernel]
  have hframe' : Stack u ([y.s.eip, (y.s.sreg .cs).setWidth 32, y.s.eflags, y.s.esp, (y.s.sreg .ss).setWidth 32] ++ []) := hframe
  obtain ⟨heip, hflags, hregs, hsregs⟩ := iretd_outer hframe' (by
    rw [setWidth_back, hucs]
    exact hv.user)
  refine ⟨?_, hv.entered_eip, ⟨_, hst⟩, ?_, ?_, ?_, hleft ▸ heip, hleft ▸ hflags⟩
  · rw [y.calls_eq, if_pos hds]
  · rw [y.resumes_eq, if_pos hds]
  · rw [hleft, hregs]
    funext r
    cases r with
    | eax => exact hr.eax
    | ecx => exact hr.ecx
    | edx => exact hr.edx
    | ebx => exact hr.ebx
    | esp => rfl
    | ebp => exact hr.ebp
    | esi => exact hr.esi
    | edi => exact hr.edi
  · rw [hleft, hsregs]
    funext r
    cases r with
    | es => exact hr.es.trans (setWidth_back _)
    | cs => exact setWidth_back _
    | ss => exact setWidth_back _
    | ds => exact hr.ds.trans (setWidth_back _)
    | fs => exact hr.fs.trans (setWidth_back _)
    | gs => exact hr.gs.trans (setWidth_back _)

/-- With a null selector in ds the call faults before it has read the table. -/
theorem syscall_served_iff (hv : y.Valid) (hfn : Returned 19 y.entered (fn y.function y.entered)) :
    (∃ c c', y.Served fn c c') ↔ flatData (y.s.sreg .ds) = true := by
  constructor
  · rintro ⟨c, c', h⟩
    by_contra hds
    have hcalls := h.calls
    rw [y.calls_eq, if_neg hds] at hcalls
    cases hcalls
  · intro hds
    exact ⟨y.entered, y.left fn, hv.served hfn hds⟩

/-- `getpid` in a user program with the selector `ds`: the table has one function. -/
def getpidCall (ds : BitVec 16) : Syscall where
  s := {
    reg := fun r => if r = .eax then 0 else 0xbffffff0
    sreg := fun r => if r = .cs then 0x2b else if r = .ds then ds else 0x33
    eip := 0x8048000
    eflags := 0x202
    mem := Ram.write32 (fun _ => 0) 0xc0006000 0xc0002000 }
  gate := { selector := 0x8, offset := 0xc0001b00 }
  inner := { ss0 := 0x10, esp0 := 0xc0101000 }
  syscallTable := 0xc0006000
  entries := 1
  back := 0xc0001b20

/-- The function at 0xc0002000 returns 5. -/
def sysGetpid (a : Word) (c : Cpu) : Cpu := if a = 0xc0002000 then (returns c).setReg .eax 5 else c

theorem returns_returned (n : Nat) (c : Cpu) (v : Word) : Returned n c ((returns c).setReg .eax v) := by
  obtain ⟨hesp, heip, hreg, hcs, hss, -⟩ := returns_cdecl n c
  refine ⟨?_, heip, ?_, hcs, hss, fun _ _ => rfl⟩
  · exact (setReg_ne _ v (by decide)).trans hesp
  · intro r hr
    have hne : r ≠ .eax := by
      intro he
      simp [he] at hr
    exact (setReg_ne _ v hne).trans (hreg r hr)

theorem getpidCall_valid (ds : BitVec 16) : (getpidCall ds).Valid where
  user := by
    show Cpu.level 0x2b ≠ 0
    decide
  kernel := by
    show Cpu.level 0x8 = 0
    decide
  number := by
    show (0 : Word).toNat < 1
    decide
  fits := by
    show 4 * 1 ≤ 2 ^ 32
    decide
  apart := by
    intro x hx
    simp only [getpidCall] at hx ⊢
    bv_omega

theorem getpidCall_function (ds : BitVec 16) : (getpidCall ds).function = 0xc0002000 := Ram.read32_write32 ..

theorem getpidCall_returned (ds : BitVec 16) :
    sysGetpid (getpidCall ds).function (getpidCall ds).entered = (returns (getpidCall ds).entered).setReg .eax 5 := by
  rw [getpidCall_function]
  exact if_pos rfl

theorem getpid_result : ∃ c c', (getpidCall 0x33).Served sysGetpid c c' ∧ c'.reg .eax = 5 ∧ c'.reg .ecx = 0xbffffff0 := by
  have hret : Returned 19 (getpidCall 0x33).entered (sysGetpid (getpidCall 0x33).function (getpidCall 0x33).entered) := by
    rw [getpidCall_returned]
    exact returns_returned 19 (getpidCall 0x33).entered 5
  obtain ⟨c, c', h⟩ := (syscall_served_iff (getpidCall_valid 0x33) hret).mpr (by decide)
  have hcalls := h.calls
  rw [Syscall.calls_eq, if_pos (by decide), Option.some.injEq] at hcalls
  refine ⟨c, c', h, ?_, ?_⟩
  · rw [h.reg, ← hcalls, getpidCall_returned, Function.update_self, setReg_same]
  · rw [h.reg, Function.update_of_ne (by decide)]
    rfl

/-- A user program may load 0 into ds. -/
theorem getpid_faults : (getpidCall 0).Valid ∧
    Returned 19 (getpidCall 0).entered (sysGetpid (getpidCall 0).function (getpidCall 0).entered) ∧
    (getpidCall 0).calls = none ∧ ¬ ∃ c c', (getpidCall 0).Served sysGetpid c c' := by
  have hcalls : (getpidCall 0).calls = none := by
    rw [Syscall.calls_eq]
    rfl
  refine ⟨getpidCall_valid 0, ?_, hcalls, ?_⟩
  · rw [getpidCall_returned]
    exact returns_returned 19 (getpidCall 0).entered 5
  · rintro ⟨c, c', h⟩
    rw [h.calls] at hcalls
    cases hcalls

end TinyOs.Kernel
