/-
  TinyOs.Thread.Preempted — a thread that is interrupted does not see it.

  The timer's handler calls `schedule`, and the thread that it has interrupted runs
  again when some other thread switches back to it, in a call of `switch_to` that it
  made itself, on its own stack, below the registers that the entry stub has saved.
  What the handler's code does around that call is the compiler's: `Around` is what it
  promises where `switch_to` returns as it was called.

  - `preempted_unseen`: whatever runs in between, the interrupted code goes on with its
    registers, its flags and its stack, if the stub gets to the handler and the
    processor's pushes have room in the thread's own page. For a user program esp0 would
    have to point there, which it never does (`TinyOs.Userprog.Process`).
-/

import TinyOs.Kernel.InterruptEntry
import TinyOs.Thread.SwitchTo

namespace TinyOs.Thread.SwitchTo

open TinyOs.Kernel TinyOs.Logic.X86

/-! ## The handler -/

/-- At the first instruction of a function with one argument, on the stack of `t`: `n` bytes are left below,
and above the argument the caller has `k` words. -/
structure OnStack (t : Word) (n k : Nat) (c : Cpu) : Prop where
  room : sizeofTaskStruct + n ≤ (c.esp - t).toNat
  inPage : (c.esp - t).toNat + 8 + 4 * k ≤ 4096

/-- That function has returned. -/
structure Back (t : Word) (c c' : Cpu) : Prop where
  esp : c'.esp = c.esp + 4
  eip : c'.eip = c.top
  reg : ∀ r ∈ [Reg.ebx, .esi, .edi, .ebp], c'.reg r = c.reg r
  cs : c'.sreg .cs = c.sreg .cs
  ss : c'.sreg .ss = c.sreg .ss
  stack : ∀ x : Word, (c.esp - t).toNat + 8 ≤ (x - t).toNat → (x - t).toNat < 4096 → c'.mem x = c.mem x

/-- The code of a function before its call of `switch_to`, and after it. -/
def Around (t : Word) (n k : Nat) (before after : Cpu → Cpu) : Prop :=
  ∀ c c', OnStack t n k c → Returned t (before c) c' → c'.sreg .cs = (before c).sreg .cs →
    c'.sreg .ss = (before c).sreg .ss → Back t c (after c')

/-- The stack that the processor pushes to is that of `t`, with `n` bytes for the handler. -/
structure Lands (t : Word) (n : Nat) (i : Interrupt) : Prop where
  room : sizeofTaskStruct + n + 4 * (i.saved + 2) ≤ ((i.inner.entry i.s).esp - t).toNat
  inPage : ((i.inner.entry i.s).esp - t).toNat ≤ 4096

/-- `c'` goes on where `c` was, and a thread of level 0 has its stack. -/
structure Unseen (t : Word) (c c' : Cpu) : Prop where
  reg : c'.reg = c.reg
  sreg : c'.sreg = c.sreg
  eip : c'.eip = c.eip
  eflags : c'.eflags = c.eflags
  stack : Cpu.level (c.sreg .cs) = 0 → ∀ x : Word, (c.esp - t).toNat ≤ (x - t).toNat → (x - t).toNat < 4096 →
    c'.mem x = c.mem x

/-! ## What the entry pushes -/

theorem VectorKind.grown (kind : VectorKind) {n : Nat} {s s' : Cpu} (h : Grown n s s') (hl : n ≤ 100) :
    Grown (n + kind.words.length) s (kind.instr.exec s') := by
  cases kind with
  | errorCode => exact h
  | zero => exact h.push (by omega) 0

theorem saveContext_grown {n : Nat} {s s' : Cpu} (h : Grown n s s') (hl : n ≤ 100) (v : Nat) :
    Grown (n + 13) s (run (saveContext v) s') := by
  have hsegs := (((h.push (by omega) ((s'.sreg .ds).setWidth 32)).push (by omega) ((s'.sreg .es).setWidth 32)).push
    (by omega) ((s'.sreg .fs).setWidth 32)).push (by omega) ((s'.sreg .gs).setWidth 32)
  have hall := (hsegs.pushad (by omega)).setReg (r := .eax) (by decide)
  exact (hall _).push (by omega) (BitVec.ofNat 32 v)

theorem Interrupt.grown (i : Interrupt) : Grown (i.saved + 2) (i.inner.entry i.s) i.entered := by
  have hsaved := i.saved_eq 0
  have hle := i.saved_le
  rw [List.length_append, show (i.context12 0).length = 12 from rfl] at hsaved
  unfold Interrupt.above at hsaved
  rw [List.length_append, List.length_append] at hsaved
  have hd := deliver_grown i.gate i.inner i.err i.s
  have hcall := (saveContext_grown (VectorKind.grown i.kind hd (by omega)) (by omega) i.v).push (by omega) i.back
  rw [show i.s.frame.length + i.err.toList.length + i.kind.words.length + 13 + 1 = i.saved + 2 by omega] at hcall
  rw [i.entered_eq]
  exact ⟨hcall.esp, hcall.mem⟩

variable {i : Interrupt} {t : Word} {n k : Nat} {before after : Cpu → Cpu} {l : Links} {s s' : Sys}

theorem Lands.onStack (h : Lands t n i) : OnStack t n i.saved i.entered := by
  have hesp := (Interrupt.grown i).esp
  have hroom := h.room
  have hpage := h.inPage
  have hle := i.saved_le
  have hk := bytes_toNat (n := i.saved + 2) (by omega)
  constructor
  · rw [hesp]
    bv_omega
  · rw [hesp]
    bv_omega

theorem intrExit_mem (c : Cpu) : (run intrExit c).mem = c.mem := by
  show (Cpu.iretd _).mem = _
  unfold Cpu.iretd
  dsimp only
  split <;> rfl

/-- A handler that has returned this once: `intr_exit` restores what the stub has saved. -/
theorem Back.restored {c : Cpu} (h : Back t i.entered c) (ha : i.Arrives) (hv : i.v ≠ 0x0c) (hon : OnStack t n i.saved i.entered) :
    (run intrExit c).reg = i.s.reg ∧ (run intrExit c).sreg = i.s.sreg ∧ (run intrExit c).eip = i.s.eip ∧
      (run intrExit c).eflags = i.s.eflags := by
  have hroom := hon.room
  have hpage := hon.inPage
  classical
  -- entered anywhere else, it returns at once
  have hf : Cdecl i.saved (Function.update returns i.entered c) := by
    intro d
    by_cases hd : d = i.entered
    · rw [hd, Function.update_self]
      refine ⟨h.esp, h.eip, h.reg, h.cs, h.ss, fun x hx => h.stack x ?_ ?_⟩ <;> bv_omega
    · rw [Function.update_of_ne hd]
      exact returns_cdecl _ d
  have hleft : i.left (fun _ => Function.update returns i.entered c) = run intrExit c := by
    show run intrExit (Function.update returns i.entered c i.entered) = _
    rw [Function.update_self]
  rw [← hleft]
  exact (ha.fits hv).left ha.level hf

/-- Whoever runs in between, and for however long. -/
theorem preempted_unseen {c : Cpu} (ha : i.Arrives) (hv : i.v ≠ 0x0c) (hc : i.calls = some c) (ht : Lands s.cur n i)
    (hf : Around s.cur n i.saved before after) (hs : s.cpu = before c) (hr : Returns l s s')
    (hcs : s'.cpu.sreg .cs = s.cpu.sreg .cs) (hss : s'.cpu.sreg .ss = s.cpu.sreg .ss) :
    ∃ c', execute flatData intrExit (after s'.cpu) = some c' ∧ Unseen s.cur i.s c' := by
  have hentered : i.entered = c := by
    rw [i.calls_eq, Option.ite_none_right_eq_some, Option.some.injEq] at hc
    exact hc.2
  rw [← hentered] at hs
  refine ⟨run intrExit (after s'.cpu), execute_run intrExit_stack _, ?_⟩
  have hon := ht.onStack
  have hret := hr.returned
  rw [hs] at hret hcs hss
  have hback := hf i.entered s'.cpu hon hret hcs hss
  obtain ⟨hreg, hsreg, heip, hflags⟩ := hback.restored ha hv hon
  refine ⟨hreg, hsreg, heip, hflags, fun hl x hlo hhi => ?_⟩
  have hg := Interrupt.grown i
  rw [show i.inner.entry i.s = i.s from if_pos hl] at hg
  have hesp := hg.esp
  have hroom := ht.room
  rw [show i.inner.entry i.s = i.s from if_pos hl] at hroom
  have hle := i.saved_le
  have hk := bytes_toNat (n := i.saved + 2) (by omega)
  rw [intrExit_mem, hback.stack x (by bv_omega) hhi]
  exact hg.mem x (by bv_omega)

/-! ## A run -/

/-- `push next; push cur; call switch_to`, with the address of `switch_to` at `a`. -/
def callSwitchTo (a cur next ret : Word) : List Instr := [.pushImm next, .pushImm cur, .callMem a ret]

/-- The two arguments are taken off, and the function returns. -/
def afterSwitchTo : List Instr := [.addEsp 8, .ret]

theorem callSwitchTo_grown (a cur next ret : Word) (c : Cpu) : Grown 3 c (run (callSwitchTo a cur next ret) c) := by
  have hcall := (((Grown.refl c).push (by decide) next).push (by decide) cur).push (by decide) ret
  exact ⟨hcall.esp, hcall.mem⟩

theorem around_switchTo (a cur next ret : Word) (hn : 12 ≤ n) :
    Around t n k (run (callSwitchTo a cur next ret)) (run afterSwitchTo) := by
  intro c c' hon hret hcs hss
  have hg := callSwitchTo_grown a cur next ret c
  have hroom := hon.room
  have hpage := hon.inPage
  unfold sizeofTaskStruct at hroom
  have hcall : (run (callSwitchTo a cur next ret) c).esp = c.esp - 12 := hg.esp
  have hesp : c'.esp + 8 = c.esp := by
    rw [hret.esp, hcall]
    grind
  -- what is on the stack above the two arguments and the return address
  have hmem : ∀ x : Word, (c.esp - t).toNat ≤ (x - t).toNat → (x - t).toNat < 4096 → c'.mem x = c.mem x := by
    intro x hlo hhi
    rw [hret.stack x (by rw [hcall]; bv_omega) hhi]
    exact hg.mem x (by rw [hcall]; bv_omega)
  have hkeep : ∀ r, r ≠ .esp → (run afterSwitchTo c').reg r = c'.reg r ∧ (run (callSwitchTo a cur next ret) c).reg r = c.reg r := by
    intro r hr
    constructor
    · simp [afterSwitchTo, run, Instr.exec, Cpu.drop, hr]
    · simp [callSwitchTo, run, Instr.exec, hr]
  have htop : c'.mem.read32 c.esp = c.mem.read32 c.esp :=
    Ram.read32_congr fun x hx => hmem x (by bv_omega) (by bv_omega)
  refine ⟨?_, ?_, ?_, hcs, hss, fun x hlo hhi => hmem x (by omega) hhi⟩
  · show (c'.setReg .esp (c'.esp + 8)).drop.reg .esp = _
    rw [hesp]
    simp [Cpu.drop]
  · show (c'.setReg .esp (c'.esp + 8)).top = _
    rw [hesp]
    simpa [Cpu.top] using htop
  · intro r hr
    have hne : r ≠ .esp := by
      rintro rfl
      simp at hr
    obtain ⟨h1, h2⟩ := hkeep r hne
    rw [h1, ← h2]
    simp only [List.mem_cons, List.not_mem_nil, or_false] at hr
    rcases hr with rfl | rfl | rfl | rfl
    · exact hret.ebx
    · exact hret.esi
    · exact hret.edi
    · exact hret.ebp

theorem callSwitchTo_calls {a next ret : Word} {c : Cpu} (hs : s.cpu = run (callSwitchTo a s.cur next ret) c)
    (hon : OnStack s.cur 28 k c) (hn : next ∈ s.threads) : s.Calls next := by
  have hg := callSwitchTo_grown a s.cur next ret c
  have hnil : Stack c [] := trivial
  obtain ⟨-, hcur, hnext, -⟩ := ((hnil.push (by decide) next).push (by simp) s.cur).push (by simp) ret
  rw [← hs] at hg
  have hesp : s.cpu.esp = c.esp - 12 := hg.esp
  have hroom := hon.room
  have hpage := hon.inPage
  unfold sizeofTaskStruct at hroom
  have hmem : s.cpu.mem = (((c.push next).push s.cur).push ret).mem := by rw [hs]; rfl
  have hat : (((c.push next).push s.cur).push ret).esp = s.cpu.esp := by rw [hs]; rfl
  rw [hat, ← hmem] at hcur hnext
  refine ⟨hn, hcur, ?_, ?_, ?_⟩
  · rw [show s.cpu.esp + 8 = s.cpu.esp + 4 + 4 by grind]
    exact hnext
  · unfold sizeofTaskStruct
    rw [hesp]
    bv_omega
  · rw [hesp]
    bv_omega

/-- The main thread, when there is another, is interrupted by the timer. -/
def tick : Interrupt where
  v := 0x20
  err := none
  s := (alone.create links threadA alone_takes).cpu
  gate := { selector := 0x8, offset := 0xc0001500 }
  inner := { ss0 := 0x10, esp0 := 0xc009f000 }
  idtTable := 0xc0005000
  back := 0xc0001540

theorem tick_lands : Lands 0xc009e000 28 tick := ⟨by decide, by decide⟩

/-- The handler calls `switch_to`. -/
def ticked : Sys :=
  { alone.create links threadA alone_takes with
    cpu := run (callSwitchTo 0xc0006000 0xc009e000 threadA.thread 0xc0001600) tick.entered }

theorem ticked_calls : ticked.Calls threadA.thread := callSwitchTo_calls rfl tick_lands.onStack (Set.mem_insert _ _)

def resumed : Sys := (ticked.switch _ ticked_calls).calling 0xc009e000

theorem resumed_calls : resumed.Calls 0xc009e000 := Sys.calling_calls _ (Set.mem_insert_of_mem _ rfl)

theorem ticked_returns : Returns links ticked (resumed.switch _ resumed_calls) := by
  refine .inr ⟨threadA.thread, _, resumed, by decide, .switch _ _ ticked_calls, ?_, .switch _ _ resumed_calls⟩
  exact .single ⟨.own, Act.noConfusion, Sys.own_calling _ _ _⟩

theorem ticked_unseen : ∃ c, execute flatData intrExit (run afterSwitchTo (resumed.switch _ resumed_calls).cpu) = some c ∧
    Unseen 0xc009e000 tick.s c := by
  have hcalls : tick.calls = some tick.entered := by
    rw [Interrupt.calls_eq]
    exact if_pos (by decide)
  exact preempted_unseen (i := tick) (s := ticked) ⟨.inr (by decide), rfl, rfl⟩ (by decide) hcalls tick_lands
    (around_switchTo _ _ _ _ (by decide)) rfl ticked_returns rfl rfl

end TinyOs.Thread.SwitchTo
