/-
  TinyOs.Thread.SwitchTo — what `switch_to` keeps (thread/switch.S, thread/thread.c).

  `switch_to` pushes the callee-saved registers, stores esp at the start of the running
  thread's PCB and goes on with what it finds in the next thread's page. Between a
  thread's call and its return, any number of other threads run, create threads and
  switch; they write what they like but the page of a suspended thread.

  A thread's page above the PCB and the stack pointer at its start are unchanged while
  the thread is suspended (`Away.kept`). So
  - `switch_to_returns`: a call returns to the caller's frame and registers, and the
    first switch to a new thread arrives in `kernel_thread` with its two arguments.
-/

import Mathlib.Data.Set.Insert
import Mathlib.Logic.Relation
import TinyOs.Lib.String

namespace TinyOs.Thread.SwitchTo

open TinyOs.Lib TinyOs.Logic.X86

/-! ## The code -/

/-- `switch_to` up to the store of the stack pointer. -/
def backup : List Instr :=
  [.pushReg .esi, .pushReg .edi, .pushReg .ebx, .pushReg .ebp, .load .eax .esp 20, .store .eax .esp]

def restore : List Instr :=
  [.load .eax .esp 24, .load .esp .eax 0, .popReg .ebp, .popReg .ebx, .popReg .edi, .popReg .esi, .ret]

def switchTo : List Instr := backup ++ restore

/-! `struct task_struct`: self_kstack 0, status 4, name 8, priority 24, ticks 25, elapsed_ticks 28, general_tag 32,
all_list_tag 40, pgdir 48, userprog_vaddr 52, stack_magic 64. -/

def sizeofTaskStruct : Nat := 68

/-- `struct intr_stack`, in bytes. -/
def sizeofIntrStack : Word := 76

/-- `struct thread_stack`: ebp 0, ebx 4, edi 8, esi 12, eip 16, unused_retaddr 20, function 24, func_arg 28. -/
def sizeofThreadStack : Word := 32

def initThread (mainThread pthread : Word) (name : List (BitVec 8)) (prio : Word) (m : Ram) : Ram :=
  let m := memset pthread 0 sizeofTaskStruct m
  let m := strcpy (pthread + 8) name m
  let m := m.write32 (pthread + 4) (if pthread = mainThread then 0 else 1)
  let m := m.write32 pthread (pthread + 4096)
  let m := m.write8 (pthread + 24) (prio.setWidth 8)
  let m := m.write8 (pthread + 25) (prio.setWidth 8)
  let m := m.write32 (pthread + 28) 0
  let m := m.write32 (pthread + 48) 0
  m.write32 (pthread + 64) 0x19870916

/-- `self_kstack` is a `uint32_t*`: what is subtracted counts words. -/
def threadCreate (kernelThread pthread function funcArg : Word) (m : Ram) : Ram :=
  let m := m.write32 pthread (m.read32 pthread - 4 * sizeofIntrStack)
  let m := m.write32 pthread (m.read32 pthread - 4 * sizeofThreadStack)
  let kthreadStack := m.read32 pthread
  let m := m.write32 (kthreadStack + 16) kernelThread
  let m := m.write32 (kthreadStack + 24) function
  let m := m.write32 (kthreadStack + 28) funcArg
  let esi := m.read32 (kthreadStack + 12)
  let m := m.write32 (kthreadStack + 8) esi
  let m := m.write32 (kthreadStack + 4) esi
  m.write32 kthreadStack esi

/-! ## Threads -/

/-- The thread at `t` finds its saved stack pointer, and its page above the PCB, as in `m`. -/
def Kept (t : Word) (m m' : Ram) : Prop :=
  ∀ x : Word, (x - t).toNat < 4 ∨ sizeofTaskStruct ≤ (x - t).toNat ∧ (x - t).toNat < 4096 → m' x = m x

structure Sys where
  cpu : Cpu
  /-- The running thread. -/
  cur : Word
  threads : Set Word
  cur_mem : cur ∈ threads
  aligned : ∀ t ∈ threads, t.toNat % 4096 = 0

/-- The running thread is at the first instruction of `switch_to(cur, next)`, and its stack stays clear of its PCB. -/
structure Sys.Calls (s : Sys) (next : Word) : Prop where
  next_mem : next ∈ s.threads
  cur_arg : s.cpu.mem.read32 (s.cpu.esp + 4) = s.cur
  next_arg : s.cpu.mem.read32 (s.cpu.esp + 8) = next
  room : sizeofTaskStruct + 16 ≤ (s.cpu.esp - s.cur).toNat
  inPage : (s.cpu.esp - s.cur).toNat + 12 ≤ 4096

/-- The arguments of `init_thread` and `thread_create` for the page `thread`. -/
structure New where
  thread : Word
  name : List (BitVec 8)
  prio : Word
  function : Word
  funcArg : Word

/-- A page that is no thread's, and a name that ends in it; `memset` asserts that it is not NULL. -/
structure Sys.Takes (s : Sys) (n : New) : Prop where
  fresh : n.thread ∉ s.threads
  nonNull : n.thread ≠ 0
  aligned : n.thread.toNat % 4096 = 0
  name : 8 + n.name.length < 4096

inductive Act where
  /-- The running thread executes code of its own. -/
  | own
  | create (n : New)
  | switch (next : Word)

/-- Where the linker and the loader have put things. -/
structure Links where
  mainThread : Word
  kernelThread : Word

def New.prepare (n : New) (l : Links) (m : Ram) : Ram :=
  threadCreate l.kernelThread n.thread n.function n.funcArg (initThread l.mainThread n.thread n.name n.prio m)

def Sys.create (s : Sys) (l : Links) (n : New) (h : s.Takes n) : Sys where
  cpu := { s.cpu with mem := n.prepare l s.cpu.mem }
  cur := s.cur
  threads := insert n.thread s.threads
  cur_mem := Set.mem_insert_of_mem _ s.cur_mem
  aligned := Set.forall_mem_insert.mpr ⟨h.aligned, s.aligned⟩

def Sys.switch (s : Sys) (next : Word) (h : s.Calls next) : Sys where
  cpu := run switchTo s.cpu
  cur := next
  threads := s.threads
  cur_mem := h.next_mem
  aligned := s.aligned

inductive Step (l : Links) : Act → Sys → Sys → Prop
  | own (s : Sys) (c : Cpu) (h : ∀ t ∈ s.threads, t ≠ s.cur → Kept t s.cpu.mem c.mem) : Step l .own s { s with cpu := c }
  | create (s : Sys) (n : New) (h : s.Takes n) : Step l (.create n) s (s.create l n h)
  | switch (s : Sys) (next : Word) (h : s.Calls next) : Step l (.switch next) s (s.switch next h)

/-- Any steps in which nobody switches to `t`. -/
def Away (l : Links) (t : Word) : Sys → Sys → Prop := Relation.ReflTransGen fun s s' => ∃ a, a ≠ .switch t ∧ Step l a s s'

/-! ## The two halves of the switch -/

/-- The memory after the four pushes. -/
def pushed (c : Cpu) : Ram :=
  (((c.mem.write32 (c.esp - 4) (c.reg .esi)).write32 (c.esp - 8) (c.reg .edi)).write32 (c.esp - 12) (c.reg .ebx)).write32
    (c.esp - 16) (c.reg .ebp)

theorem backup_eq (c : Cpu) : (run backup c).esp = c.esp - 16 ∧
    (run backup c).mem = (pushed c).write32 ((pushed c).read32 (c.esp + 4)) (c.esp - 16) := by
  have h8 : c.reg .esp - 4#32 - 4#32 = c.reg .esp - 8#32 := by grind
  have h12 : c.reg .esp - 8#32 - 4#32 = c.reg .esp - 12#32 := by grind
  have h16 : c.reg .esp - 12#32 - 4#32 = c.reg .esp - 16#32 := by grind
  have h20 : c.reg .esp - 16#32 + 20#32 = c.reg .esp + 4#32 := by grind
  constructor
  · simp [backup, run, Instr.exec, Cpu.esp, h8, h12, h16]
  · simp [backup, run, Instr.exec, Cpu.push, Cpu.esp, pushed, h8, h12, h16, h20]

/-- What `restore` finds at the next thread's stack pointer. -/
theorem restore_eq {c : Cpu} {next k : Word} (hn : c.mem.read32 (c.esp + 24) = next) (hk : c.mem.read32 next = k) :
    (run restore c).esp = k + 20 ∧ (run restore c).eip = c.mem.read32 (k + 16) ∧
      (run restore c).reg .ebp = c.mem.read32 k ∧ (run restore c).reg .ebx = c.mem.read32 (k + 4) ∧
      (run restore c).reg .edi = c.mem.read32 (k + 8) ∧ (run restore c).reg .esi = c.mem.read32 (k + 12) ∧
      (run restore c).mem = c.mem := by
  unfold Cpu.esp at hn
  subst hn hk
  simp [restore, run, Instr.exec, Cpu.popReg, Cpu.drop, Cpu.top, Cpu.esp, BitVec.add_assoc]

variable {c : Cpu}

theorem pushed_above {x : Word} (h : 16 ≤ (x - (c.esp - 16)).toNat) : pushed c x = c.mem x := by
  unfold pushed
  rw [Ram.write32_far (by bv_omega), Ram.write32_far (by bv_omega), Ram.write32_far (by bv_omega),
    Ram.write32_far (by bv_omega)]

theorem pushed_word (k : Word) (hk : k.toNat ≤ 0xffffffec) : (pushed c).read32 (c.esp + k) = c.mem.read32 (c.esp + k) := by
  apply Ram.read32_congr
  intro x hx
  exact pushed_above (by bv_omega)

/-- The registers as `restore` pops them. -/
theorem pushed_regs : (pushed c).read32 (c.esp - 16) = c.reg .ebp ∧ (pushed c).read32 (c.esp - 16 + 4) = c.reg .ebx ∧
    (pushed c).read32 (c.esp - 16 + 8) = c.reg .edi ∧ (pushed c).read32 (c.esp - 16 + 12) = c.reg .esi := by
  have h4 : c.esp - 16 + 4 = c.esp - 12 := by grind
  have h8 : c.esp - 16 + 8 = c.esp - 8 := by grind
  have h12 : c.esp - 16 + 12 = c.esp - 4 := by grind
  unfold pushed
  rw [h4, h8, h12]
  refine ⟨Ram.read32_write32 _ _ _, ?_, ?_, ?_⟩
  · rw [Ram.read32_write32_ne (by bv_omega) (by bv_omega), Ram.read32_write32]
  · rw [Ram.read32_write32_ne (by bv_omega) (by bv_omega), Ram.read32_write32_ne (by bv_omega) (by bv_omega),
      Ram.read32_write32]
  · rw [Ram.read32_write32_ne (by bv_omega) (by bv_omega), Ram.read32_write32_ne (by bv_omega) (by bv_omega),
      Ram.read32_write32_ne (by bv_omega) (by bv_omega), Ram.read32_write32]

/-! ## A suspended thread -/

/-- What the call that `t` has made in `c` leaves for its return. -/
structure Saved (t : Word) (c : Cpu) (m : Ram) : Prop where
  kstack : m.read32 t = c.esp - 16
  ebp : m.read32 (c.esp - 16) = c.reg .ebp
  ebx : m.read32 (c.esp - 16 + 4) = c.reg .ebx
  edi : m.read32 (c.esp - 16 + 8) = c.reg .edi
  esi : m.read32 (c.esp - 16 + 12) = c.reg .esi
  above : ∀ x : Word, (c.esp - t).toNat ≤ (x - t).toNat → (x - t).toNat < 4096 → m x = c.mem x
  room : sizeofTaskStruct + 16 ≤ (c.esp - t).toNat
  inPage : (c.esp - t).toNat + 12 ≤ 4096

/-- The call has returned: esp, eip, the callee-saved registers and the stack are as at the call. -/
structure Returned (t : Word) (c c' : Cpu) : Prop where
  esp : c'.esp = c.esp + 4
  eip : c'.eip = c.top
  ebp : c'.reg .ebp = c.reg .ebp
  ebx : c'.reg .ebx = c.reg .ebx
  esi : c'.reg .esi = c.reg .esi
  edi : c'.reg .edi = c.reg .edi
  stack : ∀ x : Word, (c.esp - t).toNat ≤ (x - t).toNat → (x - t).toNat < 4096 → c'.mem x = c.mem x

variable {t next a : Word} {m m' : Ram} {c' : Cpu} {s s' : Sys} {l : Links}

theorem Kept.kstack (h : Kept t m m') : m'.read32 t = m.read32 t :=
  Ram.read32_congr fun x hx => h x (.inl hx)

theorem Kept.read32 (h : Kept t m m') (ha : sizeofTaskStruct ≤ (a - t).toNat) (ha' : (a - t).toNat + 4 ≤ 4096) :
    m'.read32 a = m.read32 a := by
  unfold sizeofTaskStruct at ha
  apply Ram.read32_congr
  intro x hx
  refine h x (.inr ⟨?_, ?_⟩)
  · unfold sizeofTaskStruct
    bv_omega
  · bv_omega

theorem Kept.trans {m'' : Ram} (h : Kept t m m') (h' : Kept t m' m'') : Kept t m m'' :=
  fun x hx => (h' x hx).trans (h x hx)

theorem Saved.kept (h : Saved t c m) (hk : Kept t m m') : Saved t c m' := by
  have hroom := h.room
  have hpage := h.inPage
  unfold sizeofTaskStruct at hroom
  have hword : ∀ k : Word, k.toNat ≤ 12 → m'.read32 (c.esp - 16 + k) = m.read32 (c.esp - 16 + k) := by
    intro k hk'
    apply hk.read32
    · unfold sizeofTaskStruct
      bv_omega
    · bv_omega
  refine ⟨hk.kstack.trans h.kstack, ?_, ?_, ?_, ?_, ?_, h.room, h.inPage⟩
  · rw [← h.ebp, ← BitVec.add_zero (c.esp - 16)]
    exact hword 0 (by decide)
  · exact (hword 4 (by decide)).trans h.ebx
  · exact (hword 8 (by decide)).trans h.edi
  · exact (hword 12 (by decide)).trans h.esi
  · intro x hx hx'
    rw [hk x (.inr ⟨by unfold sizeofTaskStruct; omega, hx'⟩)]
    exact h.above x hx hx'

theorem Sys.Calls.backup_mem (h : s.Calls next) : (run backup s.cpu).mem = (pushed s.cpu).write32 s.cur (s.cpu.esp - 16) := by
  rw [(backup_eq s.cpu).2, pushed_word 4 (by decide), h.cur_arg]

theorem Sys.Calls.saved (h : s.Calls next) : Saved s.cur s.cpu (run backup s.cpu).mem := by
  have hroom := h.room
  have hpage := h.inPage
  unfold sizeofTaskStruct at hroom
  obtain ⟨hebp, hebx, hedi, hesi⟩ := pushed_regs (c := s.cpu)
  rw [h.backup_mem]
  refine ⟨Ram.read32_write32 _ _ _, ?_, ?_, ?_, ?_, ?_, h.room, h.inPage⟩
  · rw [Ram.read32_write32_ne (by bv_omega) (by bv_omega), hebp]
  · rw [Ram.read32_write32_ne (by bv_omega) (by bv_omega), hebx]
  · rw [Ram.read32_write32_ne (by bv_omega) (by bv_omega), hedi]
  · rw [Ram.read32_write32_ne (by bv_omega) (by bv_omega), hesi]
  · intro x hx hx'
    rw [Ram.write32_far (by bv_omega), pushed_above (by bv_omega)]

/-- The second argument, where `restore` reads it. -/
theorem Sys.Calls.next_word (h : s.Calls next) : (run backup s.cpu).mem.read32 ((run backup s.cpu).esp + 24) = next := by
  have hroom := h.room
  have hpage := h.inPage
  unfold sizeofTaskStruct at hroom
  have h24 : s.cpu.esp - 16 + 24 = s.cpu.esp + 8 := by grind
  rw [(backup_eq s.cpu).1, h.backup_mem, h24, Ram.read32_write32_ne (by bv_omega) (by bv_omega), pushed_word 8 (by decide),
    h.next_arg]

/-- `restore` in the page of a suspended thread. -/
theorem Saved.returned (h : Saved t c c'.mem) (hn : c'.mem.read32 (c'.esp + 24) = t) : Returned t c (run restore c') := by
  have hroom := h.room
  have hpage := h.inPage
  unfold sizeofTaskStruct at hroom
  obtain ⟨hesp, heip, hebp, hebx, hedi, hesi, hmem⟩ := restore_eq hn h.kstack
  have hret : c'.mem.read32 (c.esp - 16 + 16) = c.top := by
    rw [BitVec.sub_add_cancel]
    apply Ram.read32_congr
    intro x hx
    exact h.above x (by bv_omega) (by bv_omega)
  refine ⟨?_, heip.trans hret, hebp.trans h.ebp, hebx.trans h.ebx, hesi.trans h.esi, hedi.trans h.edi, ?_⟩
  · rw [hesp]
    grind
  · rw [hmem]
    exact h.above

theorem restore_mem (c : Cpu) : (run restore c).mem = c.mem := (restore_eq rfl rfl).2.2.2.2.2.2

theorem switchTo_mem (c : Cpu) : (run switchTo c).mem = (run backup c).mem := by
  rw [switchTo, run_append, restore_mem]

/-! ## A new thread -/

variable {name : List (BitVec 8)} {prio function funcArg : Word}

theorem initThread_far (hname : 8 + name.length < 4096) {x : Word} (hx : 4096 ≤ (x - t).toNat) :
    initThread l.mainThread t name prio m x = m x := by
  simp only [initThread]
  rw [Ram.write32_far (by bv_omega), Ram.write32_far (by bv_omega), Ram.write32_far (by bv_omega), Ram.write8_far (by bv_omega),
    Ram.write8_far (by bv_omega), Ram.write32_far (by bv_omega), Ram.write32_far (by bv_omega), strcpy_far (by bv_omega),
    memset_far (by unfold sizeofTaskStruct; omega)]

theorem initThread_kstack : (initThread l.mainThread t name prio m).read32 t = t + 4096 := by
  simp only [initThread]
  rw [Ram.read32_write32_ne (by bv_omega) (by bv_omega), Ram.read32_write32_ne (by bv_omega) (by bv_omega),
    Ram.read32_write32_ne (by bv_omega) (by bv_omega), Ram.read32_write8 (by bv_omega), Ram.read32_write8 (by bv_omega),
    Ram.read32_write32]

/-- What `thread_create` leaves for the first switch to `t`. -/
structure Ready (l : Links) (t function funcArg : Word) (m : Ram) : Prop where
  kstack : m.read32 t = t + 3664
  eip : m.read32 (t + 3680) = l.kernelThread
  function : m.read32 (t + 3688) = function
  funcArg : m.read32 (t + 3692) = funcArg

theorem threadCreate_eq (l : Links) (function funcArg : Word) (hm : m.read32 t = t + 4096) :
    ∃ esi, threadCreate l.kernelThread t function funcArg m =
    (((((((m.write32 t (t + 3792)).write32 t (t + 3664)).write32 (t + 3680) l.kernelThread).write32 (t + 3688) function).write32
      (t + 3692) funcArg).write32 (t + 3672) esi).write32 (t + 3668) esi).write32 (t + 3664) esi := by
  have h1 : t + 4096 - 4 * sizeofIntrStack = t + 3792 := by
    unfold sizeofIntrStack
    grind
  have h2 : t + 3792 - 4 * sizeofThreadStack = t + 3664 := by
    unfold sizeofThreadStack
    grind
  have h16 : t + 3664 + 16 = t + 3680 := by grind
  have h24 : t + 3664 + 24 = t + 3688 := by grind
  have h28 : t + 3664 + 28 = t + 3692 := by grind
  have h8 : t + 3664 + 8 = t + 3672 := by grind
  have h4 : t + 3664 + 4 = t + 3668 := by grind
  simp only [threadCreate, hm, h1, Ram.read32_write32, h2, h16, h24, h28, h8, h4]
  exact ⟨_, rfl⟩

theorem threadCreate_ready (hm : m.read32 t = t + 4096) :
    Ready l t function funcArg (threadCreate l.kernelThread t function funcArg m) := by
  obtain ⟨esi, he⟩ := threadCreate_eq l function funcArg hm
  have hne : ∀ (m : Ram) {j k v : Word}, 4 ≤ (j - k).toNat → 4 ≤ (k - j).toNat →
      (m.write32 (t + k) v).read32 (t + j) = m.read32 (t + j) := by
    intro m j k v h1 h2
    exact Ram.read32_write32_ne (by bv_omega) (by bv_omega)
  rw [he]
  refine ⟨?_, ?_, ?_, ?_⟩
  · have h0 : ∀ (m : Ram) {k v : Word}, 4 ≤ k.toNat → k.toNat ≤ 4092 → (m.write32 (t + k) v).read32 t = m.read32 t := by
      intro m k v h1 h2
      exact Ram.read32_write32_ne (by bv_omega) (by bv_omega)
    rw [h0 _ (by decide) (by decide), h0 _ (by decide) (by decide), h0 _ (by decide) (by decide), h0 _ (by decide) (by decide),
      h0 _ (by decide) (by decide), h0 _ (by decide) (by decide), Ram.read32_write32]
  · rw [hne _ (by decide) (by decide), hne _ (by decide) (by decide), hne _ (by decide) (by decide),
      hne _ (by decide) (by decide), hne _ (by decide) (by decide), Ram.read32_write32]
  · rw [hne _ (by decide) (by decide), hne _ (by decide) (by decide), hne _ (by decide) (by decide),
      hne _ (by decide) (by decide), Ram.read32_write32]
  · rw [hne _ (by decide) (by decide), hne _ (by decide) (by decide), hne _ (by decide) (by decide), Ram.read32_write32]

theorem threadCreate_far (hm : m.read32 t = t + 4096) {x : Word} (hx : 4096 ≤ (x - t).toNat) :
    threadCreate l.kernelThread t function funcArg m x = m x := by
  obtain ⟨esi, he⟩ := threadCreate_eq l function funcArg hm
  rw [he, Ram.write32_far (by bv_omega), Ram.write32_far (by bv_omega), Ram.write32_far (by bv_omega),
    Ram.write32_far (by bv_omega), Ram.write32_far (by bv_omega), Ram.write32_far (by bv_omega), Ram.write32_far (by omega),
    Ram.write32_far (by omega)]

theorem New.prepare_far {n : New} (hname : 8 + n.name.length < 4096) {x : Word} (hx : 4096 ≤ (x - n.thread).toNat) :
    n.prepare l m x = m x := by
  rw [New.prepare, threadCreate_far initThread_kstack hx, initThread_far hname hx]

theorem New.prepare_ready (n : New) (l : Links) (m : Ram) : Ready l n.thread n.function n.funcArg (n.prepare l m) :=
  threadCreate_ready initThread_kstack

theorem Ready.kept (h : Ready l t function funcArg m) (hk : Kept t m m') : Ready l t function funcArg m' := by
  have hword : ∀ k : Word, sizeofTaskStruct ≤ k.toNat → k.toNat + 4 ≤ 4096 → m'.read32 (t + k) = m.read32 (t + k) := by
    intro k h1 h2
    have hk' : t + k - t = k := by grind
    apply hk.read32
    · rw [hk']
      exact h1
    · rw [hk']
      exact h2
  exact ⟨hk.kstack.trans h.kstack, (hword _ (by decide) (by decide)).trans h.eip,
    (hword _ (by decide) (by decide)).trans h.function, (hword _ (by decide) (by decide)).trans h.funcArg⟩

/-- In `kernel_thread`, whose caller's return address and arguments are on the stack. -/
structure Arrived (l : Links) (function funcArg : Word) (c : Cpu) : Prop where
  eip : c.eip = l.kernelThread
  function : c.mem.read32 (c.esp + 4) = function
  funcArg : c.mem.read32 (c.esp + 8) = funcArg

theorem Ready.arrived (h : Ready l t function funcArg c'.mem) (hn : c'.mem.read32 (c'.esp + 24) = t) :
    Arrived l function funcArg (run restore c') := by
  obtain ⟨hesp, heip, -, -, -, -, hmem⟩ := restore_eq hn h.kstack
  have h16 : t + 3664 + 16 = t + 3680 := by grind
  have h24 : t + 3664 + 20 + 4 = t + 3688 := by grind
  have h28 : t + 3664 + 20 + 8 = t + 3692 := by grind
  refine ⟨?_, ?_, ?_⟩
  · rw [heip, h16, h.eip]
  · rw [hmem, hesp, h24, h.function]
  · rw [hmem, hesp, h28, h.funcArg]

/-! ## While others run -/

/-- Two threads have no byte in common. -/
theorem pages_disjoint {u x : Word} (ht : t.toNat % 4096 = 0) (hu : u.toNat % 4096 = 0) (hne : t ≠ u)
    (hx : (x - t).toNat < 4096) : 4096 ≤ (x - u).toNat := by
  have hne' : t.toNat ≠ u.toNat := fun h => hne (BitVec.eq_of_toNat_eq h)
  bv_omega

theorem Kept.of_far {u : Word} (ht : t.toNat % 4096 = 0) (hu : u.toNat % 4096 = 0) (hne : t ≠ u)
    (h : ∀ x : Word, 4096 ≤ (x - u).toNat → m' x = m x) : Kept t m m' := by
  intro x hx
  unfold sizeofTaskStruct at hx
  exact h x (pages_disjoint ht hu hne (by omega))

/-- The save stays in the page of the running thread. -/
theorem Sys.Calls.kept (h : s.Calls next) (ht : t ∈ s.threads) (hne : t ≠ s.cur) :
    Kept t s.cpu.mem (run backup s.cpu).mem := by
  have hroom := h.room
  have hpage := h.inPage
  unfold sizeofTaskStruct at hroom
  apply Kept.of_far (s.aligned t ht) (s.aligned _ s.cur_mem) hne
  intro x hx
  rw [h.backup_mem, Ram.write32_far (by omega), pushed_above (by bv_omega)]

/-- One step of others. -/
theorem Step.kept {act : Act} (h : Step l act s s') (hact : act ≠ .switch t) (ht : t ∈ s.threads) (hne : t ≠ s.cur) :
    Kept t s.cpu.mem s'.cpu.mem ∧ t ∈ s'.threads ∧ t ≠ s'.cur := by
  cases h with
  | own _ c hc => exact ⟨hc t ht hne, ht, hne⟩
  | create _ n hn =>
    have htn : t ≠ n.thread := fun e => hn.fresh (e ▸ ht)
    refine ⟨Kept.of_far (s.aligned t ht) hn.aligned htn ?_, Set.mem_insert_of_mem _ ht, hne⟩
    intro x hx
    exact n.prepare_far hn.name hx
  | switch _ next hc =>
    refine ⟨?_, ht, fun e => hact (congrArg Act.switch e.symm)⟩
    rw [Sys.switch, switchTo_mem]
    exact hc.kept ht hne

theorem Away.kept (h : Away l t s s') (ht : t ∈ s.threads) (hne : t ≠ s.cur) :
    Kept t s.cpu.mem s'.cpu.mem ∧ t ∈ s'.threads ∧ t ≠ s'.cur := by
  induction h with
  | refl => exact ⟨fun _ _ => rfl, ht, hne⟩
  | tail _ hstep ih =>
    obtain ⟨hk, ht', hne'⟩ := ih
    obtain ⟨act, hact, hs⟩ := hstep
    obtain ⟨hk', hrest⟩ := hs.kept hact ht' hne'
    exact ⟨hk.trans hk', hrest⟩

/-! ## The switch back -/

/-- The call that the running thread makes in `s` returns in `s'`. -/
def Returns (l : Links) (s s' : Sys) : Prop :=
  Step l (.switch s.cur) s s' ∨
    ∃ next s1 s2, next ≠ s.cur ∧ Step l (.switch next) s s1 ∧ Away l s.cur s1 s2 ∧ Step l (.switch s.cur) s2 s'

/-- From the creation of a thread to the first switch to it. -/
def Begins (l : Links) (n : New) (s s' : Sys) : Prop :=
  ∃ s1 s2, Step l (.create n) s s1 ∧ Away l n.thread s1 s2 ∧ Step l (.switch n.thread) s2 s'

theorem switch_resumes (h : Step l (.switch t) s s') (hne : t ≠ s.cur) :
    Kept t s.cpu.mem (run backup s.cpu).mem ∧ (run backup s.cpu).mem.read32 ((run backup s.cpu).esp + 24) = t ∧
      s'.cpu = run restore (run backup s.cpu) := by
  cases h with
  | switch _ _ hc => exact ⟨hc.kept hc.next_mem hne, hc.next_word, run_append ..⟩

theorem Returns.returned (h : Returns l s s') : Returned s.cur s.cpu s'.cpu := by
  rcases h with h | ⟨next, s1, s2, hne, hcall, haway, hback⟩
  · cases h with
    | switch _ _ hc =>
      have hr := hc.saved.returned hc.next_word
      rw [← run_append] at hr
      exact hr
  · cases hcall with
    | switch _ _ hc =>
      obtain ⟨hk, ht, hcur⟩ := haway.kept s.cur_mem hne.symm
      rw [Sys.switch, switchTo_mem] at hk
      obtain ⟨hk', hn, he⟩ := switch_resumes hback hcur
      rw [he]
      exact ((hc.saved.kept hk).kept hk').returned hn

theorem Returns.calls (h : Returns l s s') : ∃ next, s.Calls next := by
  rcases h with h | ⟨next, s1, s2, -, hcall, -⟩
  · cases h with
    | switch _ _ hc => exact ⟨_, hc⟩
  · cases hcall with
    | switch _ _ hc => exact ⟨_, hc⟩

/-- The thread that runs on finds the stack pointer of its call at the start of its PCB. -/
theorem Returns.kstack (h : Returns l s s') : s'.cpu.mem.read32 s.cur = s.cpu.esp - 16 ∧ s'.cur = s.cur := by
  rcases h with h | ⟨next, s1, s2, hne, hcall, haway, hback⟩
  · cases h with
    | switch _ _ hc =>
      refine ⟨?_, rfl⟩
      rw [Sys.switch, switchTo_mem]
      exact hc.saved.kstack
  · cases hcall with
    | switch _ _ hc =>
      obtain ⟨hk, -, hcur⟩ := haway.kept s.cur_mem hne.symm
      rw [Sys.switch, switchTo_mem] at hk
      obtain ⟨hk', -, he⟩ := switch_resumes hback hcur
      refine ⟨?_, ?_⟩
      · rw [he, restore_mem]
        exact ((hc.saved.kept hk).kept hk').kstack
      · cases hback with
        | switch _ _ _ => rfl

/-- The first switch to a thread finds its page as `thread_create` has left it. -/
theorem Begins.resumes {n : New} (h : Begins l n s s') : ∃ c, Ready l n.thread n.function n.funcArg c.mem ∧
    c.mem.read32 (c.esp + 24) = n.thread ∧ s'.cpu = run restore c ∧ s'.cur = n.thread := by
  obtain ⟨s1, s2, hcreate, haway, hback⟩ := h
  cases hcreate with
  | create _ _ hn =>
    have hcur : n.thread ≠ s.cur := fun e => hn.fresh (e ▸ s.cur_mem)
    obtain ⟨hk, ht, hcur'⟩ := haway.kept (Set.mem_insert _ _) hcur
    obtain ⟨hk', hnext, he⟩ := switch_resumes hback hcur'
    refine ⟨_, ((n.prepare_ready l s.cpu.mem).kept hk).kept hk', hnext, he, ?_⟩
    cases hback with
    | switch _ _ _ => rfl

theorem Begins.arrived {n : New} (h : Begins l n s s') : Arrived l n.function n.funcArg s'.cpu := by
  obtain ⟨c, hready, hnext, he, -⟩ := h.resumes
  rw [he]
  exact hready.arrived hnext

/-- Every call returns as it was made, and every new thread begins in `kernel_thread`. -/
theorem switch_to_returns (l : Links) : (∀ s s', Returns l s s' → Returned s.cur s.cpu s'.cpu) ∧
    ∀ n s s', Begins l n s s' → Arrived l n.function n.funcArg s'.cpu :=
  ⟨fun _ _ h => h.returned, fun _ _ _ h => h.arrived⟩

/-! ## A run -/

/-- `call switch_to` on a stack with room. -/
def withCall (c : Cpu) (cur next : Word) : Cpu :=
  { c.setReg .esp (cur + 0xf00) with
    mem := ((c.mem.write32 (cur + 0xf00) c.eip).write32 (cur + 0xf04) cur).write32 (cur + 0xf08) next }

def Sys.calling (s : Sys) (next : Word) : Sys := { s with cpu := withCall s.cpu s.cur next }

theorem withCall_esp (c : Cpu) (cur next : Word) : (withCall c cur next).esp = cur + 0xf00 :=
  setReg_same c .esp _

theorem Sys.own_calling (s : Sys) (l : Links) (next : Word) : Step l .own s (s.calling next) := by
  apply Step.own s _
  intro t ht hne
  apply Kept.of_far (s.aligned t ht) (s.aligned _ s.cur_mem) hne
  intro x hx
  simp only [withCall]
  rw [Ram.write32_far (by bv_omega), Ram.write32_far (by bv_omega), Ram.write32_far (by bv_omega)]

/-- The running thread can call `switch_to` for any thread. -/
theorem Sys.calling_calls (s : Sys) (h : next ∈ s.threads) : (s.calling next).Calls next := by
  have hesp : (s.calling next).cpu.esp = s.cur + 0xf00 := withCall_esp ..
  have h4 : s.cur + 0xf00 + 4 = s.cur + 0xf04 := by grind
  have h8 : s.cur + 0xf00 + 8 = s.cur + 0xf08 := by grind
  have hoff : s.cur + 0xf00 - s.cur = 0xf00 := by grind
  refine ⟨h, ?_, ?_, ?_, ?_⟩
  · rw [hesp, h4]
    exact (Ram.read32_write32_ne (by bv_omega) (by bv_omega)).trans (Ram.read32_write32 _ _ _)
  · rw [hesp, h8]
    exact Ram.read32_write32 _ _ _
  · rw [hesp, show (s.calling next).cur = s.cur from rfl, hoff]
    decide
  · rw [hesp, show (s.calling next).cur = s.cur from rfl, hoff]
    decide

def links : Links := ⟨0xc009e000, 0xc0001800⟩

/-- The main thread before it creates others. -/
def alone : Sys where
  cpu := { reg := fun _ => 0xc009efc0, sreg := fun _ => 0x10, eip := 0xc0001500, eflags := 0x202, mem := fun _ => 0 }
  cur := 0xc009e000
  threads := {0xc009e000}
  cur_mem := rfl
  aligned := fun t h => by rw [Set.mem_singleton_iff.mp h]; decide

/-- `thread_start("k_thread_a", 31, k_thread_a, "argA ")` with the page 0xc0101000. -/
def threadA : New := ⟨0xc0101000, "k_thread_a".toList.map fun c => BitVec.ofNat 8 c.toNat, 31, 0xc0001a00, 0xc0003000⟩

theorem alone_takes : alone.Takes threadA :=
  ⟨fun h => absurd (Set.mem_singleton_iff.mp h) (by decide), by decide, by decide, by decide⟩

def called : Sys := (alone.create links threadA alone_takes).calling threadA.thread

theorem called_calls : called.Calls threadA.thread := Sys.calling_calls _ (Set.mem_insert _ _)

/-- The new thread in turn switches back. -/
def back : Sys := (called.switch _ called_calls).calling 0xc009e000

theorem back_calls : back.Calls 0xc009e000 := Sys.calling_calls _ (Set.mem_insert_of_mem _ rfl)

theorem called_returns : Returned 0xc009e000 called.cpu (back.switch _ back_calls).cpu ∧
    Arrived links threadA.function threadA.funcArg (called.switch _ called_calls).cpu := by
  constructor
  · refine (switch_to_returns links).1 called _ (.inr ⟨threadA.thread, _, back, ?_, .switch _ _ called_calls, ?_,
      .switch _ _ back_calls⟩)
    · decide
    · exact .single ⟨.own, Act.noConfusion, Sys.own_calling _ _ _⟩
  · refine (switch_to_returns links).2 threadA alone _ ⟨_, called, .create _ _ alone_takes, ?_, .switch _ _ called_calls⟩
    exact .single ⟨.own, Act.noConfusion, Sys.own_calling _ _ _⟩

end TinyOs.Thread.SwitchTo
