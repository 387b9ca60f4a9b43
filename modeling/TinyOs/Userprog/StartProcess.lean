/-
  TinyOs.Userprog.StartProcess — where a process's first user context lies (userprog/process.c).

  A new process is dispatched into `kernel_thread` and goes on to `start_process`, which
  takes its `self_kstack`, adds `sizeof(struct thread_stack)` and fills a `struct
  intr_stack` there. Timer interrupts may come in between: each one calls `switch_to` on
  the process's own stack, which stores esp in `self_kstack`. The stack has grown downward
  from where `kernel_thread` was entered, and nothing but `switch_to` writes the field.

  `self_kstack` is a `uint32_t*`. `thread_create` means to leave the last 76 bytes of the
  page to the context, but takes 4 * 108 bytes off, of which `start_process` gives back
  4 * 32; and after an interrupt the field no longer is what `thread_create` left.
  - `first_context_never`: no schedule puts the context at the end of the page.
  - `Runs.place`: where it lies instead.
-/

import TinyOs.Thread.SwitchTo
import TinyOs.Userprog.Tss

namespace TinyOs.Userprog

open TinyOs.Logic.X86 TinyOs.Thread.SwitchTo

/-! ## The code -/

def selectorUCode : Word := 0x2b

def selectorUData : Word := 0x33

/-- `struct intr_stack` at `procStack`: vec_no 0, edi 4, esi 8, ebp 12, esp_dummy 16, ebx 20, edx 24, ecx 28, eax 32, gs 36, fs 40,
es 44, ds 48, err_code 52, eip 56, cs 60, eflags 64, esp 68, ss 72. -/
def fillIntrStack (procStack function userPage : Word) (m : Ram) : Ram :=
  let m := m.write32 (procStack + 16) 0
  let m := m.write32 (procStack + 12) 0
  let m := m.write32 (procStack + 8) 0
  let m := m.write32 (procStack + 4) 0
  let m := m.write32 (procStack + 32) 0
  let m := m.write32 (procStack + 28) 0
  let m := m.write32 (procStack + 24) 0
  let m := m.write32 (procStack + 20) 0
  let m := m.write32 (procStack + 36) 0
  let m := m.write32 (procStack + 40) selectorUData
  let m := m.write32 (procStack + 44) selectorUData
  let m := m.write32 (procStack + 48) selectorUData
  let m := m.write32 (procStack + 56) function
  let m := m.write32 (procStack + 60) selectorUCode
  let m := m.write32 (procStack + 64) procEflags
  let m := m.write32 (procStack + 68) (userPage + 4096)
  m.write32 (procStack + 72) selectorUData

/-- `proc_stack`, and the memory when it is filled; `userPage` is what `get_a_page` answers, which writes nothing here. -/
def startProcess (cur filename userPage : Word) (m : Ram) : Word × Ram :=
  let function := filename
  let m := m.write32 cur (m.read32 cur + 4 * sizeofThreadStack)
  let procStack := m.read32 cur
  (procStack, fillIntrStack procStack function userPage m)

/-- What `process_execute` passes to `init_thread` and `thread_create`; start_process begins at `entry`. -/
def process (entry filename page : Word) (name : List (BitVec 8)) : New := ⟨page, name, 31, entry, filename⟩

/-! ## The first run of a process -/

/-- The process at `t` runs its own code, on its stack below `top`; an interrupt takes the processor away and gives it back. -/
inductive Runs (l : Links) (t top : Word) : Sys → Sys → Prop
  | refl (s : Sys) : Runs l t top s s
  | own {s s1 : Sys} (c : Cpu) (h : Runs l t top s s1) (hs : Step l .own s1 { s1 with cpu := c })
      (hk : c.mem.read32 t = s1.cpu.mem.read32 t) : Runs l t top s { s1 with cpu := c }
  | preempted {s s1 s2 : Sys} (h : Runs l t top s s1) (hesp : (s1.cpu.esp - t).toNat ≤ (top - t).toNat) (hr : Returns l s1 s2) :
      Runs l t top s s2

/-- A process is made in `s` and dispatched in `s1`; it enters start_process in `s2`, which reads self_kstack in `s3`. -/
structure Started (l : Links) (entry filename page : Word) (name : List (BitVec 8)) (s s1 s2 s3 : Sys) : Prop where
  begins : Begins l (process entry filename page name) s s1
  enters : Runs l page s1.cpu.esp s1 s2
  entered : s2.cpu.eip = entry
  reads : Runs l page s1.cpu.esp s2 s3

/-- The bytes of the `struct intr_stack` at `p`. -/
def context (p : Word) : Set Word := { x | (x - p).toNat < sizeofIntrStack.toNat }

/-- The last of the page at `t`. -/
def pageEnd (t : Word) : Set Word := { x | 4096 - sizeofIntrStack.toNat ≤ (x - t).toNat ∧ (x - t).toNat < 4096 }

/-- The frame of the function entered in `c`, in `c'`: with its return address and argument. -/
def liveFrame (t : Word) (c c' : Cpu) : Set Word := { x | (c'.esp - t).toNat ≤ (x - t).toNat ∧ (x - t).toNat < (c.esp - t).toNat + 8 }

/-- The context that start_process fills lies at the end of the page, and clear of its own frame. -/
structure FirstContext (filename page userPage : Word) (s2 s3 : Sys) : Prop where
  atEnd : context (startProcess page filename userPage s3.cpu.mem).1 = pageEnd page
  clear : ∀ x ∈ context (startProcess page filename userPage s3.cpu.mem).1, x ∉ liveFrame page s2.cpu s3.cpu

variable {l : Links} {t top entry filename page userPage : Word} {name : List (BitVec 8)} {m : Ram} {s s' s1 s2 s3 : Sys}

/-! ## What is filled -/

theorem startProcess_place (filename page userPage : Word) (m : Ram) :
    (startProcess page filename userPage m).1 = m.read32 page + 128 := by
  have h : (startProcess page filename userPage m).1 = m.read32 page + 4 * sizeofThreadStack := Ram.read32_write32 m page _
  rw [h]
  rfl

/-- Besides self_kstack only the context is written. -/
theorem startProcess_outside {x : Word} (hk : 4 ≤ (x - page).toNat)
    (hx : x ∉ context (startProcess page filename userPage m).1) : (startProcess page filename userPage m).2 x = m x := by
  have hout : 76 ≤ (x - (startProcess page filename userPage m).1).toNat := Nat.le_of_not_lt hx
  generalize hp : (startProcess page filename userPage m).1 = p at hout
  have hfill : (startProcess page filename userPage m).2 =
      fillIntrStack p filename userPage (m.write32 page (m.read32 page + 4 * sizeofThreadStack)) := by
    rw [← hp]
    rfl
  have hfar : ∀ (m : Ram) {k : Word} (v : Word), k.toNat ≤ 72 → m.write32 (p + k) v x = m x := by
    intro m k v hk
    exact Ram.write32_far (by bv_omega)
  rw [hfill]
  simp only [fillIntrStack]
  repeat rw [hfar _ _ (by decide)]
  exact Ram.write32_far hk

/-! ## Where self_kstack points -/

/-- It points to what `thread_create` has left, or to where a switch has stored the registers. -/
def Points (t top k : Word) : Prop := k = t + 3664 ∨ ∃ esp, k = esp - 16 ∧ 84 ≤ (esp - t).toNat ∧ (esp - t).toNat ≤ (top - t).toNat

theorem Runs.points (h : Runs l t top s s') (h0 : Points t top (s.cpu.mem.read32 t)) (hc : s.cur = t) :
    Points t top (s'.cpu.mem.read32 t) ∧ s'.cur = t := by
  induction h with
  | refl => exact ⟨h0, hc⟩
  | own c _ _ hk ih =>
    refine ⟨?_, ih.2⟩
    show Points t top (c.mem.read32 t)
    rw [hk]
    exact ih.1
  | preempted h hesp hr ih =>
    obtain ⟨hk, hcur'⟩ := hr.kstack
    obtain ⟨next, hcalls⟩ := hr.calls
    have hroom := hcalls.room
    rw [ih.2] at hk hcur' hroom
    exact ⟨.inr ⟨_, hk, hroom, hesp⟩, hcur'⟩

theorem Runs.trans (h : Runs l t top s s1) (h' : Runs l t top s1 s') : Runs l t top s s' := by
  induction h' with
  | refl => exact h
  | own c _ hs hk ih => exact .own c ih hs hk
  | preempted _ hesp hr ih => exact .preempted ih hesp hr

/-- At the dispatch esp is 412 bytes below the end of the page. -/
theorem Started.dispatched (h : Started l entry filename page name s s1 s2 s3) :
    s1.cpu.mem.read32 page = page + 3664 ∧ s1.cpu.esp = page + 3684 ∧ s1.cur = page := by
  obtain ⟨c, hready, hnext, he, hcur⟩ := h.begins.resumes
  obtain ⟨hesp, -, -, -, -, -, hmem⟩ := restore_eq hnext hready.kstack
  refine ⟨?_, ?_, hcur⟩
  · rw [he, hmem]
    exact hready.kstack
  · rw [he, hesp]
    show page + 3664 + 20 = page + 3684
    bv_omega

/-- The context lies 304 bytes below the end of the page, or 112 bytes above where an interrupt has switched. -/
theorem Started.place (h : Started l entry filename page name s s1 s2 s3) (userPage : Word) :
    (startProcess page filename userPage s3.cpu.mem).1 = page + 3792 ∨
      ∃ esp, (startProcess page filename userPage s3.cpu.mem).1 = esp + 112 ∧ 84 ≤ (esp - page).toNat ∧
        (esp - page).toNat ≤ 3684 := by
  obtain ⟨hk, htop, hcur⟩ := h.dispatched
  obtain ⟨hp, -⟩ := (h.enters.trans h.reads).points (.inl hk) hcur
  have hdepth : (s1.cpu.esp - page).toNat = 3684 := by
    rw [htop]
    bv_omega
  rw [startProcess_place]
  rcases hp with hp | ⟨esp, hp, hlo, hhi⟩
  · left
    rw [hp]
    bv_omega
  · refine .inr ⟨esp, ?_, hlo, by omega⟩
    rw [hp]
    bv_omega

/-- Nothing that lies 224 bytes below the end of the page reaches it. -/
theorem context_not_end {p : Word} (h : (p - t).toNat ≤ 3796) : context p ≠ pageEnd t := by
  intro e
  have hoff : (t + 4095 - t).toNat = 4095 := by bv_omega
  have hlast : t + 4095 ∈ pageEnd t := by
    show 4096 - 76 ≤ (t + 4095 - t).toNat ∧ (t + 4095 - t).toNat < 4096
    omega
  rw [← e] at hlast
  have hin : (t + 4095 - p).toNat < 76 := hlast
  bv_omega

theorem Started.not_first (h : Started l entry filename page name s s1 s2 s3) (userPage : Word) :
    ¬ FirstContext filename page userPage s2 s3 := by
  intro hf
  refine context_not_end ?_ hf.atEnd
  rcases h.place userPage with hp | ⟨esp, hp, hlo, hhi⟩
  · rw [hp]
    bv_omega
  · rw [hp]
    bv_omega

/-- On no schedule. -/
theorem first_context_never (l : Links) (entry filename page userPage : Word) (name : List (BitVec 8)) (s s1 s2 s3 : Sys)
    (h : Started l entry filename page name s s1 s2 s3) : ¬ FirstContext filename page userPage s2 s3 :=
  h.not_first userPage

/-! ## A process -/

/-- `process_execute(u_prog_a, "u_prog_a")` with the page 0xc0101000. -/
def progA : New := process 0xc0002000 0xc0001a00 0xc0101000 ("u_prog_a".toList.map fun c => BitVec.ofNat 8 c.toNat)

theorem alone_takes_progA : alone.Takes progA :=
  ⟨fun h => absurd (Set.mem_singleton_iff.mp h) (by decide), by decide, by decide, by decide⟩

def calledA : Sys := (alone.create links progA alone_takes_progA).calling progA.thread

theorem calledA_calls : calledA.Calls progA.thread := Sys.calling_calls _ (Set.mem_insert _ _)

def dispatchedA : Sys := calledA.switch _ calledA_calls

/-- In start_process, without an interrupt. -/
def enteredA : Sys := { dispatchedA with cpu := { dispatchedA.cpu with eip := progA.function } }

theorem Runs.jump (h : Runs l t top s s1) (eip : Word) : Runs l t top s { s1 with cpu := { s1.cpu with eip := eip } } :=
  .own _ h (.own _ _ fun _ _ _ _ _ => rfl) rfl

theorem progA_started : Started links progA.function progA.funcArg progA.thread progA.name alone dispatchedA enteredA enteredA where
  begins := ⟨_, calledA, .create _ _ alone_takes_progA, .single ⟨.own, Act.noConfusion, Sys.own_calling _ _ _⟩,
    .switch _ _ calledA_calls⟩
  enters := (Runs.refl dispatchedA).jump _
  entered := rfl
  reads := .refl _

theorem progA_not_first : ¬ FirstContext progA.funcArg progA.thread 0xbffff000 enteredA enteredA :=
  first_context_never links _ _ _ _ progA.name alone dispatchedA enteredA enteredA progA_started

theorem first_context_misplaced : ¬ ∀ l entry filename page userPage name s s1 s2 s3,
    Started l entry filename page name s s1 s2 s3 → FirstContext filename page userPage s2 s3 :=
  fun h => progA_started.not_first 0xbffff000 (h _ _ _ _ _ _ _ _ _ _ progA_started)

end TinyOs.Userprog
