/-
  TinyOs.Memory.NewThread — what `thread_start` does to memory (thread/thread.c).

  A page of the kernel heap becomes the PCB: `init_thread` and `thread_create` store
  through the page tables, and the first of these stores, memset's, asserts that the page
  is not NULL. With a name that ends in the page, every store falls in its frame.

  The two lists are `TinyOs.Thread.ThreadStart`'s.
-/

import TinyOs.Memory.Mapping

namespace TinyOs.Memory

open TinyOs.Kernel TinyOs.Lib TinyOs.Logic

/-! `struct task_struct`: self_kstack 0, status 4, name 8, priority 24, ticks 25, elapsed_ticks 28, pgdir 48, stack_magic 64. -/

def sizeofTaskStruct : Nat := 68

/-- `struct intr_stack`, in bytes. -/
def sizeofIntrStack : Nat := 76

/-- `struct thread_stack`: ebp 0, ebx 4, edi 8, esi 12, eip 16, unused_retaddr 20, function 24, func_arg 28. -/
def sizeofThreadStack : Nat := 32

def store8 (m : Bytes) (cr3 p : Nat) (b : BitVec 8) : Except Stop Bytes := do
  let pa ← mmu m cr3 p
  .ok (m.write8 pa b)

def strcpyLoop (cr3 : Nat) : Nat → List (BitVec 8) → Bytes → Except Stop Bytes
  | dst, [], m => store8 m cr3 dst 0
  | dst, b :: src, m => do
    let m ← store8 m cr3 dst b
    strcpyLoop cr3 ((dst + 1) % 2 ^ 32) src m

/-- `src` is the bytes of a string, without its final 0. -/
def strcpy (m : Bytes) (cr3 dst : Nat) (src : List (BitVec 8)) : Except Stop Bytes := do
  assert (dst ≠ 0) .strcpyDst
  strcpyLoop cr3 dst src m

/-- The arguments of `thread_start`, and the addresses of `main_thread`'s PCB and of `kernel_thread`. -/
structure ThreadArgs where
  name : List (BitVec 8)
  prio : BitVec 32
  function : Nat
  funcArg : Nat
  mainThread : Nat
  kernelThread : Nat

def initThread (a : ThreadArgs) (pthread cr3 : Nat) (m : Bytes) : Except Stop Bytes := do
  let m ← memset m cr3 pthread 0 sizeofTaskStruct
  let m ← strcpy m cr3 (pthread + 8) a.name
  let m ← store32 m cr3 (pthread + 4) (if pthread = a.mainThread then 0 else 1)
  let m ← store32 m cr3 pthread (pthread + pgSize)
  let m ← store8 m cr3 (pthread + 24) (a.prio.setWidth 8)
  let m ← store8 m cr3 (pthread + 25) (a.prio.setWidth 8)
  let m ← store32 m cr3 (pthread + 28) 0
  let m ← store32 m cr3 (pthread + 48) 0
  store32 m cr3 (pthread + 64) 0x19870916

/-- `self_kstack` is a `uint32_t*`: what is subtracted counts words. -/
def threadCreate (a : ThreadArgs) (pthread cr3 : Nat) (m : Bytes) : Except Stop Bytes := do
  let selfKstack ← load32 m cr3 pthread
  let m ← store32 m cr3 pthread ((selfKstack + 2 ^ 32 - 4 * sizeofIntrStack) % 2 ^ 32)
  let selfKstack ← load32 m cr3 pthread
  let m ← store32 m cr3 pthread ((selfKstack + 2 ^ 32 - 4 * sizeofThreadStack) % 2 ^ 32)
  let kthreadStack ← load32 m cr3 pthread
  let m ← store32 m cr3 (kthreadStack + 16) a.kernelThread
  let m ← store32 m cr3 (kthreadStack + 24) a.function
  let m ← store32 m cr3 (kthreadStack + 28) a.funcArg
  let esi ← load32 m cr3 (kthreadStack + 12)
  let m ← store32 m cr3 (kthreadStack + 8) esi
  let m ← store32 m cr3 (kthreadStack + 4) esi
  store32 m cr3 kthreadStack esi

def threadStart (a : ThreadArgs) (s : Mem) : Except Stop (Nat × Mem) := do
  let (thread, s) ← getKernelPages 1 s
  let phys ← initThread a thread s.cr3 s.phys
  let phys ← threadCreate a thread s.cr3 phys
  .ok (thread, { s with phys := phys })

/-! ## Stores into one page -/

/-- The computation returns, and `P` holds of what it returns. -/
def Ends {α : Type} (P : α → Prop) (x : Except Stop α) : Prop := ∃ a, x = .ok a ∧ P a

theorem Ends.bind {α β : Type} {P : α → Prop} {Q : β → Prop} {x : Except Stop α} {g : α → Except Stop β} (h : Ends P x)
    (hg : ∀ a, P a → Ends Q (g a)) : Ends Q (x >>= g) := by
  obtain ⟨a, rfl, ha⟩ := h
  exact hg a ha

/-- The page at `v` lies in frame `f`, and no walk to it reads that frame. -/
structure PageAt (m : Bytes) (cr3 v f : Nat) (T : Set Nat) : Prop where
  window : Window m cr3 T v 4096 fun o => f + o
  apart : ∀ x ∈ T, x ∉ frame f
  pos : 0 < v
  below : v + 4096 < 2 ^ 32

/-- `m` differs from `m0` in frame `f` only. -/
def Inside (f : Nat) (m0 m : Bytes) : Prop := ∀ x, x ∉ frame f → m x = m0 x

/-- And the first word of the frame is `k`. -/
def Holds (f k : Nat) (m0 m : Bytes) : Prop := Inside f m0 m ∧ m.read32 f = k

variable {m0 m : Bytes} {cr3 v f k o x : Nat} {T : Set Nat} {b : BitVec 8} {a : ThreadArgs}

theorem Inside.write32 (h : Inside f m0 m) (ho : o + 4 ≤ 4096) : Inside f m0 (m.write32 (f + o) x) := by
  intro y hy
  rw [Bytes.write32_of_notMem fun hy' => hy (Set.Ico_subset_Ico (by omega) (by omega) hy')]
  exact h y hy

theorem Inside.write8 (h : Inside f m0 m) (ho : o < 4096) : Inside f m0 (m.write8 (f + o) b) := by
  intro y hy
  rw [Bytes.write8_ne _ _ fun e => hy (Set.mem_Ico.mpr ⟨by omega, by omega⟩)]
  exact h y hy

theorem PageAt.mmu (h : PageAt m0 cr3 v f T) (hm : Inside f m0 m) (ho : o < 4096) : mmu m cr3 (v + o) = .ok (f + o) :=
  mmu_of_translate ((h.window.congr fun x hx => hm x (h.apart x hx)).maps o ho)

theorem PageAt.store32 (h : PageAt m0 cr3 v f T) (hm : Inside f m0 m) (ho : o + 4 ≤ 4096) :
    store32 m cr3 (v + o) x = .ok (m.write32 (f + o) x) := by
  unfold Memory.store32
  rw [h.mmu hm (by omega)]
  rfl

theorem PageAt.store8 (h : PageAt m0 cr3 v f T) (hm : Inside f m0 m) (ho : o < 4096) :
    store8 m cr3 (v + o) b = .ok (m.write8 (f + o) b) := by
  unfold Memory.store8
  rw [h.mmu hm ho]
  rfl

theorem PageAt.load32 (h : PageAt m0 cr3 v f T) (hm : Inside f m0 m) (ho : o < 4096) :
    load32 m cr3 (v + o) = .ok (m.read32 (f + o)) := by
  unfold Memory.load32
  rw [h.mmu hm ho]
  rfl

/-- The first word is stored. -/
theorem PageAt.set (h : PageAt m0 cr3 v f T) (hm : Inside f m0 m) (hk : k < 2 ^ 32) :
    Ends (Holds f k m0) (Memory.store32 m cr3 v k) := by
  have hs := h.store32 (x := k) hm (o := 0) (by omega)
  rw [Nat.add_zero, Nat.add_zero] at hs
  refine ⟨_, hs, ?_, Bytes.read32_write32 _ _ hk⟩
  exact hm.write32 (o := 0) (by omega)

/-- It is loaded. -/
theorem PageAt.get (h : PageAt m0 cr3 v f T) (hm : Holds f k m0 m) : Ends (· = k) (Memory.load32 m cr3 v) := by
  have hl := h.load32 hm.1 (o := 0) (by omega)
  rw [Nat.add_zero, Nat.add_zero] at hl
  exact ⟨_, hl, hm.2⟩

/-- A word behind it is stored. -/
theorem PageAt.put (h : PageAt m0 cr3 v f T) (hm : Holds f k m0 m) (h4 : 4 ≤ o) (ho : o + 4 ≤ 4096) :
    Ends (Holds f k m0) (Memory.store32 m cr3 (v + o) x) := by
  refine ⟨_, h.store32 hm.1 ho, hm.1.write32 ho, ?_⟩
  rw [Bytes.read32_write32_of_disjoint (by omega)]
  exact hm.2

theorem PageAt.put8 (h : PageAt m0 cr3 v f T) (hm : Holds f k m0 m) (h4 : 4 ≤ o) (ho : o < 4096) :
    Ends (Holds f k m0) (Memory.store8 m cr3 (v + o) b) := by
  refine ⟨_, h.store8 hm.1 ho, hm.1.write8 ho, ?_⟩
  rw [← hm.2]
  refine Bytes.read32_congr fun y hy => Bytes.write8_ne _ _ ?_
  have := Set.mem_Ico.mp hy
  omega

theorem PageAt.strcpyLoop (h : PageAt m0 cr3 v f T) {src : List (BitVec 8)} (hm : Inside f m0 m)
    (ho : o + src.length < 4096) : Ends (Inside f m0) (strcpyLoop cr3 (v + o) src m) := by
  have hbelow := h.below
  induction src generalizing o m with
  | nil => exact ⟨_, h.store8 hm ho, hm.write8 ho⟩
  | cons b src ih =>
    rw [List.length_cons] at ho
    rw [Memory.strcpyLoop, h.store8 hm (by omega), ok_bind, Nat.mod_eq_of_lt (by omega), Nat.add_assoc]
    exact ih (hm.write8 (by omega)) (by omega)

theorem PageAt.memset (h : PageAt m0 cr3 v f T) : Ends (Inside f m0) (memset m0 cr3 v 0 sizeofTaskStruct) := by
  have hw := h.window.sub (o := 0) (n := sizeofTaskStruct) (by decide)
  have hpos := h.pos
  have hbelow := h.below
  rw [Nat.add_zero] at hw
  have hsize : sizeofTaskStruct = 68 := rfl
  obtain ⟨m, he, -, hout⟩ := memset_spec 0 hw
    (fun i hi hx => h.apart _ hx (Set.mem_Ico.mpr ⟨by omega, by omega⟩)) h.pos (by omega)
  refine ⟨m, he, ?_⟩
  intro y hy
  exact hout y fun i hi e => hy (Set.mem_Ico.mpr ⟨by omega, by omega⟩)

/-! ## init_thread and thread_create -/

/-- The name ends in the page. -/
def ThreadArgs.Fits (a : ThreadArgs) : Prop := 8 + a.name.length < 4096

instance (a : ThreadArgs) : Decidable a.Fits := inferInstanceAs (Decidable (8 + a.name.length < 4096))

theorem PageAt.initThread (h : PageAt m0 cr3 v f T) (ha : a.Fits) :
    Ends (Holds f (v + pgSize) m0) (initThread a v cr3 m0) := by
  have hbelow := h.below
  unfold Memory.initThread
  refine h.memset.bind fun m hm => ?_
  have hname : Ends (Inside f m0) (strcpy m cr3 (v + 8) a.name) := by
    unfold strcpy
    rw [decide_eq_true (by omega : v + 8 ≠ 0), assert_true, ok_bind]
    exact h.strcpyLoop hm ha
  refine hname.bind fun m hm => ?_
  rw [h.store32 hm (by omega), ok_bind]
  refine (h.set (hm.write32 (by omega)) (by unfold pgSize; omega)).bind fun m hm => ?_
  refine (h.put8 hm (by omega) (by omega)).bind fun m hm => ?_
  refine (h.put8 hm (by omega) (by omega)).bind fun m hm => ?_
  refine (h.put hm (by omega) (by omega)).bind fun m hm => ?_
  refine (h.put hm (by omega) (by omega)).bind fun m hm => ?_
  exact h.put hm (by omega) (by omega)

theorem PageAt.threadCreate (h : PageAt m0 cr3 v f T) (hm : Holds f (v + pgSize) m0 m) :
    Ends (Inside f m0) (threadCreate a v cr3 m) := by
  have hbelow := h.below
  -- the thread's stack ends 432 bytes below the end of the page
  have h1 : (v + pgSize + 2 ^ 32 - 4 * sizeofIntrStack) % 2 ^ 32 = v + 3792 := by
    unfold pgSize sizeofIntrStack
    omega
  have h2 : (v + 3792 + 2 ^ 32 - 4 * sizeofThreadStack) % 2 ^ 32 = v + 3664 := by
    unfold sizeofThreadStack
    omega
  unfold Memory.threadCreate
  refine (h.get hm).bind fun k hk => ?_
  subst hk
  rw [h1]
  refine (h.set hm.1 (by omega)).bind fun m hm => ?_
  refine (h.get hm).bind fun k hk => ?_
  subst hk
  rw [h2]
  refine (h.set hm.1 (by omega)).bind fun m hm => ?_
  refine (h.get hm).bind fun k hk => ?_
  subst hk
  simp only [Nat.add_assoc]
  refine (h.put hm (by omega) (by omega)).bind fun m hm => ?_
  refine (h.put hm (by omega) (by omega)).bind fun m hm => ?_
  refine (h.put hm (by omega) (by omega)).bind fun m hm => ?_
  rw [h.load32 hm.1 (by omega), ok_bind]
  refine (h.put hm (by omega) (by omega)).bind fun m hm => ?_
  refine (h.put hm (by omega) (by omega)).bind fun m hm => ?_
  exact ⟨_, h.store32 hm.1 (by omega), hm.1.write32 (by omega)⟩

/-- Both change the page's frame only. -/
theorem PageAt.prepare (h : PageAt m0 cr3 v f T) (ha : a.Fits) :
    ∃ m1 m2, Memory.initThread a v cr3 m0 = .ok m1 ∧ Memory.threadCreate a v cr3 m1 = .ok m2 ∧ Inside f m0 m2 := by
  obtain ⟨m1, h1, hm1⟩ := h.initThread ha
  obtain ⟨m2, h2, hm2⟩ := h.threadCreate (a := a) hm1
  exact ⟨m1, m2, h1, h2, hm2⟩

end TinyOs.Memory
