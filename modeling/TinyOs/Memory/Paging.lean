/-
  TinyOs.Memory.Paging — two-level paging (kernel/memory.c, kernel/memory.h), and
  memset and memcpy of lib/string.c as they run on it.

  `translate` is the processor's walk: from the directory frame in cr3 through one
  directory entry and one table entry. There are no 4 MB pages, ring 0 ignores the R/W
  and U/S bits, and entries only ever change from absent to present, so no stale
  translation is cached. An access to a page that is not mapped is a fault.

  In a directory whose entry 1023 names the directory itself (`SelfMap`), 0xfffff000 is
  the directory and 0xffc00000 + j*4096 the table that entry j names; `pdePtr` and
  `ptePtr` rest on that.
-/

import TinyOs.Kernel.Debug
import TinyOs.Logic.Bytes
import TinyOs.Logic.Runs

namespace TinyOs.Memory

open TinyOs.Kernel TinyOs.Logic

/-- `PDE_IDX(addr)`. -/
def pdeIdx (addr : Nat) : Nat := addr / 2 ^ 22

/-- `PTE_IDX(addr)`. -/
def pteIdx (addr : Nat) : Nat := addr / 2 ^ 12 % 2 ^ 10

/-- `entry & 0x00000001`: the P bit of a directory or table entry. -/
abbrev Present (entry : Nat) : Prop := entry % 2 = 1

/-- `entry & 0xfffff000`. -/
def frameOf (entry : Nat) : Nat := entry / 2 ^ 12 * 2 ^ 12

/-- `PG_US_U | PG_RW_W | PG_P_1` -/
def pgAttr : Nat := 7

def translate (m : Bytes) (cr3 vaddr : Nat) : Option Nat :=
  let pde := m.read32 (cr3 + pdeIdx vaddr * 4)
  if Present pde then
    let pte := m.read32 (frameOf pde + pteIdx vaddr * 4)
    if Present pte then some (frameOf pte + vaddr % 2 ^ 12) else none
  else none

/-- The physical address, or a page fault. -/
def mmu (m : Bytes) (cr3 vaddr : Nat) : Except Stop Nat :=
  match translate m cr3 vaddr with
  | some pa => .ok pa
  | none => .error .fault

/-- `*p` of a word-aligned `uint32_t* p`. -/
def load32 (m : Bytes) (cr3 p : Nat) : Except Stop Nat := do
  let pa ← mmu m cr3 p
  .ok (m.read32 pa)

def store32 (m : Bytes) (cr3 p v : Nat) : Except Stop Bytes := do
  let pa ← mmu m cr3 p
  .ok (m.write32 pa v)

def memsetLoop (cr3 : Nat) (value : BitVec 8) : Nat → Nat → Bytes → Except Stop Bytes
  | 0, _, m => .ok m
  | size + 1, dst, m => do
    let pa ← mmu m cr3 dst
    memsetLoop cr3 value size ((dst + 1) % 2 ^ 32) (m.write8 pa value)

def memset (m : Bytes) (cr3 dst : Nat) (value : BitVec 8) (size : Nat) : Except Stop Bytes := do
  assert (dst ≠ 0) .memsetDst
  memsetLoop cr3 value size dst m

def memcpyLoop (cr3 : Nat) : Nat → Nat → Nat → Bytes → Except Stop Bytes
  | 0, _, _, m => .ok m
  | size + 1, dst, src, m => do
    let ps ← mmu m cr3 src
    let pa ← mmu m cr3 dst
    memcpyLoop cr3 size ((dst + 1) % 2 ^ 32) ((src + 1) % 2 ^ 32) (m.write8 pa (m ps))

def memcpy (m : Bytes) (cr3 dst src size : Nat) : Except Stop Bytes := do
  assert (dst ≠ 0 ∧ src ≠ 0) .memcpyDst
  memcpyLoop cr3 size dst src m

/-- `pte_ptr`: the address at which the entry of `vaddr` can be read and written. -/
def ptePtr (vaddr : Nat) : Nat := 0xffc00000 + pdeIdx vaddr * 2 ^ 12 + pteIdx vaddr * 4

def pdePtr (vaddr : Nat) : Nat := 0xfffff000 + pdeIdx vaddr * 4

/-! ## Entries -/

theorem pteIdx_lt (vaddr : Nat) : pteIdx vaddr < 1024 := Nat.mod_lt _ (by omega)

theorem pdeIdx_lt {vaddr : Nat} (h : vaddr < 2 ^ 32) : pdeIdx vaddr < 1024 := by unfold pdeIdx; omega

theorem frameOf_mod (e : Nat) : frameOf e % 4096 = 0 := by unfold frameOf; omega

/-- A frame's address with the attributes or-ed in. -/
theorem or_attr {f : Nat} (h : f % 4096 = 0) : f ||| pgAttr = f + 7 := by
  have : f = 2 ^ 12 * (f / 2 ^ 12) := by omega
  rw [this, pgAttr, ← Nat.two_pow_add_eq_or_of_lt (by omega)]

theorem present_or_attr {f : Nat} (h : f % 4096 = 0) : Present (f ||| pgAttr) := by
  rw [or_attr h]
  show (f + 7) % 2 = 1
  omega

theorem frameOf_or_attr {f : Nat} (h : f % 4096 = 0) : frameOf (f ||| pgAttr) = f := by
  rw [or_attr h, frameOf]
  omega

/-! ## What a walk reads -/

/-- The two entries that the walk of `vaddr` reads. -/
def footprint (m : Bytes) (cr3 vaddr : Nat) : Set Nat :=
  Bytes.word (cr3 + pdeIdx vaddr * 4) ∪ Bytes.word (frameOf (m.read32 (cr3 + pdeIdx vaddr * 4)) + pteIdx vaddr * 4)

variable {m m' : Bytes} {cr3 vaddr : Nat} {T : Set Nat}

theorem translate_congr (h : Set.EqOn m' m (footprint m cr3 vaddr)) : translate m' cr3 vaddr = translate m cr3 vaddr := by
  have hd := Bytes.read32_congr (h.mono Set.subset_union_left)
  have ht := Bytes.read32_congr (h.mono Set.subset_union_right)
  unfold translate
  simp only [hd, ht]

theorem footprint_congr (h : Set.EqOn m' m (footprint m cr3 vaddr)) : footprint m' cr3 vaddr = footprint m cr3 vaddr := by
  unfold footprint
  rw [Bytes.read32_congr (h.mono Set.subset_union_left)]

theorem translate_of_present (m : Bytes) (cr3 vaddr : Nat) (hd : Present (m.read32 (cr3 + pdeIdx vaddr * 4)))
    (ht : Present (m.read32 (frameOf (m.read32 (cr3 + pdeIdx vaddr * 4)) + pteIdx vaddr * 4))) :
    translate m cr3 vaddr =
      some (frameOf (m.read32 (frameOf (m.read32 (cr3 + pdeIdx vaddr * 4)) + pteIdx vaddr * 4)) + vaddr % 2 ^ 12) := by
  unfold translate
  simp only [if_pos hd, if_pos ht]

theorem mmu_of_translate {pa : Nat} (h : translate m cr3 vaddr = some pa) : mmu m cr3 vaddr = .ok pa := by
  unfold mmu
  rw [h]

/-! ## Ranges of bytes -/

/-- Byte `i` of the range at `dst` lies at `pa i`; its walk reads only addresses in `T`. -/
structure Window (m : Bytes) (cr3 : Nat) (T : Set Nat) (dst size : Nat) (pa : Nat → Nat) : Prop where
  maps : ∀ i, i < size → translate m cr3 (dst + i) = some (pa i)
  reads : ∀ i, i < size → footprint m cr3 (dst + i) ⊆ T

variable {dst src size : Nat} {pa ps : Nat → Nat}

theorem Window.congr (h : Window m cr3 T dst size pa) (he : Set.EqOn m' m T) : Window m' cr3 T dst size pa := by
  refine ⟨fun i hi => ?_, fun i hi => ?_⟩
  · rw [translate_congr (he.mono (h.reads i hi))]; exact h.maps i hi
  · rw [footprint_congr (he.mono (h.reads i hi))]; exact h.reads i hi

theorem Window.mono {T' : Set Nat} (h : Window m cr3 T dst size pa) (hT : T ⊆ T') : Window m cr3 T' dst size pa :=
  ⟨h.maps, fun i hi => (h.reads i hi).trans hT⟩

theorem Window.tail (h : Window m cr3 T dst (size + 1) pa) : Window m cr3 T (dst + 1) size fun i => pa (i + 1) := by
  refine ⟨fun i hi => ?_, fun i hi => ?_⟩
  · rw [show dst + 1 + i = dst + (i + 1) by omega]; exact h.maps (i + 1) (by omega)
  · rw [show dst + 1 + i = dst + (i + 1) by omega]; exact h.reads (i + 1) (by omega)

theorem Window.sub (h : Window m cr3 T dst size pa) {o n : Nat} (hn : o + n ≤ size) :
    Window m cr3 T (dst + o) n fun i => pa (o + i) := by
  refine ⟨fun i hi => ?_, fun i hi => ?_⟩
  · rw [Nat.add_assoc]; exact h.maps (o + i) (by omega)
  · rw [Nat.add_assoc]; exact h.reads (o + i) (by omega)

theorem eqOn_write8 {a : Nat} {b : BitVec 8} (h : a ∉ T) : Set.EqOn (m.write8 a b) m T :=
  fun _ hx => Bytes.write8_ne _ _ fun e => h (e ▸ hx)

/-- memset over a window whose bytes no walk reads: exactly these bytes are written. -/
theorem memsetLoop_spec (value : BitVec 8) (hw : Window m cr3 T dst size pa) (hout : ∀ i, i < size → pa i ∉ T)
    (hwrap : dst + size ≤ 2 ^ 32) :
    ∃ m', memsetLoop cr3 value size dst m = .ok m' ∧ (∀ i, i < size → m' (pa i) = value) ∧
      ∀ x, (∀ i, i < size → x ≠ pa i) → m' x = m x := by
  induction size generalizing dst m pa with
  | zero => exact ⟨m, rfl, fun i hi => by omega, fun _ _ => rfl⟩
  | succ size ih =>
    have h0 : Set.EqOn (m.write8 (pa 0) value) m T := eqOn_write8 (hout 0 (by omega))
    have hrest : Window (m.write8 (pa 0) value) cr3 T ((dst + 1) % 2 ^ 32) size fun i => pa (i + 1) := by
      by_cases e : size = 0
      · subst e; exact ⟨fun i hi => by omega, fun i hi => by omega⟩
      · rw [Nat.mod_eq_of_lt (by omega)]; exact (hw.congr h0).tail
    obtain ⟨m', he, hin, hext⟩ := ih hrest (fun i hi => hout (i + 1) (by omega)) (by omega)
    refine ⟨m', ?_, fun i hi => ?_, fun x hx => ?_⟩
    · have hp : mmu m cr3 dst = .ok (pa 0) := mmu_of_translate (hw.maps 0 (by omega))
      rw [memsetLoop, hp]
      exact he
    · -- the byte is written now, or by a later round, or again by one
      by_cases hl : ∃ j, j < size ∧ pa i = pa (j + 1)
      · obtain ⟨j, hj, e⟩ := hl
        rw [e]; exact hin j hj
      · have hi0 : i = 0 := by
          by_contra h0
          exact hl ⟨i - 1, by omega, by rw [Nat.sub_add_cancel (by omega)]⟩
        subst hi0
        rw [hext _ fun j hj e => hl ⟨j, hj, e⟩, Bytes.write8_same]
    · rw [hext x fun i hi => hx (i + 1) (by omega), Bytes.write8_ne _ _ (hx 0 (by omega))]

theorem memset_spec (value : BitVec 8) (hw : Window m cr3 T dst size pa) (hout : ∀ i, i < size → pa i ∉ T)
    (hd : 0 < dst) (hwrap : dst + size ≤ 2 ^ 32) :
    ∃ m', memset m cr3 dst value size = .ok m' ∧ (∀ i, i < size → m' (pa i) = value) ∧
      ∀ x, (∀ i, i < size → x ≠ pa i) → m' x = m x := by
  unfold memset
  rw [decide_eq_true (by omega : dst ≠ 0), assert_true]
  exact memsetLoop_spec value hw hout hwrap

/-- memcpy out of what the walks read (a directory copied through its self map). -/
theorem memcpyLoop_spec (hw : Window m cr3 T dst size pa) (hs : Window m cr3 T src size ps)
    (hout : ∀ i, i < size → pa i ∉ T) (hin : ∀ i, i < size → ps i ∈ T)
    (hinj : ∀ i j, i < size → j < size → pa i = pa j → i = j)
    (hwrap : dst + size ≤ 2 ^ 32) (hwrap' : src + size ≤ 2 ^ 32) :
    ∃ m', memcpyLoop cr3 size dst src m = .ok m' ∧ (∀ i, i < size → m' (pa i) = m (ps i)) ∧
      ∀ x, (∀ i, i < size → x ≠ pa i) → m' x = m x := by
  induction size generalizing dst src m pa ps with
  | zero => exact ⟨m, rfl, fun i hi => by omega, fun _ _ => rfl⟩
  | succ size ih =>
    have h0 : Set.EqOn (m.write8 (pa 0) (m (ps 0))) m T := eqOn_write8 (hout 0 (by omega))
    have hrest {a : Nat} {p : Nat → Nat} (hwin : Window m cr3 T a (size + 1) p) (hwr : a + (size + 1) ≤ 2 ^ 32) :
        Window (m.write8 (pa 0) (m (ps 0))) cr3 T ((a + 1) % 2 ^ 32) size fun i => p (i + 1) := by
      by_cases e : size = 0
      · subst e; exact ⟨fun i hi => by omega, fun i hi => by omega⟩
      · rw [Nat.mod_eq_of_lt (by omega)]; exact (hwin.congr h0).tail
    obtain ⟨m', he, hin', hext⟩ := ih (hrest hw hwrap) (hrest hs hwrap') (fun i hi => hout (i + 1) (by omega))
      (fun i hi => hin (i + 1) (by omega))
      (fun i j hi hj e => by have := hinj (i + 1) (j + 1) (by omega) (by omega) e; omega) (by omega) (by omega)
    refine ⟨m', ?_, fun i hi => ?_, fun x hx => ?_⟩
    · have hp : mmu m cr3 dst = .ok (pa 0) := mmu_of_translate (hw.maps 0 (by omega))
      have hq : mmu m cr3 src = .ok (ps 0) := mmu_of_translate (hs.maps 0 (by omega))
      rw [memcpyLoop, hp, hq]
      exact he
    · cases i with
      | zero =>
        rw [hext _ fun j hj e => by have := hinj 0 (j + 1) (by omega) (by omega) e; omega, Bytes.write8_same]
      | succ i => rw [hin' i (by omega), h0 (hin (i + 1) (by omega))]
    · rw [hext x fun i hi => hx (i + 1) (by omega), Bytes.write8_ne _ _ (hx 0 (by omega))]

theorem memcpy_spec (hw : Window m cr3 T dst size pa) (hs : Window m cr3 T src size ps)
    (hout : ∀ i, i < size → pa i ∉ T) (hin : ∀ i, i < size → ps i ∈ T)
    (hinj : ∀ i j, i < size → j < size → pa i = pa j → i = j) (hd : 0 < dst) (hs0 : 0 < src)
    (hwrap : dst + size ≤ 2 ^ 32) (hwrap' : src + size ≤ 2 ^ 32) :
    ∃ m', memcpy m cr3 dst src size = .ok m' ∧ (∀ i, i < size → m' (pa i) = m (ps i)) ∧
      ∀ x, (∀ i, i < size → x ≠ pa i) → m' x = m x := by
  unfold memcpy
  rw [decide_eq_true (by omega : dst ≠ 0 ∧ src ≠ 0), assert_true]
  exact memcpyLoop_spec hw hs hout hin hinj hwrap hwrap'

/-! ## The self map -/

/-- The addresses of a frame. -/
abbrev frame (f : Nat) : Set Nat := Set.Ico f (f + 4096)

/-- Entry 1023 of the directory at `cr3` names the directory. -/
structure SelfMap (m : Bytes) (cr3 : Nat) : Prop where
  present : Present (m.read32 (cr3 + 1023 * 4))
  own : frameOf (m.read32 (cr3 + 1023 * 4)) = cr3

theorem SelfMap.aligned (h : SelfMap m cr3) : cr3 % 4096 = 0 := by
  rw [← h.own]; exact frameOf_mod _

theorem pde_word_subset {j : Nat} (hj : j < 1024) : Bytes.word (cr3 + j * 4) ⊆ frame cr3 :=
  Set.Ico_subset_Ico (by omega) (by omega)

theorem SelfMap.congr (h : SelfMap m cr3) (he : Set.EqOn m' m (frame cr3)) : SelfMap m' cr3 := by
  have := Bytes.read32_congr (he.mono (pde_word_subset (by omega : 1023 < 1024)))
  exact ⟨by rw [this]; exact h.present, by rw [this]; exact h.own⟩

/-- Through the self map, 0xffc00000 + j*4096 is the table that entry `j` names. -/
theorem SelfMap.table (h : SelfMap m cr3) {j : Nat} (hj : j < 1024) (hp : Present (m.read32 (cr3 + j * 4))) :
    Window m cr3 (frame cr3) (0xffc00000 + j * 2 ^ 12) 4096 fun o => frameOf (m.read32 (cr3 + j * 4)) + o := by
  have hidx : ∀ o, o < 4096 → pdeIdx (0xffc00000 + j * 2 ^ 12 + o) = 1023 ∧ pteIdx (0xffc00000 + j * 2 ^ 12 + o) = j := by
    intro o ho
    unfold pdeIdx pteIdx
    omega
  refine ⟨fun o ho => ?_, fun o ho => ?_⟩
  · obtain ⟨h1, h2⟩ := hidx o ho
    have hoff : (0xffc00000 + j * 2 ^ 12 + o) % 2 ^ 12 = o := by omega
    have ht := translate_of_present m cr3 (0xffc00000 + j * 2 ^ 12 + o) (by rw [h1]; exact h.present)
      (by rw [h1, h2, h.own]; exact hp)
    rw [ht, h1, h2, h.own, hoff]
  · obtain ⟨h1, h2⟩ := hidx o ho
    unfold footprint
    rw [h1, h2, h.own]
    exact Set.union_subset (pde_word_subset (by omega)) (pde_word_subset hj)

/-- And 0xfffff000 is the directory, the table that entry 1023 names. -/
theorem SelfMap.dir (h : SelfMap m cr3) : Window m cr3 (frame cr3) 0xfffff000 4096 fun o => cr3 + o := by
  have hw := h.table (by omega : 1023 < 1024) h.present
  rw [h.own] at hw
  exact hw

theorem SelfMap.mmu_pdePtr (h : SelfMap m cr3) (hv : vaddr < 2 ^ 32) :
    mmu m cr3 (pdePtr vaddr) = .ok (cr3 + pdeIdx vaddr * 4) := by
  have := pdeIdx_lt hv
  exact mmu_of_translate (h.dir.maps (pdeIdx vaddr * 4) (by omega))

/-- The address of the entry of `vaddr`, when its table exists. -/
def pteAt (m : Bytes) (cr3 vaddr : Nat) : Nat := frameOf (m.read32 (cr3 + pdeIdx vaddr * 4)) + pteIdx vaddr * 4

theorem SelfMap.mmu_ptePtr (h : SelfMap m cr3) (hv : vaddr < 2 ^ 32) (hp : Present (m.read32 (cr3 + pdeIdx vaddr * 4))) :
    mmu m cr3 (ptePtr vaddr) = .ok (pteAt m cr3 vaddr) := by
  have := pteIdx_lt vaddr
  exact mmu_of_translate ((h.table (pdeIdx_lt hv) hp).maps (pteIdx vaddr * 4) (by omega))

theorem SelfMap.load32_pdePtr (h : SelfMap m cr3) (hv : vaddr < 2 ^ 32) :
    load32 m cr3 (pdePtr vaddr) = .ok (m.read32 (cr3 + pdeIdx vaddr * 4)) := by
  unfold load32
  rw [h.mmu_pdePtr hv]; rfl

theorem SelfMap.store32_pdePtr (h : SelfMap m cr3) (hv : vaddr < 2 ^ 32) (v : Nat) :
    store32 m cr3 (pdePtr vaddr) v = .ok (m.write32 (cr3 + pdeIdx vaddr * 4) v) := by
  unfold store32
  rw [h.mmu_pdePtr hv]; rfl

theorem SelfMap.load32_ptePtr (h : SelfMap m cr3) (hv : vaddr < 2 ^ 32) (hp : Present (m.read32 (cr3 + pdeIdx vaddr * 4))) :
    load32 m cr3 (ptePtr vaddr) = .ok (m.read32 (pteAt m cr3 vaddr)) := by
  unfold load32
  rw [h.mmu_ptePtr hv hp]; rfl

theorem SelfMap.store32_ptePtr (h : SelfMap m cr3) (hv : vaddr < 2 ^ 32) (hp : Present (m.read32 (cr3 + pdeIdx vaddr * 4)))
    (v : Nat) : store32 m cr3 (ptePtr vaddr) v = .ok (m.write32 (pteAt m cr3 vaddr) v) := by
  unfold store32
  rw [h.mmu_ptePtr hv hp]; rfl

/-- The page at which the table of `vaddr` is seen. -/
theorem frameOf_ptePtr {vaddr : Nat} : frameOf (ptePtr vaddr) = 0xffc00000 + pdeIdx vaddr * 2 ^ 12 := by
  have := pteIdx_lt vaddr
  unfold frameOf ptePtr
  omega

end TinyOs.Memory
