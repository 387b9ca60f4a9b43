/-
  TinyOs.Boot.MemoryDetect — from the BIOS's answers to the frame pools (boot/loader.s,
  kernel/memory.c).

  The loader asks int 15h for the memory, with E801h and if that fails with 88h, and stores
  the sum in total_mem_bytes, at 0xb00; with paging on, mem_init reads it there. E801h
  answers two counts: what follows the first megabyte, below 16 MB, and what follows
  16 MB. Added up they are a size only where the first is the whole 15 MB or the second 0.

  `detected_pools`: from any such answers below 4 GB every frame of either pool is memory that
  the BIOS has reported; with a hole of nine pages or more, and memory behind it, a pool has
  frames in it (`Hole`).
-/

import TinyOs.Memory.Layout
import TinyOs.Memory.SetupPage

namespace TinyOs.Boot

open TinyOs.Kernel TinyOs.Lib TinyOs.Logic TinyOs.Memory

/-! ## The loader -/

/-- The registers and the carry flag after int 15h. -/
structure Answer where
  carry : Bool
  eax : BitVec 32
  ebx : BitVec 32
  edx : BitVec 32

def low (r : BitVec 32) : BitVec 16 := r.setWidth 16

def setLow (r : BitVec 32) (v : BitVec 16) : BitVec 32 := r.extractLsb' 16 16 ++ v

/-- `mul cx`: eax and edx with the product of ax and cx in ax and dx. -/
def mulCx (eax edx : BitVec 32) (cx : BitVec 16) : BitVec 32 × BitVec 32 :=
  let product := (low eax).setWidth 32 * cx.setWidth 32
  (setLow eax (low product), setLow edx (low (product >>> 16)))

/-- `mul ecx`: the low and the high half of the product. -/
def mulEcx (eax ecx : BitVec 32) : BitVec 32 × BitVec 32 :=
  let product := eax.setWidth 64 * ecx.setWidth 64
  (product.setWidth 32, (product >>> 32).setWidth 32)

/-- From `mov cx, 0x400` after E801h to `mov edx, esi`. -/
def e801Total (a : Answer) : BitVec 32 :=
  let (eax, edx) := mulCx a.eax a.edx 0x400
  let edx := edx <<< 16
  let eax := eax &&& 0x0000ffff
  let edx := edx ||| eax
  let edx := edx + 0x100000
  let esi := edx
  let eax := setLow 0 (low a.ebx)
  let (eax, _) := mulEcx eax 0x10000
  let esi := esi + eax
  esi

/-- From `and eax, 0x0000FFFF` after 88h on. -/
def e88Total (a : Answer) : BitVec 32 :=
  let eax := a.eax &&& 0x0000ffff
  let (eax, edx) := mulCx eax a.edx 0x400
  let edx := edx <<< 16
  let edx := edx ||| eax
  edx + 0x100000

/-- `none`: `.error_hlt`. -/
def detect (e801 e88 : Answer) : Option (BitVec 32) :=
  if e801.carry then
    if e88.carry then none else some (e88Total e88)
  else some (e801Total e801)

def totalMemBytes : Nat := 0xb00

/-- The loader's memory once it has stored the size and called setup_page. -/
def loaderMem (total : BitVec 32) (m : Bytes) : Bytes := setupPage (m.write32 totalMemBytes total.toNat)

def memInit (s : Mem) : Except Stop Mem := do
  let memBytesTotal ← load32 s.phys s.cr3 totalMemBytes
  memPoolInit memBytesTotal s

/-! ## What is reported -/

namespace Answer

/-- The bytes after the first megabyte, counted in KB. -/
def extended (a : Answer) : Nat := (low a.eax).toNat * 0x400

/-- The bytes after 16 MB, counted in 64 KB. -/
def above16 (a : Answer) : Nat := (low a.ebx).toNat * 0x10000

end Answer

/-- The memory above the first megabyte. -/
def Reported (e801 e88 : Answer) : Set Nat :=
  if e801.carry then Set.Ico 0x100000 (0x100000 + e88.extended)
  else Set.Ico 0x100000 (0x100000 + e801.extended) ∪ Set.Ico 0x1000000 (0x1000000 + e801.above16)

/-- There is no hole below 16 MB, or nothing above it. -/
def Contiguous (e801 : Answer) : Prop := e801.carry = true ∨ e801.extended = 0xf00000 ∨ e801.above16 = 0

/-- A hole above the page tables, and more than what the pools round off behind it; the size is
one that the page counts can hold. -/
structure Hole (e801 : Answer) : Prop where
  answered : e801.carry = false
  start : 0x100000 ≤ e801.extended
  size : e801.extended + 9 * pgSize ≤ 0xf00000
  behind : 0x20000 ≤ e801.above16
  counted : 0x100000 + e801.extended + e801.above16 < 0x10200000

/-! ## The sums -/

theorem low_toNat (r : BitVec 32) : (low r).toNat = r.toNat % 65536 := BitVec.toNat_setWidth ..

theorem setLow_toNat (r : BitVec 32) (v : BitVec 16) : (setLow r v).toNat = r.toNat / 65536 * 65536 + v.toNat := by
  have hv := v.isLt
  have hr := r.isLt
  have hor := Nat.two_pow_add_eq_or_of_lt hv (r.extractLsb' 16 16).toNat
  show (r.extractLsb' 16 16 ++ v : BitVec (16 + 16)).toNat = _
  rw [BitVec.toNat_append, Nat.shiftLeft_eq, Nat.mul_comm, ← hor, BitVec.extractLsb'_toNat, Nat.shiftRight_eq_div_pow]
  omega

theorem low_setLow (r : BitVec 32) (v : BitVec 16) : low (setLow r v) = v := by
  have hv := v.isLt
  apply BitVec.eq_of_toNat_eq
  rw [low_toNat, setLow_toNat]
  omega

theorem and_low (r : BitVec 32) : (r &&& 0x0000ffff).toNat = (low r).toNat := by
  rw [BitVec.toNat_and, low_toNat]
  exact Nat.and_two_pow_sub_one_eq_mod r.toNat 16

/-- dx shifted up over ax. -/
theorem joined (r w : BitVec 32) (v : BitVec 16) (hw : w.toNat < 65536) :
    (setLow r v <<< 16 ||| w).toNat = v.toNat * 65536 + w.toNat := by
  have hv := v.isLt
  have hor := Nat.two_pow_add_eq_or_of_lt (i := 16) hw v.toNat
  have hshift : (setLow r v <<< 16).toNat = 2 ^ 16 * v.toNat := by
    rw [BitVec.toNat_shiftLeft, setLow_toNat, Nat.shiftLeft_eq]
    omega
  rw [BitVec.toNat_or, hshift, ← hor]
  omega

theorem product_toNat (a b : BitVec 16) : (a.setWidth 32 * b.setWidth 32 : BitVec 32).toNat = a.toNat * b.toNat := by
  have hprod : a.toNat * b.toNat < 2 ^ 16 * 2 ^ 16 := Nat.mul_lt_mul'' a.isLt b.isLt
  rw [BitVec.toNat_mul, BitVec.toNat_setWidth_of_le (by decide), BitVec.toNat_setWidth_of_le (by decide)]
  exact Nat.mod_eq_of_lt hprod

/-- dx over ax is the whole product. -/
theorem mulCx_joined (eax edx : BitVec 32) (cx : BitVec 16) {w : BitVec 32} (hw : w.toNat = (low (mulCx eax edx cx).1).toNat) :
    ((mulCx eax edx cx).2 <<< 16 ||| w).toNat = (low eax).toNat * cx.toNat := by
  have hprod := product_toNat (low eax) cx
  have hlt := (low (mulCx eax edx cx).1).isLt
  unfold mulCx at hw hlt ⊢
  generalize (low eax).setWidth 32 * cx.setWidth 32 = p at hprod hw hlt
  simp only [low_setLow] at hw hlt
  rw [joined _ _ _ (by omega), hw, low_toNat, low_toNat, BitVec.toNat_ushiftRight, Nat.shiftRight_eq_div_pow, ← hprod]
  have hp := p.isLt
  omega

theorem mulEcx_low (v : BitVec 16) : (mulEcx (setLow 0 v) 0x10000).1.toNat = v.toNat * 0x10000 := by
  have hv := v.isLt
  have hset : (setLow 0 v).toNat = v.toNat := by
    rw [setLow_toNat]
    simp
  have hmul : ((setLow 0 v).setWidth 64 * (0x10000 : BitVec 32).setWidth 64 : BitVec 64).toNat = v.toNat * 0x10000 := by
    rw [BitVec.toNat_mul, BitVec.toNat_setWidth_of_le (by decide), BitVec.toNat_setWidth_of_le (by decide), hset]
    show v.toNat * 0x10000 % 2 ^ 64 = _
    omega
  unfold mulEcx
  rw [BitVec.toNat_setWidth, hmul]
  omega

theorem e801Total_toNat (a : Answer) : (e801Total a).toNat = (0x100000 + a.extended + a.above16) % 2 ^ 32 := by
  have hjoin := mulCx_joined a.eax a.edx 0x400 (and_low _)
  have hmul := mulEcx_low (low a.ebx)
  have he : e801Total a = ((mulCx a.eax a.edx 0x400).2 <<< 16 ||| (mulCx a.eax a.edx 0x400).1 &&& 0x0000ffff) + 0x100000 +
    (mulEcx (setLow 0 (low a.ebx)) 0x10000).1 := rfl
  rw [he, BitVec.toNat_add, BitVec.toNat_add, hjoin, hmul]
  unfold Answer.extended Answer.above16
  have h1 : (0x400 : BitVec 16).toNat = 0x400 := rfl
  have h2 : (0x100000 : BitVec 32).toNat = 0x100000 := rfl
  rw [h1, h2]
  omega

theorem e88Total_toNat (a : Answer) : (e88Total a).toNat = 0x100000 + a.extended := by
  have hlt := (low a.eax).isLt
  have heax : (a.eax &&& 0x0000ffff).toNat < 65536 := by rw [and_low]; exact hlt
  have hlow : low (a.eax &&& 0x0000ffff) = low a.eax := by
    apply BitVec.eq_of_toNat_eq
    rw [low_toNat, Nat.mod_eq_of_lt heax, and_low]
  -- nothing is left above ax
  have hax : (mulCx (a.eax &&& 0x0000ffff) a.edx 0x400).1.toNat = (low (mulCx (a.eax &&& 0x0000ffff) a.edx 0x400).1).toNat := by
    unfold mulCx
    simp only [low_setLow]
    rw [setLow_toNat, Nat.div_eq_of_lt heax]
    omega
  have hjoin := mulCx_joined (a.eax &&& 0x0000ffff) a.edx 0x400 hax
  have he : e88Total a = ((mulCx (a.eax &&& 0x0000ffff) a.edx 0x400).2 <<< 16 |||
    (mulCx (a.eax &&& 0x0000ffff) a.edx 0x400).1) + 0x100000 := rfl
  rw [he, BitVec.toNat_add, hjoin, hlow]
  unfold Answer.extended
  have h1 : (0x400 : BitVec 16).toNat = 0x400 := rfl
  have h2 : (0x100000 : BitVec 32).toNat = 0x100000 := rfl
  rw [h1, h2]
  omega

/-! ## The pools -/

variable {e801 e88 : Answer} {total : BitVec 32} {m : Bytes} {s : Mem}

/-- Since the loader nobody has written to the size, the directory and the first table. -/
def Untouched (total : BitVec 32) (m : Bytes) (s : Mem) : Prop :=
  s.cr3 = pageDirTablePos ∧ Set.EqOn s.phys (loaderMem total m) (Bytes.word totalMemBytes ∪ Set.Ico 0x100000 0x102000)

/-- The first megabyte in either of its windows, whatever the rest of memory is. -/
theorem megabyte_walk {phys : Bytes} {v : Nat} (he : Set.EqOn phys (setupPage m) (Set.Ico 0x100000 0x102000))
    (hd : pdeIdx v = 0 ∨ pdeIdx v = 768) (hi : pteIdx v < 256) :
    translate phys pageDirTablePos v = some (pteIdx v * 4096 + v % 2 ^ 12) := by
  have hpde : (setupPage m).read32 (pageDirTablePos + pdeIdx v * 4) = kernelTable 768 ||| pgAttr := by
    rw [setupPage_pde (by unfold pdeIdx at hd; omega)]
    rcases hd with hd | hd <;> rw [hd] <;> rfl
  rw [← setupPage_megabyte hi hpde]
  apply translate_congr
  unfold footprint
  rw [hpde, frameOf_or_attr (kernelTable_aligned 768)]
  refine he.mono (Set.union_subset ?_ ?_)
  · refine Set.Ico_subset_Ico ?_ ?_ <;> unfold pageDirTablePos <;> omega
  · refine Set.Ico_subset_Ico ?_ ?_ <;> unfold kernelTable pageDirTablePos <;> omega

theorem memInit_eq (h : Untouched total m s) : memInit s = .ok (poolsInit total.toNat s) := by
  obtain ⟨hc, he⟩ := h
  have hwalk : translate s.phys s.cr3 totalMemBytes = some totalMemBytes := by
    rw [hc]
    exact megabyte_walk (he.mono Set.subset_union_right) (.inl (by decide)) (by decide)
  have hsize : s.phys.read32 totalMemBytes = total.toNat := by
    rw [Bytes.read32_congr (he.mono Set.subset_union_left)]
    refine Eq.trans ?_ (Bytes.read32_write32 m totalMemBytes total.isLt)
    refine Bytes.read32_congr fun x hx => setupPage_outside (.inl ?_)
    have hx := (Set.mem_Ico.mp hx).2
    unfold totalMemBytes at hx
    unfold pageDirTablePos
    omega
  unfold memInit load32
  rw [mmu_of_translate hwalk, ok_bind, ok_bind, hsize]
  exact memPoolInit_eq _ _

theorem detect_toNat (h : detect e801 e88 = some total) :
    (e801.carry = true ∧ total.toNat = 0x100000 + e88.extended) ∨
      (e801.carry = false ∧ total.toNat = (0x100000 + e801.extended + e801.above16) % 2 ^ 32) := by
  unfold detect at h
  split at h
  · next hc =>
    split at h
    · cases h
    · rw [← Option.some.inj h]
      exact .inl ⟨hc, e88Total_toNat e88⟩
  · next hc =>
    rw [← Option.some.inj h]
    exact .inr ⟨by simpa using hc, e801Total_toNat e801⟩

/-- Without a hole the size is where the reported memory ends. -/
theorem Contiguous.reported (hcont : Contiguous e801) (h : detect e801 e88 = some total)
    (hfit : e801.carry = false → 0x100000 + e801.extended + e801.above16 < 2 ^ 32) :
    Set.Ico 0x100000 total.toNat ⊆ Reported e801 e88 := by
  intro a ha
  obtain ⟨h1, h2⟩ := Set.mem_Ico.mp ha
  unfold Reported
  rcases detect_toNat h with ⟨hc, ht⟩ | ⟨hc, ht⟩
  · rw [if_pos hc]
    exact Set.mem_Ico.mpr ⟨h1, by omega⟩
  · rw [Nat.mod_eq_of_lt (hfit hc)] at ht
    rw [if_neg (by rw [hc]; exact Bool.noConfusion)]
    rcases hcont with hcarry | hfull | hnone
    · rw [hc] at hcarry
      cases hcarry
    · by_cases hlow : a < 0x1000000
      · exact .inl (Set.mem_Ico.mpr ⟨h1, by omega⟩)
      · exact .inr (Set.mem_Ico.mpr ⟨by omega, by omega⟩)
    · exact .inl (Set.mem_Ico.mpr ⟨h1, by omega⟩)

/-- Nine pages of the hole hold a whole frame of a pool, though each pool ends within seven frames of its part. -/
theorem Hole.exists_frame (hh : Hole e801) (s : Mem) {allMem : Nat} (ht : allMem = 0x100000 + e801.extended + e801.above16) :
    ∃ pf i, i < (poolsInit allMem s).frames pf ∧ 0x100000 + e801.extended ≤ ((poolsInit allMem s).pool pf).frame i ∧
      ((poolsInit allMem s).pool pf).frame i + 4096 ≤ 0x1000000 := by
  have h1 := hh.start
  have h2 := hh.size
  have h3 := hh.behind
  have h4 := hh.counted
  unfold pgSize at h2
  have hall : allFreePages allMem = (allMem - 0x200000) / 4096 := by
    unfold allFreePages usedMem pgSize
    omega
  have huser : userFreePages allMem = allFreePages allMem - kernelFreePages allMem := rfl
  have hhalf : kernelFreePages allMem = allFreePages allMem / 2 := rfl
  have hkernel : ∀ i, i < 8 * (kernelFreePages allMem / 8) → i < (poolsInit allMem s).frames .kernel ∧
      ((poolsInit allMem s).pool .kernel).frame i = 0x200000 + i * 4096 := fun i hi => ⟨hi, rfl⟩
  have huserFrame : ∀ i, i < 8 * (userFreePages allMem / 8) → i < (poolsInit allMem s).frames .user ∧
      ((poolsInit allMem s).pool .user).frame i = 0x200000 + kernelFreePages allMem * 4096 + i * 4096 := fun i hi => ⟨hi, rfl⟩
  -- the first whole page of the hole
  obtain ⟨p, hp⟩ : ∃ p, p = (e801.extended - 0x100000 + 4095) / 4096 := ⟨_, rfl⟩
  by_cases hlow : p < 8 * (kernelFreePages allMem / 8)
  · obtain ⟨hi, hf⟩ := hkernel p hlow
    exact ⟨.kernel, p, hi, by omega, by omega⟩
  · by_cases hin : p < kernelFreePages allMem
    · obtain ⟨hi, hf⟩ := huserFrame 0 (by omega)
      exact ⟨.user, 0, hi, by omega, by omega⟩
    · obtain ⟨hi, hf⟩ := huserFrame (p - kernelFreePages allMem) (by omega)
      exact ⟨.user, _, hi, by omega, by omega⟩

theorem Hole.unreported (hh : Hole e801) {f : Nat} (h1 : 0x100000 + e801.extended ≤ f) (h2 : f + 4096 ≤ 0x1000000) :
    ∀ a ∈ frame f, a ∉ Reported e801 e88 := by
  intro a ha hr
  obtain ⟨ha1, ha2⟩ := Set.mem_Ico.mp ha
  unfold Reported at hr
  rw [if_neg (by rw [hh.answered]; exact Bool.noConfusion)] at hr
  rcases hr with hr | hr
  · have hr := (Set.mem_Ico.mp hr).2
    omega
  · have hr := (Set.mem_Ico.mp hr).1
    omega

/-- From the BIOS's answers, through total_mem_bytes and the page tables, to the two pools. -/
theorem detected_pools (h : detect e801 e88 = some total)
    (hfit : e801.carry = false → 0x100000 + e801.extended + e801.above16 < 2 ^ 32) (hmin : 0x200000 ≤ total.toNat)
    (hs : Untouched total m s) :
    ∃ s', memInit s = .ok s' ∧
      (Contiguous e801 → ∀ pf i, i < s'.frames pf → frame ((s'.pool pf).frame i) ⊆ Reported e801 e88) ∧
      (Hole e801 → ∃ pf i, i < s'.frames pf ∧ ∀ a ∈ frame ((s'.pool pf).frame i), a ∉ Reported e801 e88) := by
  refine ⟨poolsInit total.toNat s, memInit_eq hs, ?_, ?_⟩
  · intro hcont pf i hi a ha
    obtain ⟨h1, h2⟩ := poolsInit_frames s hmin total.isLt hi
    obtain ⟨ha1, ha2⟩ := Set.mem_Ico.mp ha
    exact hcont.reported h hfit (Set.mem_Ico.mpr ⟨by omega, by omega⟩)
  · intro hh
    rcases detect_toNat h with ⟨hc, -⟩ | ⟨hc, ht⟩
    · rw [hh.answered] at hc
      cases hc
    · rw [Nat.mod_eq_of_lt (hfit hc)] at ht
      obtain ⟨pf, i, hi, h1, h2⟩ := hh.exists_frame s ht
      exact ⟨pf, i, hi, hh.unreported h1 h2⟩

/-! ## Two machines -/

/-- 32 MB, and a machine with the ISA hole from 15 MB on and 2 MB behind it. -/
def plain32M : Answer := ⟨false, 0x3c00, 0x100, 0⟩

def isaHole : Answer := ⟨false, 0x3800, 0x20, 0⟩

def failed : Answer := ⟨true, 0, 0, 0⟩

def detectedMem (total : BitVec 32) : Mem := { smallMem with phys := loaderMem total fun _ => 0, cr3 := pageDirTablePos }

theorem detectedMem_untouched (total : BitVec 32) : Untouched total (fun _ => 0) (detectedMem total) := by
  refine ⟨rfl, ?_⟩
  unfold detectedMem
  dsimp only
  exact Set.eqOn_refl _ _

theorem isaHole_pools : ∃ s', memInit (detectedMem 0x1100000) = .ok s' ∧
    (Contiguous isaHole → ∀ pf i, i < s'.frames pf → frame ((s'.pool pf).frame i) ⊆ Reported isaHole failed) ∧
    (Hole isaHole → ∃ pf i, i < s'.frames pf ∧ ∀ a ∈ frame ((s'.pool pf).frame i), a ∉ Reported isaHole failed) :=
  have h : detect isaHole failed = some 0x1100000 := by decide +kernel
  detected_pools h (by decide +kernel) (by decide) (detectedMem_untouched _)

/-- Both kinds of answers there are. -/
example : Contiguous plain32M ∧ Hole isaHole := ⟨.inr (.inl (by decide)), by decide, by decide, by decide, by decide, by decide⟩

end TinyOs.Boot
