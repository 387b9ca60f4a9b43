/-
  TinyOs.Memory.Layout — where mem_pool_init puts things, for every memory size.

  `Uint` has its numbers in the source's own types: `uint32_t`, and `uint16_t` for the
  three page counts. Only the first of them, all_free_pages, can lose anything: it is
  free_mem / 4096 cut to 16 bits. What is computed from it fits, so the definitions of
  `TinyOs.Memory.Alloc` are these numbers (`Uint.allFreePages_toNat` to `Uint.bits_toNat`).

  - `layout_safe`: pools, bitmaps and heap lie apart and inside their bounds, for every
    memory from 2 MB on, cut counts or not.
  - `frames_kept_iff`: up to 512 MB no memory is lost exactly where the count is not cut,
    below 258 MB.
-/

import TinyOs.Memory.Failures

namespace TinyOs.Memory

open TinyOs.Kernel TinyOs.Lib TinyOs.Logic

/-! ## The numbers in the source's types -/

namespace Uint

def usedMem : BitVec 32 := 0x100000 + 4096 * 256

def freeMem (allMem : BitVec 32) : BitVec 32 := allMem - usedMem

def allFreePages (allMem : BitVec 32) : BitVec 16 := (freeMem allMem / 4096).setWidth 16

def kernelFreePages (allMem : BitVec 32) : BitVec 16 := allFreePages allMem / 2

def userFreePages (allMem : BitVec 32) : BitVec 16 := allFreePages allMem - kernelFreePages allMem

def kbmLength (allMem : BitVec 32) : BitVec 32 := (kernelFreePages allMem / 8).setWidth 32

def ubmLength (allMem : BitVec 32) : BitVec 32 := (userFreePages allMem / 8).setWidth 32

def upStart (allMem : BitVec 32) : BitVec 32 := usedMem + (kernelFreePages allMem).setWidth 32 * 4096

/-- The three `bits` pointers, one map behind the other. -/
def kernelBits : BitVec 32 := 0xc009a000

def userBits (allMem : BitVec 32) : BitVec 32 := kernelBits + kbmLength allMem

def kernelVaddrBits (allMem : BitVec 32) : BitVec 32 := kernelBits + kbmLength allMem + ubmLength allMem

variable (allMem : BitVec 32)

theorem allFreePages_toNat : (allFreePages allMem).toNat = Memory.allFreePages allMem.toNat := by
  have hsub : (freeMem allMem).toNat = (allMem.toNat + 2 ^ 32 - Memory.usedMem) % 2 ^ 32 := by
    unfold freeMem
    rw [BitVec.toNat_sub]
    have hused : usedMem.toNat = Memory.usedMem := rfl
    rw [hused]
    unfold Memory.usedMem pgSize
    omega
  unfold allFreePages
  rw [BitVec.toNat_setWidth, BitVec.toNat_udiv, hsub]
  rfl

theorem kernelFreePages_toNat : (kernelFreePages allMem).toNat = Memory.kernelFreePages allMem.toNat := by
  unfold kernelFreePages
  rw [BitVec.toNat_udiv, allFreePages_toNat]
  rfl

theorem userFreePages_toNat : (userFreePages allMem).toNat = Memory.userFreePages allMem.toNat := by
  have hall : (allFreePages allMem).toNat < 2 ^ 16 := (allFreePages allMem).isLt
  unfold userFreePages
  rw [BitVec.toNat_sub, kernelFreePages_toNat]
  rw [allFreePages_toNat] at hall ⊢
  unfold Memory.userFreePages Memory.kernelFreePages
  omega

theorem kbmLength_toNat : (kbmLength allMem).toNat = Memory.kbmLength allMem.toNat := by
  have hlt := kernelFreePages_lt allMem.toNat
  unfold kbmLength Memory.kbmLength
  rw [BitVec.toNat_setWidth, BitVec.toNat_udiv, kernelFreePages_toNat]
  show Memory.kernelFreePages allMem.toNat / 8 % 2 ^ 32 = _
  omega

theorem ubmLength_toNat : (ubmLength allMem).toNat = Memory.ubmLength allMem.toNat := by
  have hle := userFreePages_le allMem.toNat
  unfold ubmLength Memory.ubmLength
  rw [BitVec.toNat_setWidth, BitVec.toNat_udiv, userFreePages_toNat]
  show Memory.userFreePages allMem.toNat / 8 % 2 ^ 32 = _
  omega

theorem upStart_toNat (l : PoolLock) : (upStart allMem).toNat = (userPool allMem.toNat l).phyAddrStart := by
  have hlt := kernelFreePages_lt allMem.toNat
  unfold upStart
  rw [BitVec.toNat_add, BitVec.toNat_mul, BitVec.toNat_setWidth, kernelFreePages_toNat]
  show (2097152 + Memory.kernelFreePages allMem.toNat % 2 ^ 32 * 4096 % 2 ^ 32) % 2 ^ 32 = 2097152 + Memory.kernelFreePages _ * 4096
  omega

theorem bits_toNat : kernelBits.toNat = (kernelBitmap allMem.toNat).bits ∧
    (userBits allMem).toNat = (userBitmap allMem.toNat).bits ∧
    (kernelVaddrBits allMem).toNat = (kernelVaddrBitmap allMem.toNat).bits := by
  have hk := kbmLength_lt allMem.toNat
  have hu := ubmLength_le allMem.toNat
  refine ⟨rfl, ?_, ?_⟩
  · unfold userBits
    rw [BitVec.toNat_add, kbmLength_toNat]
    show (3221856256 + Memory.kbmLength allMem.toNat) % 2 ^ 32 = 3221856256 + Memory.kbmLength allMem.toNat
    omega
  · unfold kernelVaddrBits
    rw [BitVec.toNat_add, BitVec.toNat_add, kbmLength_toNat, ubmLength_toNat]
    show ((3221856256 + Memory.kbmLength allMem.toNat) % 2 ^ 32 + Memory.ubmLength allMem.toNat) % 2 ^ 32 =
      3221856256 + Memory.kbmLength allMem.toNat + Memory.ubmLength allMem.toNat
    omega

end Uint

/-! ## The layout -/

structure LaidOut (allMem : Nat) (s : Mem) : Prop where
  /-- Every frame of a pool lies behind the loader's page tables and inside the memory. -/
  frames : ∀ pf i, i < s.frames pf → 0x200000 ≤ (s.pool pf).frame i ∧ (s.pool pf).frame i + 4096 ≤ allMem
  pools : ∀ i j, i < s.frames .kernel → j < s.frames .user → (s.pool .kernel).frame i + 4096 ≤ (s.pool .user).frame j
  /-- The bitmaps of kernel_pool, user_pool and kernel_vaddr. -/
  inside : ∀ b ∈ [(s.pool .kernel).poolBitmap, (s.pool .user).poolBitmap, s.kernelVaddr.vaddrBitmap],
    ∀ x ∈ b.area, 0xc009a000 ≤ x ∧ x < 0xc009e000
  apart : [(s.pool .kernel).poolBitmap, (s.pool .user).poolBitmap, s.kernelVaddr.vaddrBitmap].Pairwise fun b b' =>
    ∀ x ∈ b.area, x ∉ b'.area
  heap : s.kernelVaddr.vaddrStart = 0xc0100000 ∧
    s.kernelVaddr.vaddrStart + 4096 * (8 * s.kernelVaddr.vaddrBitmap.btmpBytesLen) < 0xffc00000

/-- The page counts never exceed what is free, cut or not. -/
theorem freePages_le {allMem : Nat} (h : 0x200000 ≤ allMem) (hlt : allMem < 2 ^ 32) :
    0x200000 + (kernelFreePages allMem + userFreePages allMem) * 4096 ≤ allMem := by
  unfold userFreePages kernelFreePages allFreePages usedMem pgSize
  omega

theorem poolsInit_frames {allMem : Nat} (s : Mem) (h : 0x200000 ≤ allMem) (hlt : allMem < 2 ^ 32) {pf : PoolFlags} {i : Nat}
    (hi : i < (poolsInit allMem s).frames pf) : 0x200000 ≤ ((poolsInit allMem s).pool pf).frame i ∧
      ((poolsInit allMem s).pool pf).frame i + 4096 ≤ allMem := by
  have hle := freePages_le h hlt
  cases pf with
  | kernel =>
    have hi : i < 8 * (kernelFreePages allMem / 8) := hi
    show 0x200000 ≤ 0x200000 + i * 4096 ∧ 0x200000 + i * 4096 + 4096 ≤ allMem
    omega
  | user =>
    have hi : i < 8 * (userFreePages allMem / 8) := hi
    show 0x200000 ≤ 0x200000 + kernelFreePages allMem * 4096 + i * 4096 ∧
      0x200000 + kernelFreePages allMem * 4096 + i * 4096 + 4096 ≤ allMem
    omega

/-- The three maps, back to back. -/
theorem bitmaps_stacked (allMem : Nat) : (kernelBitmap allMem).bits = 0xc009a000 ∧
    (userBitmap allMem).bits = (kernelBitmap allMem).bits + (kernelBitmap allMem).btmpBytesLen ∧
    (kernelVaddrBitmap allMem).bits = (userBitmap allMem).bits + (userBitmap allMem).btmpBytesLen ∧
    (kernelVaddrBitmap allMem).bits + (kernelVaddrBitmap allMem).btmpBytesLen ≤ 0xc009e000 := by
  have hk := kbmLength_lt allMem
  have hu := ubmLength_le allMem
  refine ⟨rfl, rfl, rfl, ?_⟩
  show 0xc009a000 + kbmLength allMem + ubmLength allMem + kbmLength allMem ≤ 0xc009e000
  omega

theorem layout_safe {allMem : Nat} (s : Mem) (h : 0x200000 ≤ allMem) (hlt : allMem < 2 ^ 32) :
    ∃ s', memPoolInit allMem s = .ok s' ∧ LaidOut allMem s' := by
  obtain ⟨h0, h1, h2, h3⟩ := bitmaps_stacked allMem
  refine ⟨poolsInit allMem s, memPoolInit_eq allMem s, ?_, ?_, ?_, ?_, ?_⟩
  · intro pf i hi
    exact poolsInit_frames s h hlt hi
  · intro i j hi _
    have hi : i < 8 * (kernelFreePages allMem / 8) := hi
    show 0x200000 + i * 4096 + 4096 ≤ 0x200000 + kernelFreePages allMem * 4096 + j * 4096
    omega
  · show ∀ b ∈ [kernelBitmap allMem, userBitmap allMem, kernelVaddrBitmap allMem], ∀ x ∈ b.area, 0xc009a000 ≤ x ∧ x < 0xc009e000
    simp only [List.forall_mem_cons, List.not_mem_nil, false_implies, implies_true, and_true, Bitmap.area, Set.mem_Ico]
    refine ⟨?_, ?_, ?_⟩ <;> intro x hx <;> omega
  · show [kernelBitmap allMem, userBitmap allMem, kernelVaddrBitmap allMem].Pairwise fun b b' => ∀ x ∈ b.area, x ∉ b'.area
    simp only [List.pairwise_cons, List.forall_mem_cons, List.not_mem_nil, false_implies, implies_true, and_true,
      List.Pairwise.nil, Bitmap.area, Set.mem_Ico]
    refine ⟨⟨?_, ?_⟩, ?_⟩ <;> intro x hx hx' <;> omega
  · have hk := kbmLength_lt allMem
    refine ⟨rfl, ?_⟩
    show 0xc0100000 + 4096 * (8 * kbmLength allMem) < 0xffc00000
    omega

/-- A machine with 32 MB. -/
theorem layout_safe_32M : ∃ s', memPoolInit 0x2000000 smallMem = .ok s' ∧ LaidOut 0x2000000 s' :=
  layout_safe smallMem (by decide) (by decide)

/-! ## Frames lost -/

/-- All but the remainders of two divisions by 8 of the free frames are in a pool. -/
def FramesKept (allMem : Nat) (s : Mem) : Prop :=
  (allMem - 0x200000) / 4096 - 14 ≤ 8 * (s.pool .kernel).poolBitmap.btmpBytesLen + 8 * (s.pool .user).poolBitmap.btmpBytesLen

/-- all_free_pages is cut from 256 MB of free memory on. -/
theorem frames_kept_iff {allMem : Nat} {s s' : Mem} (h : 0x200000 ≤ allMem) (hle : allMem ≤ 0x20000000)
    (hs : memPoolInit allMem s = .ok s') : FramesKept allMem s' ↔ allMem < 0x10200000 := by
  rw [memPoolInit_eq] at hs
  cases hs
  show (allMem - 0x200000) / 4096 - 14 ≤ 8 * (kernelFreePages allMem / 8) + 8 * (userFreePages allMem / 8) ↔ _
  have hfree : (allMem + 2 ^ 32 - usedMem) % 2 ^ 32 / pgSize = (allMem - 0x200000) / 4096 := by
    unfold usedMem pgSize
    omega
  unfold userFreePages kernelFreePages allFreePages
  rw [hfree]
  omega

theorem frames_kept_32M : FramesKept 0x2000000 (poolsInit 0x2000000 smallMem) :=
  (frames_kept_iff (by decide) (by decide) (memPoolInit_eq 0x2000000 smallMem)).mpr (by decide)

/-- With 258 MB no frame is left. -/
theorem frames_lost_258M : (poolsInit 0x10200000 smallMem).frames .kernel = 0 ∧ (poolsInit 0x10200000 smallMem).frames .user = 0 ∧
    ¬ FramesKept 0x10200000 (poolsInit 0x10200000 smallMem) := by
  unfold FramesKept
  decide

end TinyOs.Memory
