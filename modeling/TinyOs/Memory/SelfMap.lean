/-
  TinyOs.Memory.SelfMap — pte_ptr, pde_ptr and addr_v2p in 32-bit words (kernel/memory.c).

  The masks and shifts of the source, with sums that may wrap. None does, and each is the
  quotient or remainder that `pdeIdx`, `pteIdx`, `ptePtr` and `pdePtr` have for it
  (`ptePtrWord_toNat`, `pdePtrWord_toNat`).

  `self_map_exact`: in a directory that names itself, the two pointers are translated to
  the entries they stand for, whatever the address; in the window from 0xffc00000 on the
  walk goes through the directory twice. `addr_v2p` does not name its parameter; it is
  read as `vaddr`.
-/

import TinyOs.Memory.Mapping

namespace TinyOs.Memory

open TinyOs.Kernel TinyOs.Logic

/-- `PDE_IDX(addr)` -/
def pdeIdxWord (addr : BitVec 32) : BitVec 32 := (addr &&& 0xffc00000) >>> 22

/-- `PTE_IDX(addr)` -/
def pteIdxWord (addr : BitVec 32) : BitVec 32 := (addr &&& 0x003ff000) >>> 12

def ptePtrWord (vaddr : BitVec 32) : BitVec 32 := 0xffc00000#32 + ((vaddr &&& 0xffc00000) >>> 10) + pteIdxWord vaddr * 4

def pdePtrWord (vaddr : BitVec 32) : BitVec 32 := 0xfffff000 + pdeIdxWord vaddr * 4

def addrV2pWord (m : Bytes) (cr3 : Nat) (vaddr : BitVec 32) : Except Stop (BitVec 32) := do
  let pte ← load32 m cr3 (ptePtrWord vaddr).toNat
  .ok ((BitVec.ofNat 32 pte &&& 0xfffff000) + (vaddr &&& 0x00000fff))

/-! ## Masks -/

/-- A mask of all bits from `k` on. -/
theorem and_high (v mask : BitVec 32) {k : Nat} (h : ∀ i, i < 32 → mask.getLsbD i = decide (k ≤ i)) :
    (v &&& mask).toNat = v.toNat / 2 ^ k * 2 ^ k := by
  have hshift : v &&& mask = (v >>> k) <<< k := by
    refine BitVec.eq_of_getLsbD_eq fun i hi => ?_
    rw [BitVec.getLsbD_and, h i hi, BitVec.getLsbD_shiftLeft, BitVec.getLsbD_ushiftRight]
    by_cases hk : k ≤ i
    · simp [hk, hi]
    · simp [hk]
  have hle : v.toNat / 2 ^ k * 2 ^ k ≤ v.toNat := Nat.div_mul_le_self ..
  rw [hshift, BitVec.toNat_shiftLeft, BitVec.toNat_ushiftRight, Nat.shiftRight_eq_div_pow, Nat.shiftLeft_eq]
  exact Nat.mod_eq_of_lt (by omega)

theorem and_low (v : BitVec 32) (k : Nat) (hk : k < 32) : (v &&& BitVec.ofNat 32 (2 ^ k - 1)).toNat = v.toNat % 2 ^ k := by
  have hlt : 2 ^ k < 2 ^ 32 := Nat.pow_lt_pow_right (by decide) hk
  rw [BitVec.toNat_and, BitVec.toNat_ofNat, Nat.mod_eq_of_lt (by omega), Nat.and_two_pow_sub_one_eq_mod]

variable (v : BitVec 32)

theorem dir_mask : (v &&& 0xffc00000).toNat = v.toNat / 2 ^ 22 * 2 ^ 22 := and_high v 0xffc00000 (by decide)

theorem pdeIdxWord_toNat : (pdeIdxWord v).toNat = pdeIdx v.toNat := by
  unfold pdeIdxWord pdeIdx
  rw [BitVec.toNat_ushiftRight, dir_mask, Nat.shiftRight_eq_div_pow]
  exact Nat.mul_div_cancel _ (by decide)

theorem pteIdxWord_toNat : (pteIdxWord v).toNat = pteIdx v.toNat := by
  have hshift : pteIdxWord v = (v >>> 12) &&& BitVec.ofNat 32 (2 ^ 10 - 1) := by
    unfold pteIdxWord
    rw [BitVec.ushiftRight_and_distrib]
    rfl
  rw [hshift, and_low _ 10 (by decide), BitVec.toNat_ushiftRight, Nat.shiftRight_eq_div_pow]
  rfl

theorem pdePtrWord_toNat : (pdePtrWord v).toNat = pdePtr v.toNat := by
  have hidx := pdeIdxWord_toNat v
  have hlt := pdeIdx_lt v.isLt
  unfold pdePtrWord pdePtr
  bv_omega

theorem ptePtrWord_toNat : (ptePtrWord v).toNat = ptePtr v.toNat := by
  have hdir : ((v &&& 0xffc00000) >>> 10).toNat = pdeIdx v.toNat * 2 ^ 12 := by
    rw [BitVec.toNat_ushiftRight, dir_mask, Nat.shiftRight_eq_div_pow]
    unfold pdeIdx
    omega
  have hidx := pteIdxWord_toNat v
  have hlt := pteIdx_lt v.toNat
  have hlt' := pdeIdx_lt v.isLt
  unfold ptePtrWord ptePtr
  generalize (v &&& 0xffc00000) >>> 10 = dir at hdir
  bv_omega

theorem frame_mask (e : Nat) (he : e < 2 ^ 32) : (BitVec.ofNat 32 e &&& 0xfffff000).toNat = frameOf e := by
  rw [and_high _ 0xfffff000 (k := 12) (by decide), BitVec.toNat_ofNat, Nat.mod_eq_of_lt he]
  rfl

/-! ## The walk -/

variable {m : Bytes} {cr3 : Nat}

/-- What the processor finds for a mapped address is what `addr_v2p` computes. -/
theorem SelfMap.addrV2pWord (h : SelfMap m cr3) {pa : Nat} (ht : translate m cr3 v.toNat = some pa) :
    ∃ r, Memory.addrV2pWord m cr3 v = .ok r ∧ r.toNat = pa := by
  have hp : Present (m.read32 (cr3 + pdeIdx v.toNat * 4)) := by
    by_contra hno
    rw [translate_absent hno] at ht
    cases ht
  rw [translate_table hp] at ht
  unfold Memory.addrV2pWord
  rw [ptePtrWord_toNat, h.load32_ptePtr v.isLt hp, ok_bind]
  refine ⟨_, rfl, ?_⟩
  split at ht
  · have hframe := frame_mask (m.read32 (pteAt m cr3 v.toNat)) (Bytes.read32_lt _ _)
    have hoff : (v &&& 0x00000fff).toNat = v.toNat % 2 ^ 12 := and_low v 12 (by decide)
    have hlt : frameOf (m.read32 (pteAt m cr3 v.toNat)) + v.toNat % 2 ^ 12 < 2 ^ 32 := by
      have hread := Bytes.read32_lt m (pteAt m cr3 v.toNat)
      unfold frameOf
      omega
    obtain rfl := Option.some.inj ht
    rw [BitVec.toNat_add, hframe, hoff, Nat.mod_eq_of_lt hlt]
  · cases ht

/-- Directory entry, table entry and address, for every word. -/
theorem self_map_exact (m : Bytes) (cr3 : Nat) (vaddr : BitVec 32) (h : SelfMap m cr3) :
    translate m cr3 (pdePtrWord vaddr).toNat = some (cr3 + (vaddr >>> 22).toNat * 4) ∧
    (Present (m.read32 (cr3 + (vaddr >>> 22).toNat * 4)) → translate m cr3 (ptePtrWord vaddr).toNat =
      some (frameOf (m.read32 (cr3 + (vaddr >>> 22).toNat * 4)) + ((vaddr >>> 12) &&& 0x3ff).toNat * 4)) ∧
    ∀ pa, translate m cr3 vaddr.toNat = some pa → ∃ r, addrV2pWord m cr3 vaddr = .ok r ∧ r.toNat = pa := by
  have hdir : (vaddr >>> 22).toNat = pdeIdx vaddr.toNat := by
    rw [BitVec.toNat_ushiftRight, Nat.shiftRight_eq_div_pow]
    rfl
  have htab : ((vaddr >>> 12) &&& 0x3ff).toNat = pteIdx vaddr.toNat := by
    rw [← pteIdxWord_toNat]
    unfold pteIdxWord
    rw [BitVec.ushiftRight_and_distrib]
    rfl
  have hpde := pdeIdx_lt vaddr.isLt
  have hpte := pteIdx_lt vaddr.toNat
  rw [hdir, htab, pdePtrWord_toNat, ptePtrWord_toNat]
  refine ⟨h.dir.maps (pdeIdx vaddr.toNat * 4) (by omega), fun hp => ?_, fun pa => h.addrV2pWord vaddr⟩
  exact (h.table hpde hp).maps (pteIdx vaddr.toNat * 4) (by omega)

/-- A directory at 0x100000 with entry 1023 alone; the word 0xffffffff is seen through itself. -/
def loneDir : Bytes := Bytes.write32 (fun _ => 0) (0x100000 + 1023 * 4) 0x100007

theorem self_map_lone : ∃ r, addrV2pWord loneDir 0x100000 0xffffffff = .ok r ∧ r.toNat = 0x100fff := by
  have h : SelfMap loneDir 0x100000 := ⟨by decide, by decide⟩
  exact (self_map_exact loneDir 0x100000 0xffffffff h).2.2 0x100fff (by decide)

end TinyOs.Memory
