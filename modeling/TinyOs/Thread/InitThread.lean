/-
  TinyOs.Thread.InitThread — the PCB that init_thread leaves (thread/thread.c).

  The whole PCB is cleared, then the name is copied without a bound, then some of the
  fields are assigned. `initThread_byte` says what every address holds at the end. The
  16 bytes of the name are followed by priority and ticks (assigned), two bytes of
  padding, elapsed_ticks (assigned), the two list tags (not assigned), pgdir (assigned),
  userprog_vaddr (not assigned) and stack_magic (assigned).

  `pcb_valid_iff`: the PCB is as it should be exactly when the name has at most 15
  characters. One of 16 already has no NUL left, for priority overwrites it.
-/

import TinyOs.Thread.SwitchTo

namespace TinyOs.Thread.SwitchTo

open TinyOs.Lib TinyOs.Logic.X86

/-- The arguments of `init_thread`: a page, and a string that has room in memory. -/
structure InitArgs (pthread : Word) (name : List (BitVec 8)) (prio : Word) : Prop where
  nonNull : pthread ≠ 0
  page : pthread.toNat % 4096 = 0
  nonZero : ∀ b ∈ name, b ≠ 0
  fits : name.length < 2 ^ 32
  prio : prio.toNat ≤ 255

structure ValidPcb (mainThread pthread prio : Word) (m m' : Ram) : Prop where
  name : ∃ i, i < 16 ∧ m' (pthread + BitVec.ofNat 32 (8 + i)) = 0
  zero : ∀ k, 32 ≤ k ∧ k < 48 ∨ 52 ≤ k ∧ k < 64 → m' (pthread + BitVec.ofNat 32 k) = 0
  kstack : m'.read32 pthread = pthread + 4096
  status : m'.read32 (pthread + 4) = if pthread = mainThread then 0 else 1
  priority : (m' (pthread + 24)).setWidth 32 = prio
  ticks : (m' (pthread + 25)).setWidth 32 = prio
  elapsedTicks : m'.read32 (pthread + 28) = 0
  pgdir : m'.read32 (pthread + 48) = 0
  magic : m'.read32 (pthread + 64) = 0x19870916
  outside : ∀ x : Word, sizeofTaskStruct ≤ (x - pthread).toNat → m' x = m x

variable {mainThread p prio : Word} {name : List (BitVec 8)} {m m' : Ram}

/-- The PCB with the name copied. -/
def named (p : Word) (name : List (BitVec 8)) (m : Ram) : Ram := strcpy (p + 8) name (memset p 0 sizeofTaskStruct m)

/-- The offsets init_thread assigns after the copy. -/
def Assigned (j : Nat) : Prop := j < 8 ∨ j = 24 ∨ j = 25 ∨ 28 ≤ j ∧ j < 32 ∨ 48 ≤ j ∧ j < 52 ∨ 64 ≤ j ∧ j < 68

/-- Everywhere else the copy is what stays. -/
theorem initThread_kept {j : Nat} (hj : j < 2 ^ 32) (h : ¬ Assigned j) :
    initThread mainThread p name prio m (p + BitVec.ofNat 32 j) = named p name m (p + BitVec.ofNat 32 j) := by
  unfold Assigned at h
  simp only [initThread]
  rw [Ram.write32_far (by bv_omega), Ram.write32_far (by bv_omega), Ram.write32_far (by bv_omega), Ram.write8_far (by bv_omega),
    Ram.write8_far (by bv_omega), Ram.write32_far (by bv_omega), Ram.write32_far (by bv_omega)]
  rfl

/-- The fields it assigns hold their values, whatever the name. -/
theorem initThread_assigned (mainThread p prio : Word) (name : List (BitVec 8)) (m : Ram) :
    (initThread mainThread p name prio m).read32 p = p + 4096 ∧
    (initThread mainThread p name prio m).read32 (p + 4) = (if p = mainThread then 0 else 1) ∧
    initThread mainThread p name prio m (p + 24) = prio.setWidth 8 ∧ initThread mainThread p name prio m (p + 25) = prio.setWidth 8 ∧
    (initThread mainThread p name prio m).read32 (p + 28) = 0 ∧ (initThread mainThread p name prio m).read32 (p + 48) = 0 ∧
    (initThread mainThread p name prio m).read32 (p + 64) = 0x19870916 := by
  refine ⟨initThread_kstack (l := ⟨mainThread, 0⟩), ?_, ?_, ?_, ?_, ?_, ?_⟩
  all_goals simp only [initThread]
  · rw [Ram.read32_write32_ne (by bv_omega) (by bv_omega), Ram.read32_write32_ne (by bv_omega) (by bv_omega),
      Ram.read32_write32_ne (by bv_omega) (by bv_omega), Ram.read32_write8 (by bv_omega), Ram.read32_write8 (by bv_omega),
      Ram.read32_write32_ne (by bv_omega) (by bv_omega), Ram.read32_write32]
  · rw [Ram.write32_far (by bv_omega), Ram.write32_far (by bv_omega), Ram.write32_far (by bv_omega), Ram.write8_far (by bv_omega),
      Ram.write8_at]
  · rw [Ram.write32_far (by bv_omega), Ram.write32_far (by bv_omega), Ram.write32_far (by bv_omega), Ram.write8_at]
  · rw [Ram.read32_write32_ne (by bv_omega) (by bv_omega), Ram.read32_write32_ne (by bv_omega) (by bv_omega), Ram.read32_write32]
  · rw [Ram.read32_write32_ne (by bv_omega) (by bv_omega), Ram.read32_write32]
  · rw [Ram.read32_write32]

/-! ## A short name -/

/-- With at most 15 characters the copy and its NUL stay in the name. -/
theorem named_short (hlen : name.length ≤ 15) {j : Nat} (hj : j < 68) (hout : j < 8 ∨ 24 ≤ j) :
    named p name m (p + BitVec.ofNat 32 j) = 0 := by
  unfold named
  rw [strcpy_far (by bv_omega)]
  exact memset_at (by decide) (by unfold sizeofTaskStruct; bv_omega)

theorem named_outside (hlen : name.length ≤ 15) {x : Word} (hx : sizeofTaskStruct ≤ (x - p).toNat) : named p name m x = m x := by
  unfold named
  unfold sizeofTaskStruct at hx
  rw [strcpy_far (by bv_omega)]
  exact memset_far hx

theorem named_nul (hfits : name.length < 2 ^ 32) : named p name m (p + BitVec.ofNat 32 (8 + name.length)) = 0 := by
  have ha : p + BitVec.ofNat 32 (8 + name.length) = p + 8 + BitVec.ofNat 32 name.length := by bv_omega
  rw [ha]
  exact strcpy_end hfits

theorem offset_eq (p x : Word) : x = p + BitVec.ofNat 32 (x - p).toNat := by
  rw [BitVec.ofNat_toNat, BitVec.setWidth_eq]
  grind

theorem initThread_valid (hprio : prio.toNat ≤ 255) (hlen : name.length ≤ 15) :
    ValidPcb mainThread p prio m (initThread mainThread p name prio m) := by
  have hp8 : (prio.setWidth 8).setWidth 32 = prio := by bv_omega
  obtain ⟨hkstack, hstatus, hprio24, hticks, helapsed, hpgdir, hmagic⟩ := initThread_assigned mainThread p prio name m
  refine ⟨⟨name.length, by omega, ?_⟩, fun k hk => ?_, hkstack, hstatus, ?_, ?_, helapsed, hpgdir, hmagic, fun x hx => ?_⟩
  · rw [initThread_kept (by omega) (by unfold Assigned; omega)]
    exact named_nul (by omega)
  · rw [initThread_kept (by omega) (by unfold Assigned; omega)]
    exact named_short hlen (by omega) (by omega)
  · rw [hprio24, hp8]
  · rw [hticks, hp8]
  · have hoff : sizeofTaskStruct = 68 := rfl
    rw [offset_eq p x, initThread_kept (x - p).isLt (by unfold Assigned; omega), ← offset_eq p x]
    exact named_outside hlen hx

/-! ## A long name -/

/-- The 16 bytes of the name are the first 16 characters; nothing assigned later reaches them. -/
theorem initThread_name (hfits : name.length < 2 ^ 32) {i : Nat} (hi : i < 16) (hlen : i < name.length) :
    initThread mainThread p name prio m (p + BitVec.ofNat 32 (8 + i)) = name[i] := by
  have ha : p + BitVec.ofNat 32 (8 + i) = p + 8 + BitVec.ofNat 32 i := by bv_omega
  rw [initThread_kept (by omega) (by unfold Assigned; omega), ha]
  exact strcpy_at hfits hlen

theorem pcb_valid_iff (mainThread p prio : Word) (name : List (BitVec 8)) (m : Ram) (h : InitArgs p name prio) :
    ValidPcb mainThread p prio m (initThread mainThread p name prio m) ↔ name.length ≤ 15 := by
  constructor
  · intro hvalid
    obtain ⟨i, hi, h0⟩ := hvalid.name
    by_contra hlen
    rw [initThread_name h.fits hi (by omega)] at h0
    exact h.nonZero _ (List.getElem_mem _) h0
  · exact initThread_valid h.prio

/-- "abc" at 0x9000, priority 31. -/
theorem pcb_valid_abc : ValidPcb 0 0x9000 31 (fun _ => 0xff) (initThread 0 0x9000 [0x61, 0x62, 0x63] 31 fun _ => 0xff) :=
  (pcb_valid_iff 0 0x9000 31 [0x61, 0x62, 0x63] _ ⟨by decide, by decide, by decide, by decide, by decide⟩).mpr (by decide)

/-- Sixteen times "a": no NUL is left in the name. -/
theorem name_without_nul : ∃ mainThread p prio name m, InitArgs p name prio ∧
    ¬ ValidPcb mainThread p prio m (initThread mainThread p name prio m) := by
  have hargs : InitArgs 0x9000 (List.replicate 16 0x61) 31 := ⟨by decide, by decide, by decide, by decide, by decide⟩
  refine ⟨0, 0x9000, 31, List.replicate 16 0x61, fun _ => 0, hargs, ?_⟩
  rintro ⟨⟨i, hi, h0⟩, -⟩
  rw [initThread_name hargs.fits hi (by simpa using hi), List.getElem_replicate] at h0
  exact absurd h0 (by decide)

end TinyOs.Thread.SwitchTo
