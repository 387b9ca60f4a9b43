/-
  TinyOs.Logic.Bytes — byte-addressed memory with little-endian 32-bit words.

  A store is described by what it leaves alone: two memories that agree on a set of
  addresses (`Set.EqOn`) read the same words there.
-/

import Mathlib.Data.Set.Function
import Mathlib.Order.Interval.Set.Basic
import Mathlib.Tactic.IntervalCases

namespace TinyOs.Logic

abbrev Bytes := Nat → BitVec 8

namespace Bytes

def write8 (m : Bytes) (a : Nat) (b : BitVec 8) : Bytes := fun x => if x = a then b else m x

def read32 (m : Bytes) (a : Nat) : Nat :=
  (m a).toNat + 2 ^ 8 * (m (a + 1)).toNat + 2 ^ 16 * (m (a + 2)).toNat + 2 ^ 24 * (m (a + 3)).toNat

def write32 (m : Bytes) (a v : Nat) : Bytes :=
  fun x => if a ≤ x ∧ x < a + 4 then BitVec.ofNat 8 (v / 2 ^ (8 * (x - a))) else m x

/-- The addresses of the word at `a`. -/
abbrev word (a : Nat) : Set Nat := Set.Ico a (a + 4)

variable {m m' : Bytes} {a b v : Nat}

@[simp] theorem write8_same (m : Bytes) (a : Nat) (c : BitVec 8) : m.write8 a c a = c := if_pos rfl

theorem write8_ne (m : Bytes) {a x : Nat} (c : BitVec 8) (h : x ≠ a) : m.write8 a c x = m x := if_neg h

/-- The same four bytes make the same word. -/
theorem read32_eq (h : ∀ i, i < 4 → m' (a + i) = m (b + i)) : m'.read32 a = m.read32 b := by
  have h0 := h 0 (by omega)
  unfold read32
  rw [Nat.add_zero, Nat.add_zero] at h0
  rw [h0, h 1 (by omega), h 2 (by omega), h 3 (by omega)]

theorem read32_congr (h : Set.EqOn m' m (word a)) : m'.read32 a = m.read32 a :=
  read32_eq fun _ hi => h (Set.mem_Ico.mpr ⟨by omega, by omega⟩)

theorem read32_lt (m : Bytes) (a : Nat) : m.read32 a < 2 ^ 32 := by
  have h0 := (m a).isLt
  have h1 := (m (a + 1)).isLt
  have h2 := (m (a + 2)).isLt
  have h3 := (m (a + 3)).isLt
  unfold read32
  omega

theorem write32_of_notMem {x : Nat} (h : x ∉ word a) : m.write32 a v x = m x := by
  unfold write32
  rw [if_neg fun hx => h (Set.mem_Ico.mpr hx)]

/-- What is written does not depend on what was there. -/
theorem write32_eq {x : Nat} (h : x ∉ word a → m' x = m x) : m'.write32 a v x = m.write32 a v x := by
  unfold write32
  split
  · rfl
  · next hx => exact h fun hw => hx (Set.mem_Ico.mp hw)

theorem read32_write32 (m : Bytes) (a : Nat) (hv : v < 2 ^ 32) : (m.write32 a v).read32 a = v := by
  have hb : ∀ i, i < 4 → (m.write32 a v (a + i)).toNat = v / 2 ^ (8 * i) % 2 ^ 8 := by
    intro i hi
    unfold write32
    rw [if_pos ⟨by omega, by omega⟩, Nat.add_sub_cancel_left, BitVec.toNat_ofNat]
  have h0 := hb 0 (by omega)
  have h1 := hb 1 (by omega)
  have h2 := hb 2 (by omega)
  have h3 := hb 3 (by omega)
  simp only [Nat.add_zero] at h0
  unfold read32
  rw [h0, h1, h2, h3]
  norm_num
  omega

/-- A word copied is four bytes copied. -/
theorem write32_read32 (m : Bytes) (a b x : Nat) :
    m.write32 a (m.read32 b) x = if a ≤ x ∧ x < a + 4 then m (b + (x - a)) else m x := by
  unfold write32
  by_cases h : a ≤ x ∧ x < a + 4
  · obtain ⟨i, hi, rfl⟩ : ∃ i, i < 4 ∧ x = a + i := ⟨x - a, by omega, by omega⟩
    have h0 := (m b).isLt
    have h1 := (m (b + 1)).isLt
    have h2 := (m (b + 2)).isLt
    have h3 := (m (b + 3)).isLt
    rw [if_pos h, if_pos h, Nat.add_sub_cancel_left]
    apply BitVec.eq_of_toNat_eq
    rw [BitVec.toNat_ofNat]
    unfold read32
    interval_cases i
    · simp only [Nat.mul_zero, Nat.pow_zero, Nat.div_one, Nat.add_zero]
      omega
    · norm_num
      omega
    · norm_num
      omega
    · norm_num
      omega
  · rw [if_neg h, if_neg h]

/-- A store leaves every word alone that it does not overlap. -/
theorem read32_write32_of_disjoint (h : a + 4 ≤ b ∨ b + 4 ≤ a) : (m.write32 a v).read32 b = m.read32 b :=
  read32_congr fun x hx => write32_of_notMem fun hx' => by
    have := Set.mem_Ico.mp hx
    have := Set.mem_Ico.mp hx'
    omega

theorem read32_of_zero (h : ∀ x ∈ word a, m x = 0) : m.read32 a = 0 := by
  unfold read32
  rw [h _ (Set.mem_Ico.mpr ⟨by omega, by omega⟩), h _ (Set.mem_Ico.mpr ⟨by omega, by omega⟩),
    h _ (Set.mem_Ico.mpr ⟨by omega, by omega⟩), h _ (Set.mem_Ico.mpr ⟨by omega, by omega⟩)]
  rfl

end Bytes

end TinyOs.Logic
