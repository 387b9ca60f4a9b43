/-
  TinyOs.Lib.String — `memset` and `strcpy` (lib/string.c) on the bytes of memory.
-/

import TinyOs.Logic.X86

namespace TinyOs.Lib

open TinyOs.Logic.X86

def memset : Word → BitVec 8 → Nat → Ram → Ram
  | _, _, 0, m => m
  | dst, value, size + 1, m => memset (dst + 1) value size (m.write8 dst value)

/-- `src` without its final 0. -/
def strcpy : Word → List (BitVec 8) → Ram → Ram
  | dst, [], m => m.write8 dst 0
  | dst, b :: src, m => strcpy (dst + 1) src (m.write8 dst b)

variable {m : Ram}

theorem memset_far {dst x : Word} {value : BitVec 8} {size : Nat} (h : size ≤ (x - dst).toNat) :
    memset dst value size m x = m x := by
  induction size generalizing dst m with
  | zero => rfl
  | succ size ih =>
    rw [memset, ih (by bv_omega)]
    apply Ram.write8_far
    bv_omega

theorem strcpy_far {dst x : Word} {src : List (BitVec 8)} (h : src.length < (x - dst).toNat) :
    strcpy dst src m x = m x := by
  induction src generalizing dst m with
  | nil =>
    apply Ram.write8_far
    bv_omega
  | cons b src ih =>
    rw [List.length_cons] at h
    rw [strcpy, ih (by bv_omega)]
    apply Ram.write8_far
    bv_omega

theorem memset_at {dst x : Word} {value : BitVec 8} {size : Nat} (hs : size < 2 ^ 32) (h : (x - dst).toNat < size) :
    memset dst value size m x = value := by
  induction size generalizing dst m with
  | zero => omega
  | succ size ih =>
    rw [memset]
    by_cases hx : x = dst
    · rw [memset_far (by bv_omega), hx]
      exact Ram.write8_at _ _ _
    · exact ih (by omega) (by bv_omega)

theorem strcpy_at {dst : Word} {src : List (BitVec 8)} (hs : src.length < 2 ^ 32) {i : Nat} (hi : i < src.length) :
    strcpy dst src m (dst + BitVec.ofNat 32 i) = src[i] := by
  induction src generalizing dst m i with
  | nil => cases hi
  | cons b src ih =>
    rw [List.length_cons] at hs hi
    rw [strcpy]
    cases i with
    | zero =>
      -- the bytes behind do not come round to the first one
      rw [strcpy_far (by bv_omega), BitVec.add_zero]
      exact Ram.write8_at m dst b
    | succ i =>
      have ha : dst + BitVec.ofNat 32 (i + 1) = dst + 1 + BitVec.ofNat 32 i := by bv_omega
      rw [ha]
      exact ih (by omega) (by omega)

theorem strcpy_end {dst : Word} {src : List (BitVec 8)} (hs : src.length < 2 ^ 32) :
    strcpy dst src m (dst + BitVec.ofNat 32 src.length) = 0 := by
  induction src generalizing dst m with
  | nil =>
    rw [List.length_nil, BitVec.add_zero]
    exact Ram.write8_at m dst 0
  | cons b src ih =>
    rw [List.length_cons] at hs ⊢
    have ha : dst + BitVec.ofNat 32 (src.length + 1) = dst + 1 + BitVec.ofNat 32 src.length := by bv_omega
    rw [strcpy, ha]
    exact ih (by omega)

end TinyOs.Lib
