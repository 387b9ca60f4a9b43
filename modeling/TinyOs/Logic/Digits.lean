/-
  TinyOs.Logic.Digits — a fixed number of digits, and what is left without leading zeros.

  `fixedDigits b k n` are the `k` last digits of `n` in base `b`, the most significant
  first. Without their leading zeros they are Mathlib's `Nat.digits`, turned round.
-/

import Mathlib.Data.Nat.Digits.Lemmas

namespace TinyOs.Logic

def fixedDigits (b : Nat) : Nat → Nat → List Nat
  | 0, _ => []
  | k + 1, n => fixedDigits b k (n / b) ++ [n % b]

variable {b k n : Nat}

@[simp] theorem length_fixedDigits (b k n : Nat) : (fixedDigits b k n).length = k := by
  induction k generalizing n with
  | zero => rfl
  | succ k ih => rw [fixedDigits, List.length_append, ih, List.length_singleton]

theorem fixedDigits_zero (b k : Nat) : fixedDigits b k 0 = List.replicate k 0 := by
  induction k with
  | zero => rfl
  | succ k ih => rw [fixedDigits, Nat.zero_div, Nat.zero_mod, ih, List.replicate_succ']

/-- The digits of a number that has at most `k`, behind as many zeros as are missing. -/
theorem fixedDigits_eq (hb : 1 < b) (h : n < b ^ k) :
    fixedDigits b k n = List.replicate (k - (b.digits n).length) 0 ++ (b.digits n).reverse := by
  induction k generalizing n with
  | zero =>
    have hn : n = 0 := by simpa using h
    subst hn
    simp [fixedDigits]
  | succ k ih =>
    rcases Nat.eq_zero_or_pos n with rfl | hn
    · simp [fixedDigits_zero]
    · have hdiv : n / b < b ^ k := Nat.div_lt_of_lt_mul (by rwa [← Nat.pow_succ'])
      rw [fixedDigits, ih hdiv, Nat.digits_def' hb hn, List.length_cons, List.reverse_cons, Nat.add_sub_add_right,
        List.append_assoc]

/-- Digits written with `f`, which writes `z` for 0 only: the first one is not 0, so nothing more is dropped than what
    was put in front. -/
theorem dropWhile_fixedDigits {γ : Type} [DecidableEq γ] (f : Nat → γ) {z : γ} (hf : ∀ d, d < b → (f d = z ↔ d = 0)) (hb : 1 < b)
    (h : n < b ^ k) : ((fixedDigits b k n).map f).dropWhile (· = z) = (b.digits n).reverse.map f := by
  have hz : f 0 = z := (hf 0 (by omega)).mpr rfl
  rw [fixedDigits_eq hb h, List.map_append, List.dropWhile_append_of_pos (by simp [hz])]
  rcases Nat.eq_zero_or_pos n with rfl | hn
  · simp
  · have hne : b.digits n ≠ [] := Nat.digits_ne_nil_iff_ne_zero.mpr (by omega)
    have hlast := Nat.getLast_digit_ne_zero b (m := n) (by omega)
    have hlt : (b.digits n).getLast hne < b := Nat.digits_lt_base hb (List.getLast_mem hne)
    obtain ⟨ds, d, he⟩ := List.eq_nil_or_concat (b.digits n) |>.resolve_left hne
    rw [List.concat_eq_append] at he
    simp only [he, List.getLast_append_singleton] at hlast hlt
    rw [he, List.reverse_append, List.reverse_singleton, List.singleton_append, List.map_cons]
    exact List.dropWhile_cons_of_neg (by simpa [hf d hlt] using hlast)

/-- The value of digits, the most significant first. -/
def valueOf (b : Nat) (ds : List Nat) : Nat := ds.foldl (fun a d => b * a + d) 0

theorem valueOf_digits (b n : Nat) : valueOf b (b.digits n).reverse = n := by
  unfold valueOf
  rw [List.foldl_reverse]
  conv_rhs => rw [← Nat.ofDigits_digits b n, Nat.ofDigits_eq_foldr]
  congr 1
  funext d a
  simp [Nat.add_comm]

end TinyOs.Logic
