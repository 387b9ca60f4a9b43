/-
  TinyOs.Logic.Lex — comparisons that answer -1, 0 or 1.

  `threeWay` is such a comparison in any linear order; of sequences Mathlib's lexicographic
  one. Two sequences compare as the first elements in which they differ. A sequence with a
  terminator compares with its extensions as the terminator does with what follows: it comes
  first only where the terminator does (`threeWay_extension`).
-/

import Mathlib.Data.List.Lex
import Mathlib.Order.Lattice

namespace TinyOs.Logic

variable {α : Type} [LinearOrder α] {x y z : α}

def threeWay (x y : α) : Int := if x < y then -1 else if y < x then 1 else 0

theorem threeWay_of_lt (h : x < y) : threeWay x y = -1 := if_pos h

theorem threeWay_of_gt (h : y < x) : threeWay x y = 1 := (if_neg h.asymm).trans (if_pos h)

@[simp] theorem threeWay_self (x : α) : threeWay x x = 0 := (if_neg (lt_irrefl x)).trans (if_neg (lt_irrefl x))

theorem threeWay_swap (x y : α) : threeWay y x = -threeWay x y := by
  rcases lt_trichotomy x y with h | rfl | h
  · rw [threeWay_of_lt h, threeWay_of_gt h]
    rfl
  · rw [threeWay_self]
    rfl
  · rw [threeWay_of_lt h, threeWay_of_gt h]

theorem threeWay_neg_iff : threeWay x y < 0 ↔ x < y := by
  rcases lt_trichotomy x y with h | rfl | h
  · simp [threeWay_of_lt h, h]
  · simp
  · simp [threeWay_of_gt h, h.le]

theorem threeWay_eq_zero_iff : threeWay x y = 0 ↔ x = y := by
  rcases lt_trichotomy x y with h | rfl | h
  · simp [threeWay_of_lt h, h.ne]
  · simp
  · simp [threeWay_of_gt h, h.ne']

/-! ## Sequences -/

theorem threeWay_cons_self (x : α) (xs ys : List α) : threeWay (x :: xs) (x :: ys) = threeWay xs ys := by
  rcases lt_trichotomy xs ys with h | rfl | h
  · rw [threeWay_of_lt h]
    exact threeWay_of_lt (List.Lex.cons h)
  · rw [threeWay_self, threeWay_self]
  · rw [threeWay_of_gt h]
    exact threeWay_of_gt (List.Lex.cons h)

theorem threeWay_cons_of_ne (h : x ≠ y) (xs ys : List α) : threeWay (x :: xs) (y :: ys) = threeWay x y := by
  rcases lt_or_gt_of_ne h with h | h
  · rw [threeWay_of_lt h]
    exact threeWay_of_lt (List.Lex.rel h)
  · rw [threeWay_of_gt h]
    exact threeWay_of_gt (List.Lex.rel h)

theorem threeWay_append_self (s xs ys : List α) : threeWay (s ++ xs) (s ++ ys) = threeWay xs ys := by
  induction s with
  | nil => rfl
  | cons x s ih => exact (threeWay_cons_self x _ _).trans ih

/-- `s` with its terminator `z`, and a sequence that goes on with another element. -/
theorem threeWay_extension (h : z ≠ x) (s t : List α) : threeWay (s ++ [z]) (s ++ x :: t) = threeWay z x :=
  (threeWay_append_self s [z] (x :: t)).trans (threeWay_cons_of_ne h [] t)

end TinyOs.Logic
