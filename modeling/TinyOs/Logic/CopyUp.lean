/-
  TinyOs.Logic.CopyUp — a copy element by element, from one sequence of places to another.

  Step `i` writes to the place `dst i` what the place `src i` holds then. Where the sequences
  meet, that may be what an earlier step has written: a copy to places that are `d` ahead
  of its source repeats the first `d` elements (`Ahead.took_mod`), and a copy in place
  changes nothing (`copyUp_self`).
-/

import Mathlib.Logic.Function.Basic

namespace TinyOs.Logic

variable {A V : Type} [DecidableEq A] {src dst : Nat → A} {m : A → V}

/-- The memory after `n` steps. -/
def copyUp (src dst : Nat → A) (m : A → V) : Nat → A → V
  | 0 => m
  | n + 1 => Function.update (copyUp src dst m n) (dst n) (copyUp src dst m n (src n))

/-- What step `i` reads and writes. -/
def took (src dst : Nat → A) (m : A → V) (i : Nat) : V := copyUp src dst m i (src i)

theorem copyUp_far {n : Nat} {x : A} (h : ∀ i, i < n → dst i ≠ x) : copyUp src dst m n x = m x := by
  induction n with
  | zero => rfl
  | succ n ih =>
    rw [copyUp, Function.update_of_ne (h n (by omega)).symm]
    exact ih fun i hi => h i (by omega)

/-- A place holds what the last step has written to it. -/
theorem copyUp_last {n j : Nat} {x : A} (hj : j < n) (hx : dst j = x) (h : ∀ i, j < i → i < n → dst i ≠ x) :
    copyUp src dst m n x = took src dst m j := by
  induction n with
  | zero => omega
  | succ n ih =>
    rw [copyUp]
    by_cases e : j = n
    · subst e
      rw [hx, Function.update_self]
      rfl
    · rw [Function.update_of_ne (h n (by omega) (by omega)).symm]
      exact ih (by omega) fun i h1 h2 => h i h1 (by omega)

theorem copyUp_self (h : ∀ i, dst i = src i) (n : Nat) : copyUp src dst m n = m := by
  induction n with
  | zero => rfl
  | succ n ih =>
    rw [copyUp, ih, h n]
    exact Function.update_eq_self _ _

/-- The destination is the source moved on by `d`, and does not come back to a place within `d` steps. -/
structure Ahead (src dst : Nat → A) (d : Nat) : Prop where
  pos : 0 < d
  fresh : ∀ i j, j < i → i < d → dst j ≠ src i
  back : ∀ i, dst i = src (i + d)
  apart : ∀ i j, i < j → j < i + d → dst j ≠ dst i

/-- A step reads what the step `d` before it has written. -/
theorem Ahead.took_mod {d : Nat} (h : Ahead src dst d) (m : A → V) (i : Nat) : took src dst m i = m (src (i % d)) := by
  have hpos := h.pos
  induction i using Nat.strongRecOn with
  | ind i ih =>
    by_cases hi : i < d
    · rw [Nat.mod_eq_of_lt hi]
      exact copyUp_far fun j hj => h.fresh i j hj hi
    · have hback : dst (i - d) = src i := by rw [h.back, Nat.sub_add_cancel (by omega)]
      have hmod : (i - d) % d = i % d := (Nat.mod_eq_sub_mod (by omega)).symm
      refine (copyUp_last (by omega) hback ?_).trans ?_
      · intro k h1 h2
        rw [← hback]
        exact h.apart _ _ h1 (by omega)
      · rw [ih _ (by omega), hmod]

end TinyOs.Logic
