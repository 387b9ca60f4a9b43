/-
  TinyOs.Logic.Writes — a list of writes, one after the other.

  After all of them a place holds what was written to it last, and what it held before
  where nothing was written.
-/

import Mathlib.Data.List.Basic
import Mathlib.Logic.Function.Basic

namespace TinyOs.Logic

variable {α β : Type} [DecidableEq α]

def writes (ws : List (α × β)) (m : α → β) : α → β := ws.foldl (fun m w => Function.update m w.1 w.2) m

variable {ws us vs : List (α × β)} {m m' : α → β} {x : α} {b : β}

theorem writes_cons (w : α × β) (ws : List (α × β)) (m : α → β) :
    writes (w :: ws) m = writes ws (Function.update m w.1 w.2) := rfl

theorem writes_append (us vs : List (α × β)) (m : α → β) : writes (us ++ vs) m = writes vs (writes us m) :=
  List.foldl_append

theorem writes_of_notMem (h : ∀ w ∈ ws, w.1 ≠ x) : writes ws m x = m x := by
  induction ws generalizing m with
  | nil => rfl
  | cons w ws ih =>
    rw [writes_cons, ih fun v hv => h v (List.mem_cons_of_mem w hv)]
    exact Function.update_of_ne (h w List.mem_cons_self).symm ..

theorem writes_last (us : List (α × β)) (h : ∀ w ∈ vs, w.1 ≠ x) : writes (us ++ (x, b) :: vs) m x = b := by
  rw [writes_append, writes_cons, writes_of_notMem h]
  exact Function.update_self ..

/-- A place depends on what it held itself only. -/
theorem writes_congr (ws : List (α × β)) (h : m x = m' x) : writes ws m x = writes ws m' x := by
  induction ws generalizing m m' with
  | nil => exact h
  | cons w ws ih =>
    rw [writes_cons, writes_cons]
    apply ih
    by_cases hx : x = w.1
    · rw [hx, Function.update_self, Function.update_self]
    · rw [Function.update_of_ne hx, Function.update_of_ne hx, h]

/-- Writes of what a place holds already. -/
theorem writes_same (h : ∀ w ∈ ws, w.1 = x → w.2 = m x) : writes ws m x = m x := by
  induction ws generalizing m with
  | nil => rfl
  | cons w ws ih =>
    have hw : Function.update m w.1 w.2 x = m x := by
      by_cases hx : x = w.1
      · rw [← h w List.mem_cons_self hx.symm, hx, Function.update_self]
      · exact Function.update_of_ne hx ..
    rw [writes_cons, ih, hw]
    intro v hv he
    rw [hw]
    exact h v (List.mem_cons_of_mem w hv) he

/-- Nothing is written to a place, or something is written last. -/
theorem last_write (ws : List (α × β)) (x : α) :
    (∀ w ∈ ws, w.1 ≠ x) ∨ ∃ us w vs, ws = us ++ w :: vs ∧ w.1 = x ∧ ∀ v ∈ vs, v.1 ≠ x := by
  induction ws with
  | nil => exact Or.inl fun w hw => absurd hw List.not_mem_nil
  | cons w ws ih =>
    rcases ih with hno | ⟨us, v, vs, rfl, hv, hvs⟩
    · by_cases hw : w.1 = x
      · exact Or.inr ⟨[], w, ws, rfl, hw, hno⟩
      · apply Or.inl
        intro v hv
        rcases List.mem_cons.mp hv with rfl | hv
        · exact hw
        · exact hno v hv
    · exact Or.inr ⟨w :: us, v, vs, rfl, hv, hvs⟩

end TinyOs.Logic
