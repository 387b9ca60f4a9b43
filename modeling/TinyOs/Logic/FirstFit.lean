/-
  TinyOs.Logic.FirstFit — first-fit search for a run of free slots.

  `used i` says that slot `i` is taken. `FirstFit used hi cnt r` describes an allocator
  that looks at the slots below `hi`: `r` is the start of the first run of `cnt` free
  slots there, or `none` when there is none. When the slots taken are the first `u`,
  first fit can only answer `u` (`FirstFit.initial`): such an allocator keeps the taken
  slots an initial segment.
-/

import Mathlib.Tactic.Common

namespace TinyOs.Logic

/-- Slots `s` to `s + cnt - 1` are free. -/
def Clear (used : Nat → Prop) (s cnt : Nat) : Prop := ∀ i, s ≤ i → i < s + cnt → ¬ used i

def FirstFit (used : Nat → Prop) (hi cnt : Nat) : Option Nat → Prop
  | some s => Clear used s cnt ∧ s + cnt ≤ hi ∧ ∀ s', Clear used s' cnt → s' + cnt ≤ hi → s ≤ s'
  | none => ∀ s', s' + cnt ≤ hi → ¬ Clear used s' cnt

variable {used : Nat → Prop} {hi cnt s u : Nat}

theorem clear_one : Clear used s 1 ↔ ¬ used s := by
  constructor
  · intro h; exact h s (Nat.le_refl s) (by omega)
  · intro h i h1 h2
    rwa [show i = s by omega]

theorem FirstFit.clear {s : Nat} (h : FirstFit used hi cnt (some s)) : Clear used s cnt := h.1

theorem FirstFit.le {s : Nat} (h : FirstFit used hi cnt (some s)) : s + cnt ≤ hi := h.2.1

/-- Of an initial segment, first fit takes the next slots; the last slot below `hi` may be
used or not. -/
theorem FirstFit.initial {k : Nat} (hu : ∀ i, i < k → (used i ↔ i < u)) (hk : hi ≤ k + 1) (hc : 0 < cnt) (hs : s < k)
    (h : FirstFit used hi cnt (some s)) : s = u := by
  obtain ⟨hcl, hle, hmin⟩ := h
  have hus : u ≤ s := by
    by_contra hlt
    exact hcl s (Nat.le_refl s) (by omega) ((hu s hs).mpr (by omega))
  by_cases hroom : u + cnt ≤ k
  · have : s ≤ u := hmin u (fun i h1 h2 hi' => by have := (hu i (by omega)).mp hi'; omega) (by omega)
    omega
  · omega

/-- And it fails only where too few are left. -/
theorem FirstFit.initial_none {k : Nat} (hu : ∀ i, i < k → (used i ↔ i < u)) (hk : k ≤ hi)
    (h : FirstFit used hi cnt none) : k < u + cnt := by
  by_contra hle
  exact h u (by omega) fun i h1 h2 hi' => by have := (hu i (by omega)).mp hi'; omega

end TinyOs.Logic
