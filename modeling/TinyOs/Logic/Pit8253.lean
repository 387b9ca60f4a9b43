/-
  TinyOs.Logic.Pit8253 — a programmable interval timer with three counters.

  A control word names a counter, how its count will be written (the low byte, the high byte,
  or both in this order) and its mode; the count follows at the counter's port. Counting is
  binary, a count of 0 is 65536, and of the modes only the rate generator (2, or 6) counts
  here; a count of 1, which it is not meant to have, is one like the others. Reading is not in it.

  `edges_eq`: a rate generator's output rises once in each period, whatever it was before.
-/

import Mathlib.Logic.Function.Basic
import Mathlib.Tactic.Common

namespace TinyOs.Logic.Pit8253

structure Counter where
  rw : BitVec 2
  mode : BitVec 3
  /-- The next byte is the high one of two. -/
  high : Bool
  low : BitVec 8
  /-- The count register, once it is written. -/
  count : Option (BitVec 16)
  /-- What is counted down; 0 until the first clock after the count was written. -/
  element : Nat
  deriving DecidableEq, Repr

def period (n : BitVec 16) : Nat := if n = 0 then 65536 else n.toNat

namespace Counter

def control (v : BitVec 8) (c : Counter) : Counter :=
  { c with rw := (v >>> 4).setWidth 2, mode := (v >>> 1).setWidth 3, high := false, count := none, element := 0 }

def data (v : BitVec 8) (c : Counter) : Counter :=
  if c.rw = 1 then { c with count := some (v.setWidth 16) }
  else if c.rw = 2 then { c with count := some (v ++ 0#8) }
  else if c.rw = 3 then
    if c.high then { c with high := false, count := some (v ++ c.low) } else { c with high := true, low := v }
  else c

/-- One clock of the rate generator: the output is low while 1 is left, and rises with the reload. -/
def clock (c : Counter) : Counter × Bool :=
  match c.count with
  | none => (c, false)
  | some n =>
    if c.mode &&& 3 ≠ 2 then (c, false)
    else if c.element = 0 then ({ c with element := period n }, false)
    else if c.element = 1 then ({ c with element := period n }, true)
    else ({ c with element := c.element - 1 }, false)

/-- How often the output rises in `k` clocks. -/
def edges : Nat → Counter → Nat
  | 0, _ => 0
  | k + 1, c => (if c.clock.2 then 1 else 0) + edges k c.clock.1

end Counter

/-- The counters 0 to 2. -/
structure Pit where
  counter : Nat → Counter

namespace Pit

def modify (n : Nat) (f : Counter → Counter) (p : Pit) : Pit := ⟨Function.update p.counter n (f (p.counter n))⟩

def outb (port : BitVec 16) (v : BitVec 8) (p : Pit) : Pit :=
  if port = 0x43 then
    -- the read-back command, and a latch command
    if v >>> 6 = 3 ∨ v >>> 4 &&& 3 = 0 then p else p.modify (v >>> 6).toNat (Counter.control v)
  else if 0x40 ≤ port.toNat ∧ port.toNat < 0x43 then p.modify (port.toNat - 0x40) (Counter.data v)
  else p

end Pit

/-! ## The rate -/

theorem period_pos (n : BitVec 16) : 0 < period n := by
  unfold period
  split
  · decide
  · next h =>
    have hne : n.toNat ≠ 0 := fun h0 => h (BitVec.eq_of_toNat_eq h0)
    omega

variable {c : Counter} {n : BitVec 16} {k : Nat}

theorem clock_eq (hc : c.count = some n) (hm : c.mode &&& 3 = 2) : c.clock =
    if c.element = 0 then ({ c with element := period n }, false)
    else if c.element = 1 then ({ c with element := period n }, true)
    else ({ c with element := c.element - 1 }, false) := by
  unfold Counter.clock
  rw [hc]
  exact if_neg (not_not.mpr hm)

/-- By the position in the period. -/
theorem edges_from (hc : c.count = some n) (hm : c.mode &&& 3 = 2) (h0 : 0 < c.element) (hle : c.element ≤ period n) :
    c.edges k = (k + (period n - c.element)) / period n := by
  have hpos := period_pos n
  induction k generalizing c with
  | zero =>
    rw [Nat.zero_add, Nat.div_eq_of_lt (by omega)]
    rfl
  | succ k ih =>
    rw [Counter.edges]
    by_cases h1 : c.element = 1
    · have hclock : c.clock = ({ c with element := period n }, true) := by
        rw [clock_eq hc hm, if_neg (by omega), if_pos h1]
      have hrest := ih (c := { c with element := period n }) hc hm hpos (Nat.le_refl _)
      simp only [Nat.sub_self, Nat.add_zero] at hrest
      rw [hclock, hrest, h1, if_pos rfl, show k + 1 + (period n - 1) = k + period n by omega, Nat.add_div_right _ hpos]
      omega
    · have hclock : c.clock = ({ c with element := c.element - 1 }, false) := by
        rw [clock_eq hc hm, if_neg (by omega), if_neg h1]
      have hrest := ih (c := { c with element := c.element - 1 }) hc hm (by show 0 < c.element - 1; omega)
        (by show c.element - 1 ≤ period n; omega)
      rw [hclock, hrest, if_neg Bool.noConfusion, Nat.zero_add]
      show (k + (period n - (c.element - 1))) / period n = _
      rw [show k + (period n - (c.element - 1)) = k + 1 + (period n - c.element) by omega]

/-- From the clock that loads the count on. -/
theorem edges_eq (hc : c.count = some n) (hm : c.mode &&& 3 = 2) (h0 : c.element = 0) : c.edges (k + 1) = k / period n := by
  have hclock : c.clock = ({ c with element := period n }, false) := by
    rw [clock_eq hc hm, if_pos h0]
  have hrest := edges_from (c := { c with element := period n }) (k := k) hc hm (period_pos n) (Nat.le_refl _)
  simp only [Nat.sub_self, Nat.add_zero] at hrest
  rw [Counter.edges, hclock, hrest]
  simp

/-- Two rates that never differ are one. -/
theorem period_unique {a b : Nat} (ha : 0 < a) (hb : 0 < b) (h : ∀ k, k / a = k / b) : a = b := by
  have hle : ∀ x y : Nat, 0 < x → 0 < y → (∀ k, k / x = k / y) → y ≤ x := by
    intro x y hx hy hxy
    have hone := hxy x
    rw [Nat.div_self hx] at hone
    by_contra hlt
    rw [Nat.div_eq_of_lt (by omega)] at hone
    cases hone
  exact Nat.le_antisymm (hle b a hb ha fun k => (h k).symm) (hle a b ha hb h)

end TinyOs.Logic.Pit8253
