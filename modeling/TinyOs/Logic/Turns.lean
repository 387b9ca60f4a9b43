/-
  TinyOs.Logic.Turns — weighted round robin on a ring.

  One member of the ring holds the turn; a tick takes one unit of what it has left, and
  the tick that finds nothing left passes the turn to the next, with that member's full
  weight. So a member with weight `w` keeps the turn for `w + 1` ticks.

  - `slice`: what one turn serves.
  - `visits`: what the turns of a part of the ring serve, in order.
  - `rounds`: any number of whole rounds, which lead back to where they started.
-/

import Mathlib.Algebra.Ring.Nat
import Mathlib.Data.List.Flatten
import Mathlib.Logic.Function.Iterate

namespace TinyOs.Logic

structure Turn (α : Type _) where
  cur : α
  left : Nat
  /-- The others, the next one first. -/
  rest : List α

namespace Turn

variable {α : Type _} (weight : α → Nat)

/-- The turn goes to the next member, which may be the same. -/
def pass (s : Turn α) : Turn α :=
  match s.rest with
  | [] => ⟨s.cur, weight s.cur, []⟩
  | t :: ts => ⟨t, weight t, ts ++ [s.cur]⟩

def tick (s : Turn α) : Turn α := if s.left = 0 then s.pass weight else { s with left := s.left - 1 }

/-- Who holds the turn at each of the next `n` ticks. -/
def serves : Nat → Turn α → List α
  | 0, _ => []
  | n + 1, s => s.cur :: serves n (s.tick weight)

/-- The turn has just come to the first member of `ring`. -/
structure Fresh (ring : List α) (s : Turn α) : Prop where
  ring : s.cur :: s.rest = ring
  left : s.left = weight s.cur

/-- The ticks that the turns of `ts` take. -/
def span (ts : List α) : Nat := (ts.map (weight · + 1)).sum

/-- One turn of each of `ts`. -/
def round (ts : List α) : List α := ts.flatMap fun t => List.replicate (weight t + 1) t

variable {weight}

theorem tick_zero {s : Turn α} (h : s.left = 0) : s.tick weight = s.pass weight := if_pos h

theorem tick_pos {s : Turn α} (h : s.left ≠ 0) : s.tick weight = { s with left := s.left - 1 } := if_neg h

theorem length_serves (n : Nat) (s : Turn α) : (serves weight n s).length = n := by
  induction n generalizing s with
  | zero => rfl
  | succ n ih => rw [serves, List.length_cons, ih]

theorem serves_add (m n : Nat) (s : Turn α) :
    serves weight (m + n) s = serves weight m s ++ serves weight n ((tick weight)^[m] s) := by
  induction m generalizing s with
  | zero => rw [Nat.zero_add]; rfl
  | succ m ih =>
    rw [Nat.succ_add, serves, ih]
    rfl

/-- The last of `n + 1` ticks. -/
theorem serves_succ (n : Nat) (s : Turn α) : serves weight (n + 1) s = serves weight n s ++ [((tick weight)^[n] s).cur] :=
  serves_add n 1 s

theorem Fresh.eq {ring : List α} {s s' : Turn α} (h : Fresh weight ring s) (h' : Fresh weight ring s') : s' = s := by
  obtain ⟨hc, hr⟩ := List.cons.inj (h'.ring.trans h.ring.symm)
  have hl : s'.left = s.left := by rw [h'.left, h.left, hc]
  cases s
  cases s'
  simp only at hc hr hl
  rw [hc, hr, hl]

/-- What is left of a turn is used up, then the turn is passed. -/
theorem use_up (weight : α → Nat) {n : Nat} {s : Turn α} (h : s.left = n) : serves weight (n + 1) s = List.replicate (n + 1) s.cur ∧
    (tick weight)^[n + 1] s = s.pass weight := by
  induction n generalizing s with
  | zero => exact ⟨rfl, tick_zero h⟩
  | succ n ih =>
    have ht : s.tick weight = { s with left := s.left - 1 } := tick_pos (by omega)
    obtain ⟨hs, hp⟩ := ih (s := s.tick weight) (by rw [ht]; show s.left - 1 = n; omega)
    refine ⟨?_, ?_⟩
    · rw [serves, hs, ht]
      rfl
    · rw [Function.iterate_succ_apply, hp, ht]
      rfl

theorem pass_fresh (weight : α → Nat) (s : Turn α) : Fresh weight (s.rest ++ [s.cur]) (s.pass weight) := by
  unfold pass
  cases h : s.rest with
  | nil => exact ⟨rfl, rfl⟩
  | cons t ts => exact ⟨rfl, rfl⟩

theorem slice {t : α} {ts : List α} {s : Turn α} (h : Fresh weight (t :: ts) s) :
    serves weight (weight t + 1) s = List.replicate (weight t + 1) t ∧
      Fresh weight (ts ++ [t]) ((tick weight)^[weight t + 1] s) := by
  obtain ⟨hc, hr⟩ := List.cons.inj h.ring
  obtain ⟨hs, hp⟩ := use_up weight (h.left.trans (congrArg weight hc))
  rw [hs, hp, hc, ← hr, ← hc]
  exact ⟨rfl, pass_fresh weight s⟩

/-- Induction on the part of the ring that is visited; what was visited goes to its end. -/
theorem visits {us vs : List α} {s : Turn α} (h : Fresh weight (us ++ vs) s) :
    serves weight (span weight us) s = round weight us ∧ Fresh weight (vs ++ us) ((tick weight)^[span weight us] s) := by
  induction us generalizing vs s with
  | nil =>
    rw [List.append_nil]
    exact ⟨rfl, h⟩
  | cons t us ih =>
    rw [List.cons_append] at h
    obtain ⟨hs, hf⟩ := slice h
    rw [List.append_assoc] at hf
    obtain ⟨hs', hf'⟩ := ih hf
    have hspan : span weight (t :: us) = weight t + 1 + span weight us := rfl
    have hround : round weight (t :: us) = List.replicate (weight t + 1) t ++ round weight us := rfl
    refine ⟨?_, ?_⟩
    · rw [hspan, serves_add, hs, hs', hround]
    · rw [hspan, Nat.add_comm, Function.iterate_add_apply]
      rw [List.append_assoc] at hf'
      exact hf'

theorem rounds {ring : List α} {s : Turn α} (h : Fresh weight ring s) (k : Nat) :
    serves weight (k * span weight ring) s = (List.replicate k (round weight ring)).flatten ∧
      (tick weight)^[k * span weight ring] s = s := by
  have hring : Fresh weight (ring ++ []) s := by rw [List.append_nil]; exact h
  obtain ⟨hs, hf⟩ := visits hring
  have hback : (tick weight)^[span weight ring] s = s := h.eq hf
  induction k with
  | zero =>
    rw [Nat.zero_mul]
    exact ⟨rfl, rfl⟩
  | succ k ih =>
    rw [Nat.succ_mul, Nat.add_comm]
    refine ⟨?_, ?_⟩
    · rw [serves_add, hs, hback, ih.1, List.replicate_succ, List.flatten_cons]
    · rw [Nat.add_comm, Function.iterate_add_apply, hback, ih.2]

/-- Each member's share of `k` rounds. -/
theorem count_rounds [DecidableEq α] {ring : List α} (hn : ring.Nodup) {t : α} (ht : t ∈ ring) (k : Nat) :
    (List.replicate k (round weight ring)).flatten.count t = k * (weight t + 1) := by
  have hone : (round weight ring).count t = weight t + 1 := by
    induction ring with
    | nil => cases ht
    | cons u us ih =>
      have hu := List.nodup_cons.mp hn
      have hround : round weight (u :: us) = List.replicate (weight u + 1) u ++ round weight us := rfl
      rw [hround, List.count_append]
      rcases List.mem_cons.mp ht with rfl | ht
      · have hout : t ∉ round weight us := by
          intro hm
          obtain ⟨v, hv, he⟩ := List.mem_flatMap.mp hm
          exact hu.1 (List.eq_of_mem_replicate he ▸ hv)
        rw [List.count_replicate_self, List.count_eq_zero_of_not_mem hout]
      · have hne : u ≠ t := fun e => hu.1 (e ▸ ht)
        rw [List.count_replicate, if_neg (by simpa using hne), Nat.zero_add]
        exact ih hu.2 ht
  induction k with
  | zero => rw [Nat.zero_mul]; rfl
  | succ k ih => rw [List.replicate_succ, List.flatten_cons, List.count_append, hone, ih, Nat.succ_mul, Nat.add_comm]

end Turn

end TinyOs.Logic
