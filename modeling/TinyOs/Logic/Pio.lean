/-
  TinyOs.Logic.Pio — a device that hands over blocks of words by programmed I/O.

  Before each block it is busy, for as many polls of its status as the block says. Then
  it is ready, and each read of its data port takes a word. A read at another time gives
  an arbitrary word, `noise`, and takes nothing.

  `ready` is what can be read without a poll: the rest of the block in front, and what
  follows it without a pause. `word j` is what the `j`-th read from now gives when no poll
  comes between: word `j` of it, and behind it noise.
-/

import Mathlib.Data.List.Basic

namespace TinyOs.Logic

/-- A block that is `busy` polls away. -/
structure Block (α : Type) where
  busy : Nat
  head : α
  tail : List α

namespace Block

variable {α : Type}

def words (b : Block α) : List α := b.head :: b.tail

end Block

inductive Phase where
  | idle | busy | ready
  deriving DecidableEq, Repr

structure Pio (α : Type) where
  left : List (Block α)
  /-- Polls and reads so far. -/
  polls : Nat
  reads : Nat

namespace Pio

variable {α : Type}

def phase (d : Pio α) : Phase :=
  match d.left with
  | [] => .idle
  | ⟨0, _, _⟩ :: _ => .ready
  | ⟨_ + 1, _, _⟩ :: _ => .busy

/-- Time passes with the polls. -/
def poll (d : Pio α) : Pio α :=
  match d.left with
  | ⟨b + 1, w, ws⟩ :: rest => ⟨⟨b, w, ws⟩ :: rest, d.polls + 1, d.reads⟩
  | _ => { d with polls := d.polls + 1 }

/-- The word read, and the device after the read. -/
def read (noise : Nat → α) (d : Pio α) : α × Pio α :=
  match d.left with
  | ⟨0, w, []⟩ :: rest => (w, ⟨rest, d.polls, d.reads + 1⟩)
  | ⟨0, w, w' :: ws⟩ :: rest => (w, ⟨⟨0, w', ws⟩ :: rest, d.polls, d.reads + 1⟩)
  | _ => (noise d.reads, { d with reads := d.reads + 1 })

/-- The words of the blocks in front that are not busy. -/
def ready : List (Block α) → List α
  | [] => []
  | ⟨0, w, ws⟩ :: rest => w :: ws ++ ready rest
  | ⟨_ + 1, _, _⟩ :: _ => []

variable {noise : Nat → α} {d : Pio α} {rest : List (Block α)} {w : α} {ws : List α} {b : Nat}

theorem phase_ready (h : d.left = ⟨0, w, ws⟩ :: rest) : d.phase = .ready := by
  unfold phase
  rw [h]

theorem phase_busy (h : d.left = ⟨b + 1, w, ws⟩ :: rest) : d.phase = .busy := by
  unfold phase
  rw [h]

theorem poll_busy (h : d.left = ⟨b + 1, w, ws⟩ :: rest) : d.poll = ⟨⟨b, w, ws⟩ :: rest, d.polls + 1, d.reads⟩ := by
  unfold poll
  rw [h]

theorem poll_left (h : d.left = ⟨0, w, ws⟩ :: rest) : d.poll.left = d.left := by
  unfold poll
  rw [h]

theorem poll_reads (d : Pio α) : d.poll.reads = d.reads := by
  unfold poll
  split <;> rfl

theorem read_reads (noise : Nat → α) (d : Pio α) : (d.read noise).2.reads = d.reads + 1 := by
  unfold read
  split <;> rfl

/-- A read takes the first ready word. -/
theorem read_ready (noise : Nat → α) (d : Pio α) :
    (d.read noise).1 = (ready d.left).headD (noise d.reads) ∧ ready (d.read noise).2.left = (ready d.left).tail := by
  unfold read
  split
  · next w rest h =>
    rw [h]
    exact ⟨rfl, rfl⟩
  · next w w' ws rest h =>
    rw [h]
    exact ⟨rfl, rfl⟩
  · next h1 h2 =>
    have hnone : ready d.left = [] := by
      rcases hl : d.left with _ | ⟨⟨b, w, ws⟩, rest⟩
      · rfl
      · cases b with
        | zero =>
          cases ws with
          | nil => exact absurd hl (h1 w rest)
          | cons w' ws => exact absurd hl (h2 w w' ws rest)
        | succ b => rfl
    rw [hnone]
    exact ⟨rfl, rfl⟩

/-- The word that read `j` gives, without a poll before it. -/
def word (noise : Nat → α) (d : Pio α) (j : Nat) : α := ((ready d.left).drop j).headD (noise (d.reads + j))

theorem read_word (noise : Nat → α) (d : Pio α) : (d.read noise).1 = d.word noise 0 := (read_ready noise d).1

theorem word_succ (noise : Nat → α) (d : Pio α) (j : Nat) : d.word noise (j + 1) = (d.read noise).2.word noise j := by
  unfold word
  rw [(read_ready noise d).2, read_reads, List.drop_tail, Nat.add_assoc, Nat.add_comm 1 j]

theorem word_of_ready {j : Nat} (h : (ready d.left)[j]? = some w) : d.word noise j = w := by
  obtain ⟨hj, rfl⟩ := List.getElem?_eq_some_iff.mp h
  unfold word
  rw [List.drop_eq_getElem_cons hj]
  rfl

theorem word_of_noise {j : Nat} (h : (ready d.left).length ≤ j) : d.word noise j = noise (d.reads + j) := by
  unfold word
  rw [List.drop_eq_nil_of_le h]
  rfl

end Pio

end TinyOs.Logic
