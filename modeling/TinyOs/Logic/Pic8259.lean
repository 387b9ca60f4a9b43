/-
  TinyOs.Logic.Pic8259 — two 8259A interrupt controllers in cascade.

  A controller takes command words at its two ports: ICW1 to ICW4 program it, in this
  order, and the operation words after them mask its inputs and end its interrupts. An
  input that rises is latched in `irr` whether it is masked or not; an acknowledged one
  goes on to `isr`, and blocks itself and what is below it until an EOI. Polling, special
  masks and rotating priorities are not in it.

  - `program_chip`: after an initialization sequence, whatever came before.
  - `request_some`, `request_first`: the input served next is requested and not masked; with
    nothing in service, input 0 comes first.
-/

import Mathlib.Tactic.Common

namespace TinyOs.Logic.Pic8259

/-- What the next word at the data port is; the flags are SNGL and IC4 of ICW1. -/
inductive Expects where
  | icw2 (single ic4 : Bool)
  | icw3 (ic4 : Bool)
  | icw4
  | ocw1
  deriving DecidableEq, Repr

structure Chip where
  imr : BitVec 8
  irr : BitVec 8
  isr : BitVec 8
  /-- ICW2: the vector of input 0. -/
  base : BitVec 8
  /-- The inputs that have a slave; of a slave, its input at the master. -/
  icw3 : BitVec 8
  /-- Automatic EOI. -/
  aeoi : Bool
  expects : Expects
  deriving DecidableEq, Repr

namespace Chip

/-- A word at the port with A0 = 0: ICW1, OCW3 or OCW2, of which the non-specific EOI. -/
def control (v : BitVec 8) (c : Chip) : Chip :=
  if v &&& 0x10 ≠ 0 then
    { c with imr := 0, irr := 0, aeoi := c.aeoi && v &&& 0x01 ≠ 0, expects := .icw2 (v &&& 0x02 ≠ 0) (v &&& 0x01 ≠ 0) }
  else if v &&& 0x08 ≠ 0 then c
  -- the lowest bit is the one of highest priority
  else if v &&& 0xe0 = 0x20 then { c with isr := c.isr &&& (c.isr - 1) }
  else c

/-- And with A0 = 1. -/
def data (v : BitVec 8) (c : Chip) : Chip :=
  match c.expects with
  | .icw2 single ic4 => { c with base := v &&& 0xf8, expects := if single then (if ic4 then .icw4 else .ocw1) else .icw3 ic4 }
  | .icw3 ic4 => { c with icw3 := v, expects := if ic4 then .icw4 else .ocw1 }
  | .icw4 => { c with aeoi := v &&& 0x02 ≠ 0, expects := .ocw1 }
  | .ocw1 => { c with imr := v }

def raise (n : Nat) (c : Chip) : Chip := { c with irr := c.irr ||| 1#8 <<< n }

/-- The input it would serve: above every one in service. `lines` are inputs held by slaves. -/
def request (lines : BitVec 8) (c : Chip) : Option Nat :=
  ((List.range 8).takeWhile fun n => !c.isr.getLsbD n).find? fun n => (c.irr ||| lines).getLsbD n && !c.imr.getLsbD n

/-- Input `n` is acknowledged. -/
def serve (n : Nat) (c : Chip) : Chip :=
  { c with irr := c.irr &&& ~~~(1#8 <<< n), isr := if c.aeoi then c.isr else c.isr ||| 1#8 <<< n }

end Chip

/-- The slave's INT is input 2 of the master. -/
structure Pair where
  master : Chip
  slave : Chip
  deriving DecidableEq, Repr

namespace Pair

def outb (port : BitVec 16) (v : BitVec 8) (p : Pair) : Pair :=
  if port = 0x20 then { p with master := p.master.control v }
  else if port = 0x21 then { p with master := p.master.data v }
  else if port = 0xa0 then { p with slave := p.slave.control v }
  else if port = 0xa1 then { p with slave := p.slave.data v }
  else p

def raise (n : Nat) (p : Pair) : Pair :=
  if n < 8 then { p with master := p.master.raise n } else { p with slave := p.slave.raise (n - 8) }

def lines (p : Pair) : BitVec 8 := if (p.slave.request 0).isSome then 0x04 else 0

/-- The input the processor is interrupted for. -/
def request (p : Pair) : Option Nat := p.master.request p.lines

/-- The vector the processor is told; with nothing requested any more, that of input 7. -/
def acknowledge (p : Pair) : BitVec 8 × Pair :=
  match p.request with
  | none => (p.master.base + 7, p)
  | some n =>
    let p := { p with master := p.master.serve n }
    if p.master.icw3.getLsbD n then
      match p.slave.request 0 with
      | none => (p.slave.base + 7, p)
      | some m => (p.slave.base + BitVec.ofNat 8 m, { p with slave := p.slave.serve m })
    else (p.master.base + BitVec.ofNat 8 n, p)

end Pair

/-! ## Programming -/

/-- ICW1 to ICW4 and a mask, to a controller in cascade. -/
def program (base icw3 mask : BitVec 8) (c : Chip) : Chip :=
  ((((c.control 0x11).data base).data icw3).data 0x01).data mask

theorem program_chip (base icw3 mask : BitVec 8) (c : Chip) :
    program base icw3 mask c = ⟨mask, 0, c.isr, base &&& 0xf8, icw3, false, .ocw1⟩ := rfl

/-! ## Requests -/

variable {c : Chip}

/-- What it takes for an input to be served next. -/
theorem request_some {lines : BitVec 8} {n : Nat} (h : c.request lines = some n) :
    n < 8 ∧ (c.irr ||| lines).getLsbD n = true ∧ c.imr.getLsbD n = false := by
  unfold Chip.request at h
  have hin := List.mem_range.mp ((List.takeWhile_sublist _).subset (List.mem_of_find?_eq_some h))
  have hreq := List.find?_some h
  simp only [Bool.and_eq_true, Bool.not_eq_true'] at hreq
  exact ⟨hin, hreq⟩

theorem request_masked (h : c.imr = 0xff) (lines : BitVec 8) : c.request lines = none := by
  have hbit : ∀ n, n < 8 → (0xff : BitVec 8).getLsbD n = true := by decide
  rw [Option.eq_none_iff_forall_ne_some]
  intro n hn
  obtain ⟨hlt, -, hm⟩ := request_some hn
  rw [h, hbit n hlt] at hm
  cases hm

/-- With nothing in service, input 0 comes before all others. -/
theorem request_first {lines : BitVec 8} (h : c.isr = 0) (h0 : (c.irr ||| lines).getLsbD 0 = true)
    (hm : c.imr.getLsbD 0 = false) : c.request lines = some 0 := by
  unfold Chip.request
  rw [h, show List.range 8 = 0 :: [1, 2, 3, 4, 5, 6, 7] from rfl, List.takeWhile_cons_of_pos (by decide),
    List.find?_cons_of_pos]
  rw [h0, hm]
  rfl

end TinyOs.Logic.Pic8259
