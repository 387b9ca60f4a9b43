/-
  TinyOs.Kernel.Pic — which interrupts reach the kernel (kernel/interrupt.c, kernel/kernel.S).

  `pic_init` leaves the timer as the only input that is not masked. Every entry stub sends an EOI
  to both controllers before it calls its handler, whether it was entered for an input,
  for a request that has gone again, or for an exception of the processor, which may come
  inside another stub. The gates clear the IF bit; the stubs leave it, and any other code may set it.

  `interrupts_ready`: from `pic_init` on, whatever the devices request,
  - a device's interrupt comes at vector 0x20, or at 0x27 with nothing in service; the
    keyboard's 0x21 never comes;
  - where interrupts are on nothing is in service, so a tick requested is the next
    interrupt: no EOI is missing, however the handlers switch threads.
-/

import TinyOs.Kernel.Debug
import TinyOs.Kernel.InterruptEntry
import TinyOs.Logic.Pic8259
import TinyOs.Logic.Runs

namespace TinyOs.Kernel.Pic

open TinyOs.Logic TinyOs.Logic.X86 TinyOs.Logic.Pic8259

def picMCtrl : BitVec 16 := 0x20
def picMData : BitVec 16 := 0x21
def picSCtrl : BitVec 16 := 0xa0
def picSData : BitVec 16 := 0xa1

def picInit (p : Pair) : Pair :=
  let p := p.outb picMCtrl 0x11
  let p := p.outb picMData 0x20
  let p := p.outb picMData 0x04
  let p := p.outb picMData 0x01
  let p := p.outb picSCtrl 0x11
  let p := p.outb picSData 0x28
  let p := p.outb picSData 0x02
  let p := p.outb picSData 0x01
  let p := p.outb picMData 0xfe
  p.outb picSData 0xff

/-- What code sends to ports, with `al` in the register. -/
def outs : BitVec 8 → List Instr → List (BitVec 16 × BitVec 8)
  | _, [] => []
  | _, .movAl v :: code => outs v code
  | al, .outAl port :: code => (port.setWidth 16, al) :: outs al code
  | al, _ :: code => outs al code

/-- What the stub at `v` has to send. -/
def stubOuts (v : Nat) : List (BitVec 16 × BitVec 8) := outs 0 (intrEntry 0 0 v (vectors.getD v .zero))

/-! ## The machine -/

structure Machine where
  pics : Pair
  /-- The IF bit. -/
  intr : Bool
  /-- What the stubs entered have still to send, the innermost first. -/
  pending : List (BitVec 16 × BitVec 8)
  /-- The vectors of the devices' interrupts. No code reads it. -/
  taken : List (BitVec 8)

inductive Event where
  /-- Input `n` of a device rises; those of the slave are 8 to 15. -/
  | raise (n : Nat)
  /-- The processor acknowledges an interrupt. -/
  | acknowledge
  /-- An exception, at any instruction. -/
  | exception (v : Nat)
  /-- The next `out` of a stub. -/
  | out
  /-- Code outside the stubs sets or clears IF. -/
  | setIntr (on : Bool)

namespace Machine

def step (s : Machine) : Event → Except Stop Machine
  | .raise n => .ok { s with pics := s.pics.raise n }
  | .acknowledge =>
    let (v, pics) := s.pics.acknowledge
    .ok { s with pics := pics, intr := false, pending := stubOuts v.toNat ++ s.pending, taken := s.taken ++ [v] }
  | .exception v => .ok { s with intr := false, pending := stubOuts v ++ s.pending }
  | .out =>
    match s.pending with
    | [] => .ok s
    | (port, v) :: pending => .ok { s with pics := s.pics.outb port v, pending := pending }
  | .setIntr on => .ok { s with intr := on }

/-- An interrupt is acknowledged where IF is set, also when its request has gone again. -/
def Legal (s : Machine) : Event → Prop
  | .acknowledge => s.intr = true
  | .setIntr _ => s.pending = []
  | _ => True

instance (s : Machine) (e : Event) : Decidable (s.Legal e) :=
  match e with
  | .raise _ | .exception _ | .out => inferInstanceAs (Decidable True)
  | .acknowledge => inferInstanceAs (Decidable (s.intr = true))
  | .setIntr _ => inferInstanceAs (Decidable (s.pending = []))

/-- After `pic_init`, on controllers that have nothing in service; requests may have come since. -/
structure First (s : Machine) : Prop where
  pics : ∃ (p : Pair) (irr irr' : BitVec 8), p.master.isr = 0 ∧ p.slave.isr = 0 ∧
    s.pics = { master := { (picInit p).master with irr := irr }, slave := { (picInit p).slave with irr := irr' } }
  intr : s.intr = false
  pending : s.pending = []
  taken : s.taken = []

def Runs : Machine → Prop := Reach First Legal step

/-! ## The invariant -/

/-- Whatever the controllers were in the middle of. -/
theorem picInit_eq (p : Pair) : picInit p = ⟨program 0x20 0x04 0xfe p.master, program 0x28 0x02 0xff p.slave⟩ := rfl

def eoiSlave : BitVec 16 × BitVec 8 := (0xa0, 0x20)

def eoiMaster : BitVec 16 × BitVec 8 := (0x20, 0x20)

/-- Every stub sends the two EOIs. -/
theorem stubOuts_eq (v : Nat) : stubOuts v = [eoiSlave, eoiMaster] := by
  unfold stubOuts
  cases vectors.getD v .zero with
  | errorCode => rfl
  | zero => rfl

/-- How `pic_init` has programmed the controllers. -/
structure Programmed (p : Pair) : Prop where
  masks : p.master.imr = 0xfe ∧ p.slave.imr = 0xff
  base : p.master.base = 0x20
  cascade : p.master.icw3 = 0x04
  manual : p.master.aeoi = false

structure Ready (s : Machine) : Prop where
  programmed : Programmed s.pics
  master : s.pics.master.isr = 0 ∨ s.pics.master.isr = 1 ∧ eoiMaster ∈ s.pending
  slave : s.pics.slave.isr = 0
  pending : ∀ o ∈ s.pending, o = eoiSlave ∨ o = eoiMaster
  intr : s.pending ≠ [] → s.intr = false
  taken : ∀ v ∈ s.taken, v = 0x20 ∨ v = 0x27

variable {s s' : Machine}

theorem Ready.first (h : First s) : Ready s := by
  obtain ⟨⟨p, irr, irr', hm, hs, hp⟩, hi, hpend, htaken⟩ := h
  rw [picInit_eq, program_chip, program_chip] at hp
  refine ⟨?_, ?_, ?_, ?_, fun _ => hi, ?_⟩
  · rw [hp]
    exact ⟨⟨rfl, rfl⟩, rfl, rfl, rfl⟩
  · rw [hp]
    exact .inl hm
  · rw [hp]
    exact hs
  · rw [hpend]
    exact fun o ho => absurd ho List.not_mem_nil
  · rw [htaken]
    exact fun v hv => absurd hv List.not_mem_nil

/-- Nothing is in service where no stub is at work. -/
theorem Ready.idle (h : Ready s) (hp : s.pending = []) : s.pics.master.isr = 0 := by
  rcases h.master with h0 | ⟨-, hmem⟩
  · exact h0
  · rw [hp] at hmem
    cases hmem

theorem Ready.on (h : Ready s) (hi : s.intr = true) : s.pending = [] := by
  by_contra hp
  rw [h.intr hp] at hi
  cases hi

theorem Ready.lines (h : Ready s) : s.pics.lines = 0#8 := by
  unfold Pair.lines
  rw [request_masked h.programmed.masks.2]
  rfl

/-- Only the timer is asked for. -/
theorem Ready.request (h : Ready s) {n : Nat} (hn : s.pics.request = some n) : n = 0 ∧ s.pics.master.irr.getLsbD 0 = true := by
  have hbit : ∀ n, n < 8 → n ≠ 0 → (0xfe : BitVec 8).getLsbD n = true := by decide
  obtain ⟨hlt, hreq, hmask⟩ := request_some hn
  have h0 : n = 0 := by
    by_contra hne
    rw [h.programmed.masks.1, hbit n hlt hne] at hmask
    cases hmask
  rw [h0, h.lines, BitVec.or_zero] at hreq
  exact ⟨h0, hreq⟩

/-- What the processor is told, and what the controllers are then. -/
theorem Ready.acknowledge (h : Ready s) : s.pics.request = none ∧ s.pics.acknowledge = (0x27, s.pics) ∨
    s.pics.request = some 0 ∧ s.pics.acknowledge = (0x20, { s.pics with master := s.pics.master.serve 0 }) := by
  unfold Pair.acknowledge
  cases hreq : s.pics.request with
  | none =>
    left
    simp only [h.programmed.base]
    exact ⟨trivial, rfl⟩
  | some n =>
    obtain ⟨rfl, -⟩ := h.request hreq
    right
    have hslave : (s.pics.master.serve 0).icw3.getLsbD 0 = false := by
      show s.pics.master.icw3.getLsbD 0 = false
      rw [h.programmed.cascade]
      decide
    have hbase : (s.pics.master.serve 0).base = 0x20 := h.programmed.base
    simp only [hslave, hbase, Bool.false_eq_true, if_false]
    exact ⟨trivial, rfl⟩

theorem Ready.stub (h : Ready s) (v : Nat) : ∀ o ∈ stubOuts v ++ s.pending, o = eoiSlave ∨ o = eoiMaster := by
  intro o ho
  rw [stubOuts_eq] at ho
  rcases List.mem_append.mp ho with ho | ho
  · simpa using ho
  · exact h.pending o ho

/-- A request changes what is requested only. -/
theorem Ready.raise (h : Ready s) (n : Nat) : Ready { s with pics := s.pics.raise n } := by
  obtain ⟨hprog, hm, hs, hpend, hintr, htaken⟩ := h
  unfold Pair.raise
  split
  · exact ⟨⟨hprog.masks, hprog.base, hprog.cascade, hprog.manual⟩, hm, hs, hpend, hintr, htaken⟩
  · exact ⟨⟨hprog.masks, hprog.base, hprog.cascade, hprog.manual⟩, hm, hs, hpend, hintr, htaken⟩

/-- The stub's EOI to the master ends what is in service there; with nothing in service an EOI is lost. -/
theorem Ready.out (h : Ready s) {port : BitVec 16} {v : BitVec 8} {pending : List (BitVec 16 × BitVec 8)}
    (hp : s.pending = (port, v) :: pending) : Ready { s with pics := s.pics.outb port v, pending := pending } := by
  obtain ⟨hprog, hm, hs, hpend, hintr, htaken⟩ := h
  rw [hp] at hm hpend hintr
  have hrest : ∀ o ∈ pending, o = eoiSlave ∨ o = eoiMaster := fun o ho => hpend o (List.mem_cons_of_mem _ ho)
  have hintr' : pending ≠ [] → s.intr = false := fun _ => hintr (List.cons_ne_nil _ _)
  have hprog' : ∀ m sl, Programmed { s.pics with
      master := { s.pics.master with isr := m }, slave := { s.pics.slave with isr := sl } } := fun _ _ =>
    ⟨hprog.masks, hprog.base, hprog.cascade, hprog.manual⟩
  rcases hpend (port, v) List.mem_cons_self with he | he
  · obtain ⟨rfl, rfl⟩ := Prod.mk.inj he
    refine ⟨hprog' _ _, ?_, ?_, hrest, hintr', htaken⟩
    · refine hm.imp id fun hin => ⟨hin.1, (List.mem_cons.mp hin.2).resolve_left (by decide)⟩
    · show s.pics.slave.isr &&& (s.pics.slave.isr - 1) = 0
      rw [hs]
      rfl
  · obtain ⟨rfl, rfl⟩ := Prod.mk.inj he
    refine ⟨hprog' _ _, .inl ?_, hs, hrest, hintr', htaken⟩
    show s.pics.master.isr &&& (s.pics.master.isr - 1) = 0
    rcases hm with hm | ⟨hm, -⟩
    · rw [hm]; rfl
    · rw [hm]; rfl

/-- The interrupt's own stub has its EOIs before it. -/
theorem Ready.taking (h : Ready s) (hi : s.intr = true) {v : BitVec 8} {pics : Pair} (ha : s.pics.acknowledge = (v, pics)) :
    Ready { pics := pics, intr := false, pending := stubOuts v.toNat ++ s.pending, taken := s.taken ++ [v] } := by
  have h0 := h.idle (h.on hi)
  have hprog := h.programmed
  have htaken : ∀ w, w = 0x20 ∨ w = 0x27 → ∀ u ∈ s.taken ++ [w], u = 0x20 ∨ u = 0x27 := by
    intro w hw u hu
    rcases List.mem_append.mp hu with hu | hu
    · exact h.taken u hu
    · rw [List.mem_singleton.mp hu]
      exact hw
  rcases h.acknowledge with ⟨-, he⟩ | ⟨-, he⟩
  · obtain ⟨rfl, rfl⟩ := Prod.mk.inj (ha.symm.trans he)
    exact ⟨hprog, .inl h0, h.slave, h.stub _, fun _ => rfl, htaken _ (.inr rfl)⟩
  · obtain ⟨rfl, rfl⟩ := Prod.mk.inj (ha.symm.trans he)
    refine ⟨⟨hprog.masks, hprog.base, hprog.cascade, hprog.manual⟩, .inr ⟨?_, ?_⟩, h.slave, h.stub _, fun _ => rfl,
      htaken _ (.inl rfl)⟩
    · show (if s.pics.master.aeoi then s.pics.master.isr else s.pics.master.isr ||| 1#8 <<< 0) = 1
      rw [hprog.manual, h0]
      rfl
    · rw [stubOuts_eq]
      exact List.mem_append_left _ (by simp)

theorem Ready.step {e : Event} (h : Ready s) (hl : s.Legal e) (hk : s.step e = .ok s') : Ready s' := by
  cases e with
  | raise n => cases hk; exact h.raise n
  | acknowledge => cases hk; exact h.taking hl rfl
  | exception v =>
    cases hk
    refine ⟨h.programmed, ?_, h.slave, h.stub v, fun _ => rfl, h.taken⟩
    exact h.master.imp id fun hin => ⟨hin.1, List.mem_append_right _ hin.2⟩
  | out =>
    simp only [Machine.step] at hk
    split at hk
    · cases hk; exact h
    · next port v pending hp => cases hk; exact h.out hp
  | setIntr on =>
    cases hk
    have hl : s.pending = [] := hl
    exact ⟨h.programmed, h.master, h.slave, h.pending, fun hp => absurd hl hp, h.taken⟩

theorem Runs.ready (h : Runs s) : Ready s :=
  h.invariant (P := Ready) (fun _ h0 => Ready.first h0) fun _ _ _ hr hl hk => hr.step hl hk

theorem interrupts_ready (h : Runs s) :
    (∀ v ∈ s.taken, v = 0x20 ∨ v = 0x27) ∧
    (s.intr = true → s.pics.master.isr = 0 ∧ s.pics.slave.isr = 0 ∧
      (s.pics.request.isSome ↔ s.pics.master.irr.getLsbD 0 = true) ∧
      (s.pics.acknowledge.1 = 0x20 ↔ s.pics.master.irr.getLsbD 0 = true)) := by
  have hr := h.ready
  refine ⟨hr.taken, ?_⟩
  intro hi
  have h0 := hr.idle (hr.on hi)
  have hreq : s.pics.master.irr.getLsbD 0 = true → s.pics.request = some 0 := by
    intro hb
    refine request_first h0 ?_ ?_
    · rw [hr.lines, BitVec.or_zero, hb]
    · rw [hr.programmed.masks.1]
      decide
  refine ⟨h0, hr.slave, ?_, ?_⟩
  · constructor
    · intro hn
      obtain ⟨n, hn⟩ := Option.isSome_iff_exists.mp hn
      exact (hr.request hn).2
    · intro hb
      rw [hreq hb]
      rfl
  · rcases hr.acknowledge with ⟨hn, ha⟩ | ⟨hn, ha⟩
    · have hne : (0x27 : BitVec 8) ≠ 0x20 := by decide
      rw [ha]
      constructor
      · intro hv; exact absurd hv hne
      · intro hb; rw [hreq hb] at hn; cases hn
    · rw [ha]
      exact ⟨fun _ => (hr.request hn).2, fun _ => rfl⟩

/-- As a BIOS may have left them, the slave in the middle of a sequence. -/
def biosPics : Pair := ⟨⟨0xb8, 0, 0, 8, 4, false, .ocw1⟩, ⟨0xff, 0, 0, 0x70, 2, false, .icw4⟩⟩

/-- A tick, a page fault in the middle of its stub, and then a key and another tick. -/
def faulted : Machine :=
  [Event.setIntr true, .raise 0, .acknowledge, .out, .exception 14, .out, .out, .out, .setIntr true, .raise 1, .raise 0].foldl
    (next step) ⟨picInit biosPics, false, [], []⟩

theorem faulted_runs : Runs faulted :=
  Reach.script (.first ⟨⟨biosPics, 0, 0, rfl, rfl, rfl⟩, rfl, rfl, rfl⟩) (by decide)

theorem faulted_ready :
    (∀ v ∈ faulted.taken, v = 0x20 ∨ v = 0x27) ∧
    (faulted.intr = true → faulted.pics.master.isr = 0 ∧ faulted.pics.slave.isr = 0 ∧
      (faulted.pics.request.isSome ↔ faulted.pics.master.irr.getLsbD 0 = true) ∧
      (faulted.pics.acknowledge.1 = 0x20 ↔ faulted.pics.master.irr.getLsbD 0 = true)) := interrupts_ready faulted_runs

example : faulted.intr = true ∧ faulted.pics.master.irr = 0x03 ∧ faulted.pics.acknowledge.1 = 0x20 := by decide

end Machine

end TinyOs.Kernel.Pic
