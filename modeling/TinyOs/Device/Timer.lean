/-
  TinyOs.Device.Timer — how often the timer interrupts (device/timer.c).

  `frequency_set` sends the low byte of the count, and then the low byte shifted right by 8:
  in `(uint8_t)counter_value >> 8` the cast comes first. So the high byte is always 0.

  `timer_rate`: whatever the chip was doing, the counter then counts the low byte alone (0 is
  65536), and the rate is the one asked for exactly where the high byte is 0. timer_init asks
  for 11931, 100 Hz, and gets 155, some 7700 Hz (`timer_init_rate`).
-/

import TinyOs.Logic.Pit8253

namespace TinyOs.Device

open TinyOs.Logic.Pit8253

def irq0Frequency : Nat := 100

def inputFrequency : Nat := 1193180

def counter0Value : Nat := inputFrequency / irq0Frequency

def contrer0Port : BitVec 8 := 0x40

def counter0No : BitVec 8 := 0

def counterMode : BitVec 8 := 2

def readWriteLatch : BitVec 8 := 3

def pitControlPort : BitVec 16 := 0x43

def frequencySet (counterPort counterNo rwl counterMode : BitVec 8) (counterValue : BitVec 16) (p : Pit) : Pit :=
  let p := p.outb pitControlPort (counterNo <<< 6 ||| rwl <<< 4 ||| counterMode <<< 1)
  let p := p.outb (counterPort.setWidth 16) (counterValue.setWidth 8)
  p.outb (counterPort.setWidth 16) (counterValue.setWidth 8 >>> 8)

def timerInit (p : Pit) : Pit :=
  frequencySet contrer0Port counter0No readWriteLatch counterMode (BitVec.ofNat 16 counter0Value) p

/-! ## The counter -/

/-- A counter of the chip, at its port. -/
structure AtPort (port no : BitVec 8) : Prop where
  lt : no.toNat < 3
  port : port.toNat = 0x40 + no.toNat

theorem outb_data {port no : BitVec 8} (h : AtPort port no) (v : BitVec 8) (p : Pit) :
    p.outb (port.setWidth 16) v = p.modify no.toNat (Counter.data v) := by
  have hto : (port.setWidth 16 : BitVec 16).toNat = 0x40 + no.toNat := by
    rw [BitVec.toNat_setWidth, h.port]
    have hlt := h.lt
    omega
  have hne : (port.setWidth 16 : BitVec 16) ≠ 0x43 := by
    intro he
    rw [he] at hto
    have hlt := h.lt
    have h43 : (0x43 : BitVec 16).toNat = 0x43 := rfl
    omega
  unfold Pit.outb
  rw [if_neg hne, hto, if_pos (by have hlt := h.lt; omega), Nat.add_sub_cancel_left]

/-- The control word reaches its counter, with the mode in it. -/
theorem outb_control {no mode : BitVec 8} (hno : no.toNat < 3) (hmode : mode.toNat < 8) (p : Pit) :
    p.outb pitControlPort (no <<< 6 ||| readWriteLatch <<< 4 ||| mode <<< 1) =
      p.modify no.toNat fun c => { c with rw := 3, mode := mode.setWidth 3, high := false, count := none, element := 0 } := by
  have hall : ∀ n < 3, ∀ m < 8,
      let w := BitVec.ofNat 8 n <<< 6 ||| readWriteLatch <<< 4 ||| BitVec.ofNat 8 m <<< 1
      ¬ (w >>> 6 = 3 ∨ w >>> 4 &&& 3 = 0) ∧ (w >>> 6).toNat = n ∧ (w >>> 4).setWidth 2 = 3#2 ∧
        (w >>> 1).setWidth 3 = (BitVec.ofNat 8 m).setWidth 3 := by decide
  have hw := hall no.toNat hno mode.toNat hmode
  simp only [BitVec.ofNat_toNat, BitVec.setWidth_eq] at hw
  obtain ⟨h1, h2, h3, h4⟩ := hw
  unfold Pit.outb Counter.control
  rw [if_pos (show pitControlPort = 0x43 from rfl), if_neg h1, h2, h3, h4]
  rfl

/-- The counter gets the low byte alone; the others keep what they had. -/
theorem frequencySet_counter {port no mode : BitVec 8} (h : AtPort port no) (hmode : mode.toNat < 8) (v : BitVec 16) (p : Pit) :
    (frequencySet port no readWriteLatch mode v p).counter = Function.update p.counter no.toNat
      { p.counter no.toNat with
        rw := 3, mode := mode.setWidth 3, high := false, low := v.setWidth 8, count := some (0#8 ++ v.setWidth 8), element := 0 } := by
  have hshift : (v.setWidth 8 : BitVec 8) >>> 8 = 0 := BitVec.ushiftRight_eq_zero (Nat.le_refl 8)
  unfold frequencySet
  simp only [outb_control h.lt hmode, outb_data h, hshift]
  simp [Pit.modify, Counter.data]

/-! ## The rate -/

/-- The clocks of the counter's input from one interrupt to the next, as asked for. -/
def asked (v : BitVec 16) : Nat := period v

/-- And as programmed. -/
def programmed (v : BitVec 16) : Nat := if v.toNat % 256 = 0 then 65536 else v.toNat % 256

theorem period_low (v : BitVec 16) : period (0#8 ++ v.setWidth 8) = programmed v := by
  have hto : (0#8 ++ (v.setWidth 8 : BitVec 8) : BitVec 16).toNat = v.toNat % 256 := by
    rw [BitVec.toNat_append, BitVec.toNat_setWidth]
    simp
  have hz : (0#8 ++ (v.setWidth 8 : BitVec 8) : BitVec 16) = 0 ↔ v.toNat % 256 = 0 := by
    rw [← hto]
    exact ⟨fun e => by rw [e]; rfl, fun e => BitVec.eq_of_toNat_eq e⟩
  unfold period programmed
  rw [if_congr hz rfl rfl, hto]

theorem programmed_iff (v : BitVec 16) : programmed v = asked v ↔ v.toNat < 256 := by
  have hz : v = 0 ↔ v.toNat = 0 := ⟨fun e => by rw [e]; rfl, fun e => BitVec.eq_of_toNat_eq e⟩
  have hlt := v.isLt
  unfold asked period programmed
  rw [if_congr hz rfl rfl]
  split
  · split
    · omega
    · omega
  · split
    · omega
    · omega

/-- From any state of the chip: the interrupts of the counter in `k` clocks after the first, and
when they are as asked for. -/
theorem timer_rate {port no : BitVec 8} (h : AtPort port no) (v : BitVec 16) (p : Pit) :
    (∀ n, n ≠ no.toNat → (frequencySet port no readWriteLatch counterMode v p).counter n = p.counter n) ∧
    (∀ k, ((frequencySet port no readWriteLatch counterMode v p).counter no.toNat).edges (k + 1) = k / programmed v) ∧
    ((∀ k, ((frequencySet port no readWriteLatch counterMode v p).counter no.toNat).edges (k + 1) = k / asked v) ↔
      v.toNat < 256) := by
  have hmode : counterMode.toNat < 8 := by decide
  have hc := frequencySet_counter h hmode v p
  have hedges : ∀ k, ((frequencySet port no readWriteLatch counterMode v p).counter no.toNat).edges (k + 1) =
      k / programmed v := by
    intro k
    rw [hc, Function.update_self, ← period_low]
    exact edges_eq rfl (by show counterMode.setWidth 3 &&& 3 = 2#3; decide) rfl
  refine ⟨?_, hedges, ?_⟩
  · intro n hn
    rw [hc, Function.update_of_ne hn]
  · have hpos : 0 < programmed v := by
      rw [← period_low]
      exact period_pos _
    rw [← programmed_iff]
    constructor
    · intro hasked
      exact period_unique hpos (period_pos v) fun k => (hedges k).symm.trans (hasked k)
    · intro he k
      rw [hedges, he]

/-- A chip that has just been switched on. -/
def freshPit : Pit := ⟨fun _ => ⟨0, 0, false, 0, none, 0⟩⟩

theorem timer_init_rate : (∀ k, ((timerInit freshPit).counter 0).edges (k + 1) = k / 155) ∧
    ¬ ∀ k, ((timerInit freshPit).counter 0).edges (k + 1) = k / 11931 := by
  have hport : AtPort contrer0Port counter0No := ⟨by decide, by decide⟩
  obtain ⟨-, hrate, hiff⟩ := timer_rate hport (BitVec.ofNat 16 counter0Value) freshPit
  refine ⟨hrate, fun hall => ?_⟩
  have hlt := hiff.mp hall
  revert hlt
  decide

end TinyOs.Device
