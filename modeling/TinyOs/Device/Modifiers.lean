/-
  TinyOs.Device.Modifiers — ctrl, shift, alt and caps lock under presses and releases.

  A key sends its code when it goes down (again and again while it is held) and its code
  with bit 7 set when it goes up, an extended key with 0xe0 before it. Print Screen sends
  two extended codes each way. Pause sends six bytes on its press, among them ctrl's make
  and break codes, and nothing on its release.

  The left and the right key of a modifier share one variable, so it says what the last
  event of the two was (`flag_typed`). That is whether one of them is held unless one
  stays down when the other is released (or Pause is struck): `tracks_iff`. Caps lock and
  the prefix are always right (`caps_typed`, `typed_ext`).
-/

import TinyOs.Device.Keyboard
import Mathlib.Algebra.Ring.Parity
import Mathlib.Data.List.Induction

namespace TinyOs.Device

/-- A scan code below the break bit; 0x60 has none, its break code would be the prefix. -/
abbrev Code : Type := { b : BitVec 8 // b < 0x80 ∧ b ≠ 0x60 }

inductive Key where
  | plain (c : Code)
  | extended (c : Code)
  | printScreen
  | pause
  deriving DecidableEq

inductive Event where
  | press (k : Key)
  | release (k : Key)
  deriving DecidableEq

def Event.key : Event → Key
  | press k => k
  | release k => k

def Event.bytes : Event → List (BitVec 8)
  | press (.plain c) => [c.1]
  | press (.extended c) => [0xe0, c.1]
  | press .printScreen => [0xe0, 0x2a, 0xe0, 0x37]
  | press .pause => [0xe1, 0x1d, 0x45, 0xe1, 0x9d, 0xc5]
  | release (.plain c) => [c.1 ||| 0x80]
  | release (.extended c) => [0xe0, c.1 ||| 0x80]
  | release .printScreen => [0xe0, 0xb7, 0xe0, 0xaa]
  | release .pause => []

/-- The keyboard after a sequence of events, from the start. -/
def typed (es : List Event) : Keyboard := after (es.flatMap Event.bytes) {}

inductive Modifier where
  | ctrl
  | shift
  | alt
  deriving DecidableEq

def ctrlL : Key := .plain ⟨0x1d, by decide⟩
def ctrlR : Key := .extended ⟨0x1d, by decide⟩
def shiftL : Key := .plain ⟨0x2a, by decide⟩
def shiftR : Key := .plain ⟨0x36, by decide⟩
def altL : Key := .plain ⟨0x38, by decide⟩
def altR : Key := .extended ⟨0x38, by decide⟩
def capsLock : Key := .plain ⟨0x3a, by decide⟩

/-- The left and the right key. -/
def Modifier.keys : Modifier → List Key
  | ctrl => [ctrlL, ctrlR]
  | shift => [shiftL, shiftR]
  | alt => [altL, altR]

def Keyboard.flag (k : Keyboard) : Modifier → Bool
  | .ctrl => k.ctrlStatus
  | .shift => k.shiftStatus
  | .alt => k.altStatus

/-- A key is held if its last event was a press. -/
def Held (es : List Event) (k : Key) : Prop := (es.filter (·.key = k)).getLast? = some (.press k)

instance (es : List Event) (k : Key) : Decidable (Held es k) := inferInstanceAs (Decidable (_ = _))

/-- Keys go up only after they went down. -/
inductive WellFormed : List Event → Prop
  | nil : WellFormed []
  | press {es : List Event} (k : Key) : WellFormed es → WellFormed (es ++ [.press k])
  | release {es : List Event} (k : Key) : WellFormed es → Held es k → WellFormed (es ++ [.release k])

/-- The events whose bytes reach the variable. -/
def touches (m : Modifier) (e : Event) : Bool := e.key ∈ m.keys || (m = .ctrl && e = .press .pause)

/-- What such an event leaves in it. -/
def leaves (m : Modifier) : Event → Bool
  | .press k => k ∈ m.keys
  | .release _ => false

/-! ## One event -/

theorem typed_snoc (es : List Event) (e : Event) : typed (es ++ [e]) = after e.bytes (typed es) := by
  unfold typed
  rw [List.flatMap_append, after_append, List.flatMap_singleton]

/-- What one event may do to the variables, no prefix pending before it or behind it. -/
structure Handled (e : Event) (k k' : Keyboard) : Prop where
  flag : ∀ m, k'.flag m = if touches m e then leaves m e else k.flag m
  caps : k'.capsLockStatus = (k.capsLockStatus ^^ decide (e = .press capsLock))
  ext : k'.extScancode = false

/-- The make codes of the two keys, as the handler compares them. -/
def Modifier.codes : Modifier → List (BitVec 16)
  | ctrl => [ctrlLMake, ctrlRMake]
  | shift => [shiftLMake, shiftRMake]
  | alt => [altLMake, altRMake]

/-- The variable of one modifier is assigned. -/
def Keyboard.setFlag (k : Keyboard) (b : Bool) : Modifier → Keyboard
  | .ctrl => { k with ctrlStatus := b }
  | .shift => { k with shiftStatus := b }
  | .alt => { k with altStatus := b }

variable (scancode : BitVec 16) (k : Keyboard) (m : Modifier)

@[simp] theorem setFlag_flag (b : Bool) (m' : Modifier) : (k.setFlag b m).flag m' = if m' = m then b else k.flag m' := by
  cases m <;> cases m' <;> rfl

@[simp] theorem setFlag_caps (b : Bool) : (k.setFlag b m).capsLockStatus = k.capsLockStatus := by
  cases m <;> rfl

@[simp] theorem setFlag_ext (b : Bool) : (k.setFlag b m).extScancode = k.extScancode := by
  cases m <;> rfl

/-- No code belongs to two modifiers. -/
theorem mem_codes_iff {c : BitVec 16} {m m' : Modifier} (h : c ∈ m.codes) : c ∈ m'.codes ↔ m' = m := by
  constructor
  · intro h'
    cases m <;> cases m' <;> rcases List.mem_pair.mp h with rfl | rfl <;> first | rfl | exact absurd h' (by decide)
  · rintro rfl
    exact h

theorem codes_not_caps {c : BitVec 16} (h : c ∈ m.codes) : c ≠ capsLockMake := by
  cases m <;> rcases List.mem_pair.mp h with rfl | rfl <;> decide

/-- The chain of tests that both kinds of code go through: a modifier's variable gets `b`, or none is assigned. -/
theorem tests_cases (b : Bool) (rest : Keyboard) {k' : Keyboard}
    (h : k' = if scancode = ctrlLMake ∨ scancode = ctrlRMake then { k with ctrlStatus := b }
      else if scancode = shiftLMake ∨ scancode = shiftRMake then { k with shiftStatus := b }
      else if scancode = altLMake ∨ scancode = altRMake then { k with altStatus := b }
      else rest) :
    (∃ m : Modifier, scancode ∈ m.codes ∧ k' = k.setFlag b m) ∨ (∀ m : Modifier, scancode ∉ m.codes) ∧ k' = rest := by
  split at h
  · next hc => exact .inl ⟨.ctrl, List.mem_pair.mpr hc, h⟩
  · next hc =>
    split at h
    · next hs => exact .inl ⟨.shift, List.mem_pair.mpr hs, h⟩
    · next hs =>
      split at h
      · next ha => exact .inl ⟨.alt, List.mem_pair.mpr ha, h⟩
      · next ha =>
        refine .inr ⟨fun m hm => ?_, h⟩
        cases m with
        | ctrl => exact hc (List.mem_pair.mp hm)
        | shift => exact hs (List.mem_pair.mp hm)
        | alt => exact ha (List.mem_pair.mp hm)

theorem release_cases : (∃ m : Modifier, scancode ∈ m.codes ∧ release scancode k = k.setFlag false m) ∨
    (∀ m : Modifier, scancode ∉ m.codes) ∧ release scancode k = k :=
  tests_cases scancode k false k rfl

theorem press_cases : (∃ m : Modifier, scancode ∈ m.codes ∧ press scancode k = k.setFlag true m) ∨
    (∀ m : Modifier, scancode ∉ m.codes) ∧
      press scancode k = if scancode = capsLockMake then { k with capsLockStatus := !k.capsLockStatus } else k :=
  tests_cases scancode k true _ rfl

theorem release_flag : (release scancode k).flag m = if scancode ∈ m.codes then false else k.flag m := by
  rcases release_cases scancode k with ⟨m', hm, e⟩ | ⟨hno, e⟩
  · simp [e, mem_codes_iff hm]
  · rw [e, if_neg (hno m)]

theorem release_rest : (release scancode k).capsLockStatus = k.capsLockStatus ∧ (release scancode k).extScancode = k.extScancode := by
  rcases release_cases scancode k with ⟨m, -, e⟩ | ⟨-, e⟩
  · simp [e]
  · simp [e]

theorem press_flag : (press scancode k).flag m = if scancode ∈ m.codes then true else k.flag m := by
  rcases press_cases scancode k with ⟨m', hm, e⟩ | ⟨hno, e⟩
  · simp [e, mem_codes_iff hm]
  · rw [e, if_neg (hno m)]
    split
    · cases m <;> rfl
    · rfl

theorem press_rest : (press scancode k).capsLockStatus = (k.capsLockStatus ^^ decide (scancode = capsLockMake)) ∧
    (press scancode k).extScancode = k.extScancode := by
  rcases press_cases scancode k with ⟨m, hm, e⟩ | ⟨-, e⟩
  · simp [e, codes_not_caps m hm]
  · rw [e]
    split
    · next h => simp [h]
    · next h => simp [h]

theorem low_byte (h : scancode < 0x3b) : scancode &&& 0x00ff = scancode := by
  refine BitVec.eq_of_toNat_eq ?_
  rw [BitVec.toNat_and]
  have hlt : scancode.toNat < 59 := BitVec.lt_def.mp h
  exact (Nat.and_two_pow_sub_one_eq_mod _ 8).trans (Nat.mod_eq_of_lt (by omega))

theorem codes_known {c : BitVec 16} (h : c ∈ m.codes) : Known c := by
  cases m
  all_goals
    unfold Modifier.codes at h
    rcases List.mem_pair.mp h with rfl | rfl
    · decide
    · decide

theorem make_flag : (make scancode k).1.flag m = if scancode ∈ m.codes then true else k.flag m := by
  by_cases h : Known scancode
  · rw [(make_state scancode k).1 h, press_flag]
    rcases h with ⟨-, hlt⟩ | rfl | rfl
    · rw [low_byte scancode hlt]
    · cases m <;> rfl
    · cases m <;> rfl
  · rw [(make_state scancode k).2 h, if_neg fun hm => h (codes_known m hm)]

theorem make_rest : (make scancode k).1.capsLockStatus = (k.capsLockStatus ^^ decide (scancode = capsLockMake)) ∧
    (make scancode k).1.extScancode = k.extScancode := by
  by_cases h : Known scancode
  · have hp := press_rest (scancode &&& 0x00ff) k
    rw [(make_state scancode k).1 h]
    rcases h with ⟨-, hlt⟩ | rfl | rfl
    · rw [low_byte scancode hlt] at hp ⊢
      exact hp
    · exact hp
    · exact hp
  · have hne : scancode ≠ capsLockMake := by
      rintro rfl
      exact h (Or.inl (by decide))
    rw [(make_state scancode k).2 h]
    simp [hne]

/-- The code of a key, the prefix in its high byte. -/
def Key.code : Key → BitVec 16
  | plain c => c.1.setWidth 16
  | extended c => 0xe000 ||| c.1.setWidth 16
  | _ => 0

/-- A key is known by its code. -/
structure Key.Coded (key : Key) : Prop where
  pause : key ≠ pause
  caps : key.code = capsLockMake ↔ key = capsLock
  keys : ∀ m : Modifier, key.code ∈ m.codes ↔ key ∈ m.keys

theorem coded (c : Code) : (Key.plain c).Coded ∧ (Key.extended c).Coded := by
  have hdec : ∀ (b : BitVec 8) (h : b < 0x80 ∧ b ≠ 0x60), ∀ key ∈ [Key.plain ⟨b, h⟩, .extended ⟨b, h⟩],
      (key.code = capsLockMake ↔ key = capsLock) ∧
        ∀ m ∈ [Modifier.ctrl, .shift, .alt], (key.code ∈ m.codes ↔ key ∈ m.keys) := by decide +kernel
  have hall : ∀ m : Modifier, m ∈ [Modifier.ctrl, .shift, .alt] := by
    intro m
    cases m <;> decide
  obtain ⟨h1, h2⟩ := hdec c.1 c.2 (.plain c) List.mem_cons_self
  obtain ⟨h3, h4⟩ := hdec c.1 c.2 (.extended c) (List.mem_cons_of_mem _ List.mem_cons_self)
  exact ⟨⟨by simp, h1, fun m => h2 m (hall m)⟩, ⟨by simp, h3, fun m => h4 m (hall m)⟩⟩

variable {key : Key}

theorem flag_ext (ext : Bool) : ({ k with extScancode := ext } : Keyboard).flag m = k.flag m := by
  cases m <;> rfl

theorem Key.Coded.make (hc : key.Coded) : Handled (.press key) k (make key.code { k with extScancode := false }).1 := by
  refine ⟨fun m => ?_, ?_, (make_rest _ _).2⟩
  · rw [make_flag, flag_ext]
    by_cases h : key ∈ m.keys
    · simp [hc.keys m, touches, Event.key, leaves, h]
    · simp [hc.keys m, touches, Event.key, h, hc.pause]
  · rw [(make_rest _ _).1]
    simp only [hc.caps, Event.press.injEq]

theorem Key.Coded.release (hc : key.Coded) : Handled (.release key) k (release key.code { k with extScancode := false }) := by
  refine ⟨fun m => ?_, ?_, (release_rest _ _).2⟩
  · rw [release_flag, flag_ext]
    by_cases h : key ∈ m.keys
    · simp [hc.keys m, touches, Event.key, leaves, h]
    · simp [hc.keys m, touches, Event.key, h]
  · rw [(release_rest _ _).1]
    simp

/-- The bytes of a key make its code, or its break code, again. -/
theorem code_bytes : ∀ (b : BitVec 8), b < 0x80 ∧ b ≠ 0x60 →
    b.setWidth 16 ≠ 0xe0#16 ∧ b.setWidth 16 &&& 0x0080#16 = 0 ∧ (0xe000 ||| b.setWidth 16) &&& 0x0080#16 = 0 ∧
    (b ||| 0x80).setWidth 16 ≠ 0xe0#16 ∧ (b ||| 0x80).setWidth 16 &&& 0x0080#16 ≠ 0 ∧
    (0xe000 ||| (b ||| 0x80).setWidth 16) &&& 0x0080#16 ≠ 0 ∧ (b ||| 0x80).setWidth 16 &&& 0xff7f#16 = b.setWidth 16 ∧
    (0xe000 ||| (b ||| 0x80).setWidth 16) &&& 0xff7f#16 = 0xe000 ||| b.setWidth 16 := by
  decide +kernel

theorem press_bytes (c : Code) (h : k.extScancode = false) :
    after (Event.press (.plain c)).bytes k = (make (Key.plain c).code { k with extScancode := false }).1 ∧
    after (Event.press (.extended c)).bytes k = (make (Key.extended c).code { k with extScancode := false }).1 := by
  obtain ⟨hne, hp, he, -⟩ := code_bytes c.1 c.2
  have hm : merged c.1 k = (Key.plain c).code := by rw [merged, h]; rfl
  have hx : merged c.1 { k with extScancode := true } = (Key.extended c).code := rfl
  unfold Event.bytes
  rw [after_cons, after_cons, after_cons, after_nil, after_nil, handler_prefix]
  rw [handler_make hne (by rw [hm]; exact hp), handler_make hne (by rw [hx]; exact he), hm, hx]
  exact ⟨rfl, rfl⟩

theorem release_bytes (c : Code) (h : k.extScancode = false) :
    after (Event.release (.plain c)).bytes k = release (Key.plain c).code { k with extScancode := false } ∧
    after (Event.release (.extended c)).bytes k = release (Key.extended c).code { k with extScancode := false } := by
  obtain ⟨-, -, -, hne, hp, he, hlow, hlow'⟩ := code_bytes c.1 c.2
  have hm : merged (c.1 ||| 0x80) k = (c.1 ||| 0x80).setWidth 16 := by rw [merged, h]; rfl
  have hx : merged (c.1 ||| 0x80) { k with extScancode := true } = 0xe000 ||| (c.1 ||| 0x80).setWidth 16 := rfl
  unfold Event.bytes
  rw [after_cons, after_cons, after_cons, after_nil, after_nil, handler_prefix]
  rw [handler_release hne (by rw [hm]; exact hp), handler_release hne (by rw [hx]; exact he), hm, hx]
  exact ⟨congrArg (release · { k with extScancode := false }) hlow, congrArg (release · { k with extScancode := false }) hlow'⟩

/-- The codes of Print Screen are none of the handler's; Pause leaves ctrl up. -/
theorem special_bytes (h : k.extScancode = false) :
    after (Event.press .printScreen).bytes k = k ∧ after (Event.release .printScreen).bytes k = k ∧
      after (Event.press .pause).bytes k = { k with ctrlStatus := false } := by
  have hall : ∀ ctrl shift alt caps : Bool,
      after (Event.press .printScreen).bytes ⟨ctrl, shift, alt, caps, false⟩ = ⟨ctrl, shift, alt, caps, false⟩ ∧
      after (Event.release .printScreen).bytes ⟨ctrl, shift, alt, caps, false⟩ = ⟨ctrl, shift, alt, caps, false⟩ ∧
      after (Event.press .pause).bytes ⟨ctrl, shift, alt, caps, false⟩ = ⟨false, shift, alt, caps, false⟩ := by decide
  obtain ⟨ctrl, shift, alt, caps, ext⟩ := k
  subst h
  exact hall ctrl shift alt caps

theorem untouched {e : Event} (ht : ∀ m, touches m e = false) (hc : e ≠ .press capsLock) (h : k.extScancode = false) :
    Handled e k k := by
  refine ⟨fun m => ?_, ?_, h⟩
  · rw [ht m]
    rfl
  · rw [decide_eq_false hc, Bool.xor_false]

theorem pause_handled (h : k.extScancode = false) : Handled (.press .pause) k { k with ctrlStatus := false } := by
  refine ⟨fun m => ?_, (Bool.xor_false _).symm, h⟩
  cases m <;> rfl

theorem event_handled (e : Event) (h : k.extScancode = false) : Handled e k (after e.bytes k) := by
  cases e with
  | press key =>
    cases key with
    | plain c =>
      rw [(press_bytes k c h).1]
      exact (coded c).1.make k
    | extended c =>
      rw [(press_bytes k c h).2]
      exact (coded c).2.make k
    | printScreen =>
      rw [(special_bytes k h).1]
      exact untouched k (fun m => by cases m <;> decide) (by decide) h
    | pause =>
      rw [(special_bytes k h).2.2]
      exact pause_handled k h
  | release key =>
    cases key with
    | plain c =>
      rw [(release_bytes k c h).1]
      exact (coded c).1.release k
    | extended c =>
      rw [(release_bytes k c h).2]
      exact (coded c).2.release k
    | printScreen =>
      rw [(special_bytes k h).2.1]
      exact untouched k (fun m => by cases m <;> decide) (by decide) h
    | pause => exact untouched k (fun m => by cases m <;> decide) (by decide) h

/-! ## All events -/

theorem typed_ext (es : List Event) : (typed es).extScancode = false := by
  induction es using List.reverseRecOn with
  | nil => rfl
  | append_singleton es e ih =>
    rw [typed_snoc]
    exact (event_handled _ e ih).ext

/-- Every make code of caps lock turns it round, also those of a key that is held. -/
theorem caps_typed (es : List Event) : (typed es).capsLockStatus = true ↔ Odd (es.count (.press capsLock)) := by
  induction es using List.reverseRecOn with
  | nil => simp [typed]
  | append_singleton es e ih =>
    rw [typed_snoc, (event_handled _ e (typed_ext es)).caps, List.count_append, List.count_singleton]
    by_cases he : e = .press capsLock
    · simpa [he, Nat.odd_add_one] using not_congr ih
    · simp [he, ih]

/-- A modifier's variable is what the last event that touches it left there. -/
theorem flag_typed (es : List Event) (m : Modifier) :
    (typed es).flag m = ((es.filter (touches m)).getLast?.map (leaves m)).getD false := by
  induction es using List.reverseRecOn with
  | nil => cases m <;> rfl
  | append_singleton es e ih =>
    rw [typed_snoc, (event_handled _ e (typed_ext es)).flag, List.filter_append, ih]
    by_cases he : touches m e = true
    · simp [he]
    · simp [he]

/-- The last event of the modifier's two keys (for ctrl, Pause is one as well) was a press. -/
def LastPressed (m : Modifier) (es : List Event) : Prop := ∃ k ∈ m.keys, (es.filter (touches m)).getLast? = some (.press k)

theorem flag_iff (es : List Event) (m : Modifier) : (typed es).flag m = true ↔ LastPressed m es := by
  rw [flag_typed]
  constructor
  · intro h
    cases hl : (es.filter (touches m)).getLast? with
    | none => simp [hl] at h
    | some e =>
      rw [hl] at h
      cases e with
      | press k => exact ⟨k, by simpa [leaves] using h, hl⟩
      | release k => simp [leaves] at h
  · rintro ⟨k, hk, hl⟩
    simpa [hl, leaves] using hk

theorem getLast?_filter {α : Type} {l : List α} {a : α} {p : α → Bool} (h : l.getLast? = some a) (ha : p a = true) :
    (l.filter p).getLast? = some a := by
  obtain ⟨l, rfl⟩ := List.getLast?_eq_some_iff.mp h
  rw [List.filter_append, List.filter_cons_of_pos ha]
  exact List.getLast?_concat ..

/-- A key that was pressed last of all that touch the variable is held. -/
theorem LastPressed.held {m : Modifier} {es : List Event} (h : LastPressed m es) : ∃ k ∈ m.keys, Held es k := by
  obtain ⟨k, hk, hl⟩ := h
  refine ⟨k, hk, ?_⟩
  have hsub : es.filter (·.key = k) = (es.filter (touches m)).filter (·.key = k) := by
    rw [List.filter_filter]
    refine List.filter_congr fun e _ => ?_
    by_cases he : e.key = k
    · simp [he, touches, hk]
    · simp [he]
  unfold Held
  rw [hsub]
  exact getLast?_filter hl (by simp [Event.key])

/-- The variables say what is held, how often caps lock was struck, and that no prefix is pending. -/
structure Tracks (es : List Event) : Prop where
  flag : ∀ m, (typed es).flag m = true ↔ ∃ k ∈ m.keys, Held es k
  caps : (typed es).capsLockStatus = true ↔ Odd (es.count (.press capsLock))
  ext : (typed es).extScancode = false

theorem tracks_iff (es : List Event) : Tracks es ↔ ∀ m, (∃ k ∈ m.keys, Held es k) → LastPressed m es := by
  constructor
  · intro h m hheld
    exact (flag_iff es m).mp ((h.flag m).mpr hheld)
  · intro h
    refine ⟨fun m => ?_, caps_typed es, typed_ext es⟩
    rw [flag_iff]
    exact ⟨LastPressed.held, h m⟩

/-- Both shifts down, the left one up again: the right one is held, and forgotten. -/
theorem shift_lost :
    ∃ es, WellFormed es ∧ ¬ Tracks es ∧ Held es shiftR ∧ (typed es).shiftStatus = false := by
  refine ⟨[.press shiftL, .press shiftR, .release shiftL], ?_, ?_, by decide, by decide⟩
  · exact .release shiftL (.press shiftR (.press shiftL .nil)) (by decide)
  · intro h
    have hflag := (h.flag .shift).mpr ⟨shiftR, by decide, by decide⟩
    exact absurd hflag (by decide)

end TinyOs.Device
