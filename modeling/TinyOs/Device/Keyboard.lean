/-
  TinyOs.Device.Keyboard — the keyboard interrupt (device/keyboard.c).

  Every byte of the controller is one interrupt: `intrKeyboardHandler` reads it, changes
  the five status variables and prints at most one thing. A byte 0xe0 only says that the
  next one belongs to an extended key.

  The case of a letter is decided by three tests of shift and caps lock; the third,
  `!shift_down_last || caps_lock_last`, is true when neither is on, where its comment
  speaks of caps lock down and shift up. So only a letter with both on is a small one
  (`letter_printed`), and the case is right exactly when one of the two is on
  (`letter_case_iff`).
-/

import Mathlib.Data.List.Basic

namespace TinyOs.Device

/-- The static variables, all false at the start. -/
structure Keyboard where
  ctrlStatus : Bool := false
  shiftStatus : Bool := false
  altStatus : Bool := false
  capsLockStatus : Bool := false
  extScancode : Bool := false
  deriving DecidableEq, Repr

/-- A call of `put_char` or of `put_str`. -/
inductive Print where
  | putChar (c : Char)
  | putStr (s : String)
  deriving DecidableEq, Repr

def esc : Char := '\x1b'
def backspace : Char := '\x08'
def tab : Char := '\t'
def enter : Char := '\r'
def charInvisible : Char := '\x00'

def shiftLMake : BitVec 16 := 0x2a
def shiftRMake : BitVec 16 := 0x36
def altLMake : BitVec 16 := 0x38
def altRMake : BitVec 16 := 0xe038
def ctrlLMake : BitVec 16 := 0x1d
def ctrlRMake : BitVec 16 := 0xe01d
def capsLockMake : BitVec 16 := 0x3a

/-- By make code: without shift, with shift. -/
def keymap : List (Char × Char) :=
  [('\x00', '\x00'), (esc, esc), ('1', '!'), ('2', '@'), ('3', '#'), ('4', '$'), ('5', '%'), ('6', '^'),
   ('7', '&'), ('8', '*'), ('9', '('), ('0', ')'), ('-', '_'), ('=', '+'), (backspace, backspace), (tab, tab),
   ('q', 'Q'), ('w', 'W'), ('e', 'E'), ('r', 'R'), ('t', 'T'), ('y', 'Y'), ('u', 'U'), ('i', 'I'),
   ('o', 'O'), ('p', 'P'), ('[', '\x7b'), (']', '\x7d'), (enter, enter), (charInvisible, charInvisible), ('a', 'A'), ('s', 'S'),
   ('d', 'D'), ('f', 'F'), ('g', 'G'), ('h', 'H'), ('j', 'J'), ('k', 'K'), ('l', 'L'), (';', ':'),
   ('\x27', '\x22'), ('\x60', '~'), (charInvisible, charInvisible), ('\x5c', '|'), ('z', 'Z'), ('x', 'X'), ('c', 'C'), ('v', 'V'),
   ('b', 'B'), ('n', 'N'), ('m', 'M'), (',', '<'), ('.', '>'), ('/', '?'), (charInvisible, charInvisible), ('*', '*'),
   (charInvisible, charInvisible), (' ', ' '), (charInvisible, charInvisible)]

/-- The keys whose character does not depend on caps lock. -/
def notLetter (scancode : BitVec 16) : Bool :=
  scancode < 0x0e || scancode == 0x29 || scancode == 0x1a || scancode == 0x1b || scancode == 0x2b || scancode == 0x27 ||
    scancode == 0x28 || scancode == 0x33 || scancode == 0x34 || scancode == 0x35

/-- `shift`, the column of the keymap. -/
def shiftOf (scancode : BitVec 16) (shiftDownLast capsLockLast : Bool) : Bool :=
  if notLetter scancode then shiftDownLast
  else if shiftDownLast && !capsLockLast then true
  else if shiftDownLast && capsLockLast then false
  else if !shiftDownLast || capsLockLast then true
  else false

/-- A break code, its make code given. -/
def release (makeCode : BitVec 16) (k : Keyboard) : Keyboard :=
  if makeCode = ctrlLMake ∨ makeCode = ctrlRMake then { k with ctrlStatus := false }
  else if makeCode = shiftLMake ∨ makeCode = shiftRMake then { k with shiftStatus := false }
  else if makeCode = altLMake ∨ makeCode = altRMake then { k with altStatus := false }
  else k

/-- A make code without a character. The prefix is gone by then. -/
def press (scancode : BitVec 16) (k : Keyboard) : Keyboard :=
  if scancode = ctrlLMake ∨ scancode = ctrlRMake then { k with ctrlStatus := true }
  else if scancode = shiftLMake ∨ scancode = shiftRMake then { k with shiftStatus := true }
  else if scancode = altLMake ∨ scancode = altRMake then { k with altStatus := true }
  else if scancode = capsLockMake then { k with capsLockStatus := !k.capsLockStatus }
  else k

/-- A make code; `keymap` has a row for each index that gets there. -/
def make (scancode : BitVec 16) (k : Keyboard) : Keyboard × Option Print :=
  if 0 < scancode ∧ scancode < 0x3b ∨ scancode = altRMake ∨ scancode = ctrlRMake then
    let shift := shiftOf scancode k.shiftStatus k.capsLockStatus
    let scancode := scancode &&& 0x00ff
    let row := keymap.getD scancode.toNat (charInvisible, charInvisible)
    let curChar := if shift then row.2 else row.1
    if curChar ≠ charInvisible then (k, some (.putChar curChar)) else (press scancode k, none)
  else (k, some (.putStr "unknow key\n"))

def intrKeyboardHandler (inb : BitVec 8) (k : Keyboard) : Keyboard × Option Print :=
  let scancode : BitVec 16 := inb.setWidth 16
  if scancode = 0xe0 then ({ k with extScancode := true }, none)
  else
    let scancode := if k.extScancode then 0xe000 ||| scancode else scancode
    let k := { k with extScancode := false }
    if scancode &&& 0x0080 ≠ 0 then (release (scancode &&& 0xff7f) k, none)
    else make scancode k

/-- The variables after the interrupts of a stream of bytes. -/
def after (bytes : List (BitVec 8)) (k : Keyboard) : Keyboard :=
  bytes.foldl (fun k b => (intrKeyboardHandler b k).1) k

@[simp] theorem after_nil (k : Keyboard) : after [] k = k := rfl

@[simp] theorem after_cons (b : BitVec 8) (bytes : List (BitVec 8)) (k : Keyboard) :
    after (b :: bytes) k = after bytes (intrKeyboardHandler b k).1 := rfl

theorem after_append (bytes more : List (BitVec 8)) (k : Keyboard) : after (bytes ++ more) k = after more (after bytes k) :=
  List.foldl_append

/-! ## Make and break codes -/

/-- A byte with the prefix before it, if that came. -/
def merged (inb : BitVec 8) (k : Keyboard) : BitVec 16 := if k.extScancode then 0xe000 ||| inb.setWidth 16 else inb.setWidth 16

theorem handler_prefix (k : Keyboard) : intrKeyboardHandler 0xe0 k = ({ k with extScancode := true }, none) := rfl

theorem handler_make {inb : BitVec 8} {k : Keyboard} (hp : inb.setWidth 16 ≠ 0xe0#16) (h : merged inb k &&& 0x0080 = 0) :
    intrKeyboardHandler inb k = make (merged inb k) { k with extScancode := false } := by
  unfold intrKeyboardHandler
  exact (if_neg hp).trans (if_neg fun hn => hn h)

theorem handler_release {inb : BitVec 8} {k : Keyboard} (hp : inb.setWidth 16 ≠ 0xe0#16) (h : merged inb k &&& 0x0080 ≠ 0) :
    intrKeyboardHandler inb k = (release (merged inb k &&& 0xff7f) { k with extScancode := false }, none) := by
  unfold intrKeyboardHandler
  exact (if_neg hp).trans (if_pos h)

/-- The codes below the end of the keymap, right alt and right ctrl. -/
abbrev Known (scancode : BitVec 16) : Prop := 0 < scancode ∧ scancode < 0x3b ∨ scancode = altRMake ∨ scancode = ctrlRMake

/-- A key has a character in both columns or in none; one with a character is no modifier and not caps lock. -/
theorem keymap_row : ∀ i, i < 0x3b → ((keymap.getD i (charInvisible, charInvisible)).1 = charInvisible ↔
      (keymap.getD i (charInvisible, charInvisible)).2 = charInvisible) ∧
    ((keymap.getD i (charInvisible, charInvisible)).1 ≠ charInvisible → i ∉ [0x1d, 0x2a, 0x36, 0x38, 0x3a]) := by
  decide

theorem press_other {scancode : BitVec 16} (h : scancode.toNat ∉ [0x1d, 0x2a, 0x36, 0x38, 0x3a]) (hlt : scancode.toNat < 0x3b)
    (k : Keyboard) : press scancode k = k := by
  have hne : ∀ c : BitVec 16, c.toNat ∈ [0x1d, 0x2a, 0x36, 0x38, 0x3a] ∨ 0x3b ≤ c.toNat → scancode ≠ c := by
    rintro c hc rfl
    exact hc.elim h (by omega)
  unfold press
  rw [if_neg, if_neg, if_neg, if_neg]
  · exact hne capsLockMake (by decide)
  · exact not_or.mpr ⟨hne altLMake (by decide), hne altRMake (by decide)⟩
  · exact not_or.mpr ⟨hne shiftLMake (by decide), hne shiftRMake (by decide)⟩
  · exact not_or.mpr ⟨hne ctrlLMake (by decide), hne ctrlRMake (by decide)⟩

theorem known_index {scancode : BitVec 16} (h : Known scancode) : (scancode &&& 0x00ff).toNat < 0x3b := by
  rcases h with ⟨-, h⟩ | rfl | rfl
  · have hle : (scancode &&& 0x00ff).toNat ≤ scancode.toNat := by
      rw [BitVec.toNat_and]
      exact Nat.and_le_left
    exact Nat.lt_of_le_of_lt hle (BitVec.lt_def.mp h)
  · decide
  · decide

/-- The variables after a make code, whichever column the character is looked up in. -/
theorem make_state (scancode : BitVec 16) (k : Keyboard) :
    (Known scancode → (make scancode k).1 = press (scancode &&& 0x00ff) k) ∧ (¬ Known scancode → (make scancode k).1 = k) := by
  refine ⟨fun h => ?_, fun h => ?_⟩
  · have hrow := keymap_row _ (known_index h)
    have hpress : (keymap.getD (scancode &&& 0x00ff).toNat (charInvisible, charInvisible)).1 ≠ charInvisible →
        k = press (scancode &&& 0x00ff) k := fun hne => (press_other (hrow.2 hne) (known_index h) k).symm
    unfold make
    rw [if_pos h]
    simp only
    split
    · split
      · next hne => exact hpress fun h1 => hne (hrow.1.mp h1)
      · rfl
    · split
      · next hne => exact hpress hne
      · rfl
  · unfold make
    rw [if_neg h]

/-! ## Letters -/

/-- The keys of a row of letters, their codes from `first` on. -/
def letterRow (first : Nat) (letters : List Char) : List (BitVec 8 × Char) :=
  letters.zipIdx.map fun l => (BitVec.ofNat 8 (first + l.2), l.1)

/-- The letters of scan code set 1. -/
def letterKeys : List (BitVec 8 × Char) :=
  letterRow 0x10 ['q', 'w', 'e', 'r', 't', 'y', 'u', 'i', 'o', 'p'] ++
    letterRow 0x1e ['a', 's', 'd', 'f', 'g', 'h', 'j', 'k', 'l'] ++ letterRow 0x2c ['z', 'x', 'c', 'v', 'b', 'n', 'm']

variable {b : BitVec 8} {c : Char}

/-- What the handler finds out about a letter's code, and its row of the keymap. -/
structure LetterCode (scancode : BitVec 16) (c : Char) : Prop where
  plain : scancode ≠ 0xe0
  make : scancode &&& 0x0080 = 0
  known : 0 < scancode ∧ scancode < 0x3b
  letter : notLetter scancode = false
  row : keymap.getD (scancode &&& 0x00ff).toNat (charInvisible, charInvisible) = (c, c.toUpper)
  visible : c ≠ charInvisible ∧ c.toUpper ≠ charInvisible

theorem letterKeys_code (hl : (b, c) ∈ letterKeys) : LetterCode (b.setWidth 16) c := by
  have h : ∀ l ∈ letterKeys, l.1.setWidth 16 ≠ 0xe0 ∧ l.1.setWidth 16 &&& 0x0080#16 = 0 ∧
      (0 < l.1.setWidth 16 ∧ l.1.setWidth 16 < 0x3b) ∧ notLetter (l.1.setWidth 16) = false ∧
      keymap.getD (l.1.setWidth 16 &&& 0x00ff#16).toNat (charInvisible, charInvisible) = (l.2, l.2.toUpper) ∧
      l.2 ≠ charInvisible ∧ l.2.toUpper ≠ charInvisible := by decide
  obtain ⟨h1, h2, h3, h4, h5, h6⟩ := h (b, c) hl
  exact ⟨h1, h2, h3, h4, h5, h6⟩

/-- The three tests for a letter come to one. -/
theorem shiftOf_letter {scancode : BitVec 16} (h : notLetter scancode = false) (shift caps : Bool) :
    shiftOf scancode shift caps = !(shift && caps) := by
  unfold shiftOf
  rw [h]
  cases shift <;> cases caps <;> rfl

theorem letter_printed (k : Keyboard) (hl : (b, c) ∈ letterKeys) (he : k.extScancode = false) :
    (intrKeyboardHandler b k).2 = some (.putChar (if k.shiftStatus && k.capsLockStatus then c else c.toUpper)) := by
  have h := letterKeys_code hl
  have hmake : (make (b.setWidth 16) { k with extScancode := false }).2 =
      some (.putChar (if k.shiftStatus && k.capsLockStatus then c else c.toUpper)) := by
    unfold make
    rw [if_pos (Or.inl h.known)]
    simp only [shiftOf_letter h.letter, h.row]
    cases k.shiftStatus && k.capsLockStatus
    · exact congrArg Prod.snd (if_pos h.visible.2)
    · exact congrArg Prod.snd (if_pos h.visible.1)
  have hb : merged b k = b.setWidth 16 := by rw [merged, he]; rfl
  rw [handler_make h.plain (by rw [hb]; exact h.make), hb]
  exact hmake

/-- The letter in the case that shift and caps lock ask for: each undoes the other. -/
def rightCase (k : Keyboard) (c : Char) : Char := if k.shiftStatus != k.capsLockStatus then c.toUpper else c

theorem letter_upper_ne (hl : (b, c) ∈ letterKeys) : c.toUpper ≠ c := by
  have h : ∀ l ∈ letterKeys, l.2.toUpper ≠ l.2 := by decide
  exact h (b, c) hl

/-- After any history that does not end in a prefix. -/
theorem letter_case_iff (bytes : List (BitVec 8)) (b : BitVec 8) (c : Char) (hl : (b, c) ∈ letterKeys)
    (he : (after bytes {}).extScancode = false) :
    (intrKeyboardHandler b (after bytes {})).2 = some (.putChar (rightCase (after bytes {}) c)) ↔
      ((after bytes {}).shiftStatus = true ∨ (after bytes {}).capsLockStatus = true) := by
  have hu := letter_upper_ne hl
  rw [letter_printed _ hl he, Option.some_inj, Print.putChar.injEq]
  unfold rightCase
  cases (after bytes {}).shiftStatus <;> cases (after bytes {}).capsLockStatus <;> simp [hu]

/-- Shift down, then caps lock and `a`: the small letter. -/
theorem letter_case_both :
    ((intrKeyboardHandler 0x1e (after [0x2a, 0x3a] {})).2 = some (.putChar (rightCase (after [0x2a, 0x3a] {}) 'a')) ↔
      ((after [0x2a, 0x3a] {}).shiftStatus = true ∨ (after [0x2a, 0x3a] {}).capsLockStatus = true)) ∧
    (after [0x2a, 0x3a] {}).shiftStatus = true :=
  ⟨letter_case_iff [0x2a, 0x3a] 0x1e 'a' (by decide) (by decide), by decide⟩

/-- The first key ever pressed is `a`, and `A` is printed. -/
theorem first_a_is_capital :
    ∃ (bytes : List (BitVec 8)) (b : BitVec 8) (c : Char), (b, c) ∈ letterKeys ∧ (after bytes {}).extScancode = false ∧
      (intrKeyboardHandler b (after bytes {})).2 ≠ some (.putChar (rightCase (after bytes {}) c)) ∧
      (intrKeyboardHandler b (after bytes {})).2 = some (.putChar 'A') ∧ rightCase (after bytes {}) c = 'a' :=
  ⟨[], 0x1e, 'a', by decide, by decide, by decide, by decide, by decide⟩

end TinyOs.Device
