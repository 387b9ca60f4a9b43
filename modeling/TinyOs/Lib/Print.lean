/-
  TinyOs.Lib.Print — the console (lib/kernel/print.S).

  The cursor is in registers 0x0e and 0x0f of the CRT controller, behind its index port
  0x3d4 and its data port 0x3d5. The text buffer, 80x25 cells of two bytes, begins at
  0xb8000: `gs` has it at offset 0, `rep movsd` of the scroll by its address. `gs` is
  the loader's VIDEO_DESC: 32 KB, an access beyond faults.

  Arithmetic on the cursor is in the 16 bits of bx, its comparisons are signed. What
  `pushad` and `call` put on the stack is no write of interest.

  `keeps_screen_iff`: from a cursor on the screen every call stays on it, unless a
  backspace comes with the cursor at 0, which `dec bx` makes 0xffff.
-/

import TinyOs.Kernel.Debug
import TinyOs.Logic.Bytes
import TinyOs.Logic.Runs

namespace TinyOs.Lib

open TinyOs.Kernel TinyOs.Logic

structure Screen where
  /-- The CRT controller: the register selected, and the registers. -/
  index : BitVec 8
  crtc : BitVec 8 → BitVec 8
  mem : Bytes
  /-- The addresses written so far, the last one first. No code reads it. -/
  writes : List Nat

def textBase : Nat := 0xb8000

/-- Its limit: 7 pages behind the first. -/
def videoLimit : Nat := 0x7fff

namespace Screen

def outb (port : BitVec 16) (v : BitVec 8) (s : Screen) : Screen :=
  if port = 0x3d4 then { s with index := v }
  else if port = 0x3d5 then { s with crtc := Function.update s.crtc s.index v }
  else s

def inb (port : BitVec 16) (s : Screen) : BitVec 8 := if port = 0x3d5 then s.crtc s.index else s.index

def write8 (a : Nat) (v : BitVec 8) (s : Screen) : Screen := { s with mem := s.mem.write8 a v, writes := a :: s.writes }

def write32 (a v : Nat) (s : Screen) : Screen :=
  { s with mem := s.mem.write32 a v, writes := a :: (a + 1) :: (a + 2) :: (a + 3) :: s.writes }

/-- `mov byte [gs:off], v` -/
def gsStore8 (off : Nat) (v : BitVec 8) (s : Screen) : Except Stop Screen :=
  if off ≤ videoLimit then .ok (s.write8 (textBase + off) v) else .error .fault

/-- `mov word [gs:off], v` -/
def gsStore16 (off : Nat) (v : BitVec 16) (s : Screen) : Except Stop Screen :=
  if off + 1 ≤ videoLimit then .ok ((s.write8 (textBase + off) (v.setWidth 8)).write8 (textBase + off + 1) ((v >>> 8).setWidth 8))
  else .error .fault

/-- The hardware cursor. -/
def cursor (s : Screen) : BitVec 16 := s.crtc 0x0e ++ s.crtc 0x0f

end Screen

open Screen

/-- The cursor into bx. -/
def getCursor (s : Screen) : BitVec 16 × Screen :=
  let s := s.outb 0x3d4 0x0e
  let ah := s.inb 0x3d5
  let s := s.outb 0x3d4 0x0f
  let al := s.inb 0x3d5
  (ah ++ al, s)

/-- `.set_cursor` -/
def setCursor (bx : BitVec 16) (s : Screen) : Screen :=
  let s := s.outb 0x3d4 0x0e
  let s := s.outb 0x3d5 ((bx >>> 8).setWidth 8)
  let s := s.outb 0x3d4 0x0f
  s.outb 0x3d5 (bx.setWidth 8)

/-- `rep movsd` -/
def movsd : Nat → Nat → Nat → Screen → Screen
  | 0, _, _, s => s
  | ecx + 1, esi, edi, s => movsd ecx (esi + 4) (edi + 4) (s.write32 edi (s.mem.read32 esi))

/-- `.cls` -/
def cls : Nat → Nat → Screen → Except Stop Screen
  | 0, _, s => .ok s
  | ecx + 1, ebx, s => do
    let s ← s.gsStore16 ebx 0x0720
    cls ecx (ebx + 2) s

/-- `.roll_screen` up to `.cls` -/
def rollScreen (s : Screen) : Except Stop Screen := cls 80 3840 (movsd 960 0xb80a0 0xb8000 s)

/-- `.is_line_feed` and `.is_carriage_return`, which are one. -/
def lineFeed (bx : BitVec 16) (s : Screen) : Except Stop Screen :=
  let dx := bx % 80
  let bx := bx - dx
  let bx := bx + 80
  if bx.slt 2000 then .ok (setCursor bx s)
  else do
    let s ← rollScreen s
    .ok (setCursor 1920 s)

/-- `.is_backspace` -/
def backspace (bx : BitVec 16) (s : Screen) : Except Stop Screen := do
  let bx := bx - 1
  let bx := bx <<< 1
  let s ← s.gsStore8 bx.toNat 0x20
  let bx := bx + 1
  let s ← s.gsStore8 bx.toNat 0x07
  let bx := bx >>> 1
  .ok (setCursor bx s)

/-- `.put_other`, which falls through into the line feed behind the last cell. -/
def putOther (cl : BitVec 8) (bx : BitVec 16) (s : Screen) : Except Stop Screen := do
  let bx := bx <<< 1
  let s ← s.gsStore8 bx.toNat cl
  let bx := bx + 1
  let s ← s.gsStore8 bx.toNat 0x07
  let bx := bx >>> 1
  let bx := bx + 1
  if bx.slt 2000 then .ok (setCursor bx s) else lineFeed bx s

def putChar (cl : BitVec 8) (s : Screen) : Except Stop Screen :=
  let (bx, s) := getCursor s
  if cl = 0x0d then lineFeed bx s
  else if cl = 0x0a then lineFeed bx s
  else if cl = 0x08 then backspace bx s
  else putOther cl bx s

/-- `put_str` of the string at `ebx`; `fuel` bounds the rounds of its loop. -/
def putStr : Nat → Nat → Screen → Except Stop Screen
  | 0, _, _ => .error .diverge
  | fuel + 1, ebx, s =>
    if s.mem ebx = 0 then .ok s
    else do
      let s' ← putChar (s.mem ebx) s
      putStr fuel (ebx + 1) s'

/-! ## The cursor registers -/

variable {s s' s'' : Screen}

theorem setCursor_cursor (bx : BitVec 16) (s : Screen) : (setCursor bx s).cursor = bx := by
  have hhi : (setCursor bx s).crtc 0x0e = (bx >>> 8).setWidth 8 := rfl
  have hlo : (setCursor bx s).crtc 0x0f = bx.setWidth 8 := rfl
  unfold cursor
  rw [hhi, hlo]
  apply BitVec.eq_of_getLsbD_eq
  intro i hi
  simp only [BitVec.getLsbD_append, BitVec.getLsbD_setWidth, BitVec.getLsbD_ushiftRight]
  rcases Nat.lt_or_ge i 8 with h | h
  · simp [h]
  · simp [show ¬ i < 8 by omega, show i - 8 < 8 by omega, show 8 + (i - 8) = i by omega]

@[simp] theorem setCursor_mem (bx : BitVec 16) (s : Screen) : (setCursor bx s).mem = s.mem := rfl
@[simp] theorem setCursor_writes (bx : BitVec 16) (s : Screen) : (setCursor bx s).writes = s.writes := rfl

/-! ## What is written -/

/-- The 4000 bytes of the text buffer. -/
def textBuffer : Set Nat := Set.Ico textBase (textBase + 4000)

/-- Writes to the text buffer, and to nothing else. -/
structure Drew (s s' : Screen) : Prop where
  writes : ∃ ws, s'.writes = ws ++ s.writes ∧ ∀ a ∈ ws, a ∈ textBuffer
  mem : ∀ x, x ∉ textBuffer → s'.mem x = s.mem x

theorem Drew.refl (s : Screen) : Drew s s := ⟨⟨[], rfl, by simp⟩, fun _ _ => rfl⟩

theorem Drew.trans (h : Drew s s') (h' : Drew s' s'') : Drew s s'' := by
  obtain ⟨ws, he, hin⟩ := h.writes
  obtain ⟨ws', he', hin'⟩ := h'.writes
  refine ⟨⟨ws' ++ ws, ?_, ?_⟩, ?_⟩
  · rw [he', he, List.append_assoc]
  · intro a ha
    rcases List.mem_append.mp ha with ha | ha
    · exact hin' a ha
    · exact hin a ha
  · intro x hx
    rw [h'.mem x hx, h.mem x hx]

theorem drew_write8 (s : Screen) {a : Nat} (v : BitVec 8) (ha : a ∈ textBuffer) : Drew s (s.write8 a v) := by
  refine ⟨⟨[a], rfl, ?_⟩, ?_⟩
  · intro b hb
    rw [List.mem_singleton.mp hb]
    exact ha
  · intro x hx
    exact Bytes.write8_ne _ _ fun e => hx (e ▸ ha)

theorem drew_write32 (s : Screen) {a : Nat} (v : Nat) (h1 : textBase ≤ a) (h2 : a + 4 ≤ textBase + 4000) :
    Drew s (s.write32 a v) := by
  refine ⟨⟨[a, a + 1, a + 2, a + 3], rfl, ?_⟩, ?_⟩
  · intro b hb
    simp only [List.mem_cons, List.not_mem_nil, or_false] at hb
    exact Set.mem_Ico.mpr ⟨by omega, by omega⟩
  · intro x hx
    exact Bytes.write32_of_notMem fun hx' => hx (Set.Ico_subset_Ico h1 h2 hx')

theorem drew_setCursor (bx : BitVec 16) (s : Screen) : Drew s (setCursor bx s) := ⟨⟨[], rfl, by simp⟩, fun _ _ => rfl⟩

/-! ## The scroll -/

theorem movsd_spec (ecx esi edi : Nat) {s : Screen} (h1 : textBase ≤ edi) (h2 : edi + 4 * ecx ≤ textBase + 4000) (hle : edi ≤ esi) :
    Drew s (movsd ecx esi edi s) ∧ ∀ x, (movsd ecx esi edi s).mem x =
      if edi ≤ x ∧ x < edi + 4 * ecx then s.mem (x - edi + esi) else s.mem x := by
  induction ecx generalizing esi edi s with
  | zero =>
    refine ⟨Drew.refl s, ?_⟩
    intro x
    rw [if_neg (by omega)]
    rfl
  | succ ecx ih =>
    obtain ⟨hd, hm⟩ := ih (esi + 4) (edi + 4) (s := s.write32 edi (s.mem.read32 esi)) (by omega) (by omega) (by omega)
    have hw : ∀ x, (s.write32 edi (s.mem.read32 esi)).mem x =
        if edi ≤ x ∧ x < edi + 4 then s.mem (esi + (x - edi)) else s.mem x := Bytes.write32_read32 s.mem edi esi
    refine ⟨(drew_write32 s _ h1 (by omega)).trans hd, ?_⟩
    intro x
    rw [movsd, hm x]
    by_cases hx : edi + 4 ≤ x ∧ x < edi + 4 + 4 * ecx
    · -- the bytes still to be copied lie behind what is written
      rw [if_pos hx, if_pos (by omega), hw, if_neg (by omega)]
      congr 1
      omega
    · rw [if_neg hx, hw]
      by_cases hx' : edi ≤ x ∧ x < edi + 4
      · rw [if_pos hx', if_pos (by omega)]
        congr 1
        omega
      · rw [if_neg hx', if_neg (by omega)]

theorem cls_spec (ecx ebx : Nat) {s : Screen} (h : ebx + 2 * ecx ≤ 4000) :
    ∃ s', cls ecx ebx s = .ok s' ∧ Drew s s' ∧ ∀ x, s'.mem x =
      if textBase + ebx ≤ x ∧ x < textBase + ebx + 2 * ecx then (if (x - (textBase + ebx)) % 2 = 0 then 0x20 else 0x07)
      else s.mem x := by
  induction ecx generalizing ebx s with
  | zero =>
    refine ⟨s, rfl, Drew.refl s, ?_⟩
    intro x
    rw [if_neg (by omega)]
  | succ ecx ih =>
    have hstore : s.gsStore16 ebx 0x0720 = .ok ((s.write8 (textBase + ebx) 0x20).write8 (textBase + ebx + 1) 0x07) :=
      if_pos (by unfold videoLimit; omega)
    obtain ⟨s', he, hd, hm⟩ := ih (ebx + 2) (s := (s.write8 (textBase + ebx) 0x20).write8 (textBase + ebx + 1) 0x07)
      (by omega)
    have hlow : textBase + ebx ∈ textBuffer := Set.mem_Ico.mpr ⟨by omega, by omega⟩
    have hhigh : textBase + ebx + 1 ∈ textBuffer := Set.mem_Ico.mpr ⟨by omega, by omega⟩
    refine ⟨s', ?_, ((drew_write8 s _ hlow).trans (drew_write8 _ _ hhigh)).trans hd, ?_⟩
    · rw [cls, hstore]
      exact he
    · intro x
      have hw : ((s.write8 (textBase + ebx) 0x20).write8 (textBase + ebx + 1) 0x07).mem x =
          if x = textBase + ebx + 1 then 0x07 else if x = textBase + ebx then 0x20 else s.mem x := rfl
      rw [hm x]
      by_cases hx : textBase + (ebx + 2) ≤ x ∧ x < textBase + (ebx + 2) + 2 * ecx
      · have hpar : (x - (textBase + (ebx + 2))) % 2 = (x - (textBase + ebx)) % 2 := by omega
        rw [if_pos hx, hpar, if_pos (c := textBase + ebx ≤ x ∧ _) (by omega)]
      · rw [if_neg hx, hw]
        by_cases h1 : x = textBase + ebx + 1
        · rw [if_pos h1, if_pos (by omega), if_neg (by omega)]
        · rw [if_neg h1]
          by_cases h0 : x = textBase + ebx
          · rw [if_pos h0, if_pos (by omega), if_pos (by omega)]
          · rw [if_neg h0, if_neg (by omega)]

/-- Rows 1 to 24 go to rows 0 to 23, and row 24 is blank. -/
theorem rollScreen_spec (s : Screen) : ∃ s', rollScreen s = .ok s' ∧ Drew s s' ∧
    (∀ o, o < 3840 → s'.mem (textBase + o) = s.mem (textBase + 160 + o)) ∧
    ∀ o, 3840 ≤ o → o < 4000 → s'.mem (textBase + o) = if o % 2 = 0 then 0x20 else 0x07 := by
  have hroll : rollScreen s = cls 80 3840 (movsd 960 (textBase + 160) textBase s) := rfl
  obtain ⟨hd, hm⟩ := movsd_spec 960 (textBase + 160) textBase (s := s) (Nat.le_refl textBase) (by omega) (by omega)
  rw [hroll]
  generalize movsd 960 (textBase + 160) textBase s = s1 at hd hm
  obtain ⟨s', he, hd', hm'⟩ := cls_spec 80 3840 (s := s1) (by decide)
  refine ⟨s', he, hd.trans hd', ?_, ?_⟩
  · intro o ho
    have hfrom : textBase + o - textBase + (textBase + 160) = textBase + 160 + o := by omega
    rw [hm', if_neg (by omega), hm, if_pos (by omega), hfrom]
  · intro o h1 h2
    have hpar : (o - 3840) % 2 = o % 2 := by omega
    have hoff : textBase + o - (textBase + 3840) = o - 3840 := Nat.add_sub_add_left ..
    rw [hm', if_pos ⟨by omega, by omega⟩, hoff, hpar]

/-! ## One character -/

/-- Character `cl` with attribute 7 in cell `p`. -/
def drawn (p : Nat) (cl : BitVec 8) (s : Screen) : Screen := (s.write8 (textBase + 2 * p) cl).write8 (textBase + (2 * p + 1)) 0x07

theorem drew_drawn {p : Nat} (hp : p < 2000) (cl : BitVec 8) (s : Screen) : Drew s (drawn p cl s) :=
  (drew_write8 s cl (Set.mem_Ico.mpr ⟨by omega, by omega⟩)).trans (drew_write8 _ _ (Set.mem_Ico.mpr ⟨by omega, by omega⟩))

theorem slt_2000 {b : BitVec 16} (h : b.toNat < 2 ^ 15) : b.slt 2000 = decide (b.toNat < 2000) := by
  have hb : b.toInt = b.toNat := BitVec.toInt_eq_toNat_of_lt (by omega)
  have h2000 : (2000 : BitVec 16).toInt = 2000 := by decide
  rw [BitVec.slt_eq_decide, hb, h2000]
  congr 1
  exact propext (by omega)

/-- The cell a line feed at cell `p` goes to. -/
def newRow (p : Nat) : Nat := if p / 80 < 24 then (p / 80 + 1) * 80 else 1920

variable {bx : BitVec 16} {cl : BitVec 8}

theorem nextRow_toNat (h : bx.toNat ≤ 2000) : (bx - bx % 80 + 80).toNat = (bx.toNat / 80 + 1) * 80 := by
  have hmod : (bx % 80).toNat = bx.toNat % 80 := BitVec.toNat_umod
  have hle : bx % 80 ≤ bx := by
    rw [BitVec.le_def, hmod]
    exact Nat.mod_le ..
  rw [BitVec.toNat_add, BitVec.toNat_sub_of_le hle, hmod]
  show (bx.toNat - bx.toNat % 80 + 80) % 2 ^ 16 = _
  omega

/-- Above the last row the cursor goes to the next one. -/
theorem lineFeed_up (h : bx.toNat / 80 < 24) :
    ∃ b : BitVec 16, b.toNat = (bx.toNat / 80 + 1) * 80 ∧ lineFeed bx s = .ok (setCursor b s) := by
  have hb : (bx - bx % 80 + 80).toNat = (bx.toNat / 80 + 1) * 80 := nextRow_toNat (by omega)
  refine ⟨_, hb, ?_⟩
  unfold lineFeed
  simp only
  rw [if_pos]
  rw [slt_2000 (by omega), decide_eq_true_eq]
  omega

/-- On the last row, and behind it, the screen scrolls. -/
theorem lineFeed_last (h : 24 ≤ bx.toNat / 80) (hle : bx.toNat ≤ 2000) :
    lineFeed bx s = (do let s ← rollScreen s; .ok (setCursor 1920 s)) := by
  have hb := nextRow_toNat hle
  unfold lineFeed
  simp only
  rw [if_neg]
  rw [slt_2000 (by omega), decide_eq_true_eq]
  omega

theorem lineFeed_spec (bx : BitVec 16) (s : Screen) (h : bx.toNat ≤ 2000) : ∃ s', lineFeed bx s = .ok s' ∧ s'.cursor.toNat = newRow bx.toNat ∧ Drew s s' := by
  unfold newRow
  by_cases hrow : bx.toNat / 80 < 24
  · obtain ⟨b, hb, he⟩ := lineFeed_up (s := s) hrow
    refine ⟨_, he, ?_, drew_setCursor b s⟩
    rw [setCursor_cursor, hb, if_pos hrow]
  · obtain ⟨s1, he, hd, -⟩ := rollScreen_spec s
    refine ⟨setCursor 1920 s1, ?_, ?_, hd.trans (drew_setCursor _ _)⟩
    · rw [lineFeed_last (by omega) h, he]
      rfl
    · rw [setCursor_cursor, if_neg hrow]
      rfl

/-- The two offsets of cell `p`, in bx. -/
theorem cell_offsets {p : BitVec 16} (h : p.toNat < 2000) : (p <<< 1).toNat = 2 * p.toNat ∧ (p <<< 1 + 1).toNat = 2 * p.toNat + 1 ∧
    (p <<< 1 + 1) >>> 1 = p := by
  have h0 : (p <<< 1).toNat = 2 * p.toNat := by
    rw [BitVec.toNat_shiftLeft, Nat.shiftLeft_eq]
    omega
  have h1 : (p <<< 1 + 1).toNat = 2 * p.toNat + 1 := by
    rw [BitVec.toNat_add, h0]
    show (2 * p.toNat + 1) % 2 ^ 16 = _
    omega
  refine ⟨h0, h1, BitVec.eq_of_toNat_eq ?_⟩
  rw [BitVec.toNat_ushiftRight, h1, Nat.shiftRight_eq_div_pow]
  omega

/-- Both bytes of a cell on the screen can be written. -/
theorem gsStore_cell {p : Nat} (h : p < 2000) (cl : BitVec 8) (s : Screen) :
    (do let s ← s.gsStore8 (2 * p) cl; s.gsStore8 (2 * p + 1) 0x07) = .ok (drawn p cl s) := by
  have h0 : s.gsStore8 (2 * p) cl = .ok (s.write8 (textBase + 2 * p) cl) := if_pos (by unfold videoLimit; omega)
  rw [h0, ok_bind]
  exact if_pos (by unfold videoLimit; omega)

theorem putOther_eq (h : bx.toNat < 2000) : putOther cl bx s =
    if bx.toNat + 1 < 2000 then .ok (setCursor (bx + 1) (drawn bx.toNat cl s)) else lineFeed (bx + 1) (drawn bx.toNat cl s) := by
  obtain ⟨h0, h1, h2⟩ := cell_offsets h
  have hnext : (bx + 1).toNat = bx.toNat + 1 := by
    rw [BitVec.toNat_add]
    show (bx.toNat + 1) % 2 ^ 16 = _
    omega
  have hcell := gsStore_cell h cl s
  obtain ⟨s0, he0, he1⟩ := bind_ok_iff.mp hcell
  unfold putOther
  simp only [h0, h1, h2, he0, he1, ok_bind]
  rw [slt_2000 (by omega), hnext]
  simp only [decide_eq_true_eq]

theorem backspace_eq (h0 : 0 < bx.toNat) (h : bx.toNat < 2000) :
    backspace bx s = .ok (setCursor (bx - 1) (drawn (bx.toNat - 1) 0x20 s)) := by
  have hprev : (bx - 1).toNat = bx.toNat - 1 := BitVec.toNat_sub_of_le (by rw [BitVec.le_def]; exact h0)
  obtain ⟨ha, hb, hc⟩ := cell_offsets (p := bx - 1) (by omega)
  rw [hprev] at ha hb
  obtain ⟨s0, he0, he1⟩ := bind_ok_iff.mp (gsStore_cell (p := bx.toNat - 1) (by omega) 0x20 s)
  unfold backspace
  simp only [ha, hb, hc, he0, he1, ok_bind]

/-- 0 - 1 is 0xffff, and its cell lies behind the segment. -/
theorem backspace_zero (h : bx.toNat = 0) : backspace bx s = .error .fault := by
  have hbx : bx = 0 := BitVec.eq_of_toNat_eq h
  subst hbx
  rfl

/-- The cursor after a character. -/
def advance (p : Nat) (cl : BitVec 8) : Nat :=
  if cl = 0x0d ∨ cl = 0x0a then newRow p
  else if cl = 0x08 then p - 1
  else if p + 1 < 2000 then p + 1 else newRow (p + 1)

/-- The low half of the cursor read last. -/
def asked (s : Screen) : Screen := { s with index := 0x0f }

theorem drew_asked (s : Screen) : Drew s (asked s) := ⟨⟨[], rfl, by simp⟩, fun _ _ => rfl⟩

theorem putChar_newline (h : cl = 0x0d ∨ cl = 0x0a) : putChar cl s = lineFeed s.cursor (asked s) := by
  rcases h with rfl | rfl
  · rfl
  · rfl

theorem putChar_back : putChar 0x08 s = backspace s.cursor (asked s) := rfl

theorem putChar_other (h : ¬ (cl = 0x0d ∨ cl = 0x0a)) (hb : cl ≠ 0x08) : putChar cl s = putOther cl s.cursor (asked s) := by
  have hcr : cl ≠ 0x0d := fun e => h (.inl e)
  have hlf : cl ≠ 0x0a := fun e => h (.inr e)
  show (if cl = 0x0d then _ else if cl = 0x0a then _ else if cl = 0x08 then _ else _) = _
  rw [if_neg hcr, if_neg hlf, if_neg hb]
  rfl

theorem cursor_next {bx : BitVec 16} (h : bx.toNat < 2000) : (bx + 1).toNat = bx.toNat + 1 := by
  rw [BitVec.toNat_add]
  show (bx.toNat + 1) % 2 ^ 16 = _
  omega

theorem putChar_ok (h : s.cursor.toNat < 2000) (hb : cl = 0x08 → s.cursor.toNat ≠ 0) :
    ∃ s', putChar cl s = .ok s' ∧ s'.cursor.toNat = advance s.cursor.toNat cl ∧ Drew s s' := by
  unfold advance
  by_cases hnl : cl = 0x0d ∨ cl = 0x0a
  · obtain ⟨s', he, hc, hd⟩ := lineFeed_spec s.cursor (asked s) (by omega)
    refine ⟨s', ?_, ?_, (drew_asked s).trans hd⟩
    · rw [putChar_newline hnl, he]
    · rw [if_pos hnl, hc]
  · rw [if_neg hnl]
    by_cases hbs : cl = 0x08
    · have hpos := hb hbs
      subst hbs
      rw [if_pos rfl, putChar_back, backspace_eq (by omega) h]
      refine ⟨_, rfl, ?_, (drew_asked s).trans ((drew_drawn (by omega) _ _).trans (drew_setCursor _ _))⟩
      rw [setCursor_cursor]
      exact BitVec.toNat_sub_of_le (by rw [BitVec.le_def]; exact Nat.pos_of_ne_zero hpos)
    · have hnext := cursor_next h
      have hd := (drew_asked s).trans (drew_drawn h cl (asked s))
      rw [if_neg hbs, putChar_other hnl hbs, putOther_eq h]
      by_cases hlast : s.cursor.toNat + 1 < 2000
      · rw [if_pos hlast, if_pos hlast]
        refine ⟨_, rfl, ?_, hd.trans (drew_setCursor _ _)⟩
        rw [setCursor_cursor, hnext]
      · rw [if_neg hlast, if_neg hlast]
        obtain ⟨s', he, hc, hd'⟩ := lineFeed_spec (s.cursor + 1) (drawn s.cursor.toNat cl (asked s)) (by omega)
        refine ⟨s', he, ?_, hd.trans hd'⟩
        rw [hc, hnext]

theorem advance_lt {p : Nat} (h : p < 2000) (cl : BitVec 8) : advance p cl < 2000 := by
  unfold advance newRow
  split
  · split <;> omega
  · split
    · omega
    · split
      · omega
      · split <;> omega

/-! ## Every sequence of characters -/

/-- Every call returns with the cursor on the screen, and has written to the text buffer only. -/
def KeepsScreen : List (BitVec 8) → Screen → Prop
  | [], _ => True
  | cl :: cs, s => ∃ s' ws, putChar cl s = .ok s' ∧ s'.cursor.toNat < 2000 ∧ s'.writes = ws ++ s.writes ∧
      (∀ a ∈ ws, a ∈ textBuffer) ∧ KeepsScreen cs s'

/-- No backspace comes with the cursor at 0, from cursor `p` on. -/
def NoBackAtZero (p : Nat) (cs : List (BitVec 8)) : Prop := ∀ pre post, cs = pre ++ 0x08 :: post → pre.foldl advance p ≠ 0

theorem noBackAtZero_cons {p : Nat} {cs : List (BitVec 8)} :
    NoBackAtZero p (cl :: cs) ↔ (cl = 0x08 → p ≠ 0) ∧ NoBackAtZero (advance p cl) cs := by
  constructor
  · intro h
    refine ⟨?_, ?_⟩
    · intro e
      exact h [] cs (by rw [e]; rfl)
    · intro pre post e
      exact h (cl :: pre) post (by rw [e]; rfl)
  · intro h pre post e
    cases pre with
    | nil => exact h.1 (List.cons.inj e).1
    | cons c pre =>
      obtain ⟨rfl, hcs⟩ := List.cons.inj e
      exact h.2 pre post hcs

theorem keeps_screen_iff {cs : List (BitVec 8)} (h : s.cursor.toNat < 2000) :
    KeepsScreen cs s ↔ NoBackAtZero s.cursor.toNat cs := by
  induction cs generalizing s with
  | nil =>
    refine ⟨?_, fun _ => trivial⟩
    intro _ pre post e
    cases pre <;> cases e
  | cons cl cs ih =>
    rw [noBackAtZero_cons]
    constructor
    · intro hk
      obtain ⟨s', ws, he, hlt, -, -, hk⟩ := hk
      have hb : cl = 0x08 → s.cursor.toNat ≠ 0 := by
        intro e h0
        subst e
        rw [putChar_back, backspace_zero h0] at he
        cases he
      obtain ⟨s1, he1, hc, -⟩ := putChar_ok h hb
      rw [he1] at he
      cases he
      rw [← hc]
      exact ⟨hb, (ih hlt).mp hk⟩
    · intro hn
      obtain ⟨s', he, hc, hd⟩ := putChar_ok h hn.1
      obtain ⟨ws, hw, hin⟩ := hd.writes
      have hlt : s'.cursor.toNat < 2000 := by
        rw [hc]
        exact advance_lt h cl
      refine ⟨s', ws, he, hlt, hw, hin, (ih hlt).mpr ?_⟩
      rw [hc]
      exact hn.2

/-- A blank screen with the cursor at 0. -/
def blankScreen : Screen where
  index := 0
  crtc _ := 0
  mem a := if a % 2 = 0 then 0x20 else 0x07
  writes := []

/-- "A", backspace, CR, LF. -/
theorem keeps_screen_text : KeepsScreen [0x41, 0x08, 0x0d, 0x0a] blankScreen :=
  (keeps_screen_iff (by decide)).mpr
    (noBackAtZero_cons.mpr ⟨by decide, noBackAtZero_cons.mpr ⟨by decide, noBackAtZero_cons.mpr ⟨by decide,
      noBackAtZero_cons.mpr ⟨by decide, fun pre post e => by cases pre <;> cases e⟩⟩⟩⟩)

/-- Two backspaces after "A": the second one faults. -/
theorem backspace_leaves_screen : blankScreen.cursor.toNat < 2000 ∧ ¬ KeepsScreen [0x41, 0x08, 0x08] blankScreen := by
  refine ⟨by decide, ?_⟩
  intro h
  rw [keeps_screen_iff (by decide)] at h
  exact h [0x41, 0x08] [] rfl (by decide)

end TinyOs.Lib
