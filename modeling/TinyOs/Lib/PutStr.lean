/-
  TinyOs.Lib.PutStr — put_str prints what a layout of the whole text shows.

  The rows of the text are `layout 80 isBreak`: CR, LF and every 80th character of a row
  end one. The screen shows the last 25 of them, all at the top while there are no
  more; the rows before these have been scrolled away (`scrolled`), and nothing is kept
  of them. The invariant `Shows` ties the screen to the page typed so far.
-/

import TinyOs.Lib.Print
import TinyOs.Logic.Rows

namespace TinyOs.Lib

open TinyOs.Kernel TinyOs.Logic

def isBreak (cl : BitVec 8) : Bool := cl = 0x0d || cl = 0x0a

/-- Character and attribute of cell `p`. -/
def Screen.cell (s : Screen) (p : Nat) : BitVec 16 := s.mem (textBase + (2 * p + 1)) ++ s.mem (textBase + 2 * p)

def blank : BitVec 16 := 0x0720

/-- A character with attribute 7. -/
def lit (cl : BitVec 8) : BitVec 16 := 0x07#8 ++ cl

/-- The last 25 rows. -/
def window (rows : List (List (BitVec 8))) : List (List (BitVec 8)) := rows.drop (rows.length - 25)

/-- The screen shows `rows` from the top, with the cursor behind the last one's last character. -/
structure ShowsRows (s : Screen) (rows : List (List (BitVec 8))) : Prop where
  cells : ∀ r c, r < 25 → c < 80 → s.cell (80 * r + c) = ((rows[r]?.bind fun row => row[c]?).map lit).getD blank
  cursor : s.cursor.toNat = 80 * (rows.length - 1) + (rows.getLast?.getD []).length

/-- The string at `a`, and the NUL behind it. -/
def StringAt (m : Bytes) : Nat → List (BitVec 8) → Prop
  | a, [] => m a = 0
  | a, cl :: text => m a = cl ∧ StringAt m (a + 1) text

/-! ## The invariant -/

/-- The rows that are no longer on the screen. -/
def scrolled (p : Page (BitVec 8)) : Nat := p.done.length - 24

structure Shows (s : Screen) (p : Page (BitVec 8)) : Prop where
  cells : ∀ r c, r < 25 → c < 80 → s.cell (80 * r + c) = ((p.glyph (r + scrolled p) c).map lit).getD blank
  cursor : s.cursor.toNat = 80 * (p.done.length - scrolled p) + p.cur.length
  cur : p.cur.length < 80

variable {s s' : Screen} {p : Page (BitVec 8)} {cl : BitVec 8}

theorem Shows.lt (h : Shows s p) : s.cursor.toNat < 2000 := by
  have hc := h.cursor
  have hlt := h.cur
  unfold scrolled at hc
  omega

theorem cell_drawn (s : Screen) (cl : BitVec 8) (q p : Nat) : (drawn q cl s).cell p = if p = q then lit cl else s.cell p := by
  unfold Screen.cell
  have hm : ∀ x, (drawn q cl s).mem x = if x = textBase + (2 * q + 1) then 0x07 else if x = textBase + 2 * q then cl else s.mem x :=
    fun _ => rfl
  rw [hm, hm]
  by_cases h : p = q
  · rw [if_pos h, h, if_pos rfl, if_neg (by omega), if_pos rfl]
    rfl
  · rw [if_neg h, if_neg (by omega), if_neg (by omega), if_neg (by omega), if_neg (by omega)]

/-- Cells are all that a screen with other registers shows. -/
theorem cell_congr (h : s'.mem = s.mem) (p : Nat) : s'.cell p = s.cell p := by
  unfold Screen.cell
  rw [h]

theorem cell_asked (s : Screen) (p : Nat) : (asked s).cell p = s.cell p := rfl

/-- A character written at the cursor: the cells show it in the open row. -/
theorem Shows.put (h : Shows s p) (cl : BitVec 8) {r c : Nat} (hr : r < 25) (hc : c < 80) :
    (drawn s.cursor.toNat cl (asked s)).cell (80 * r + c) = (((p.put cl).glyph (r + scrolled p) c).map lit).getD blank := by
  have hcur := h.cursor
  have hlen := h.cur
  rw [cell_drawn, glyph_put]
  unfold scrolled at hcur ⊢
  by_cases hat : r + (p.done.length - 24) = p.done.length ∧ c = p.cur.length
  · rw [if_pos hat, if_pos (by omega)]
    rfl
  · rw [if_neg hat, if_neg (by omega)]
    exact h.cells r c hr hc

/-- The open row closed above the last row of the screen. -/
theorem Shows.newRow_up {b : BitVec 16} (hup : p.done.length < 24) (hb : b.toNat = 80 * (p.done.length + 1))
    (hcells : ∀ r c, r < 25 → c < 80 → s.cell (80 * r + c) = ((p.glyph (r + scrolled p) c).map lit).getD blank) :
    Shows (setCursor b s) p.newRow := by
  have h0 : scrolled p = 0 := by unfold scrolled; omega
  have hlen : p.newRow.done.length = p.done.length + 1 := List.length_append
  have h1 : scrolled p.newRow = 0 := by unfold scrolled; omega
  refine ⟨?_, ?_, Nat.zero_lt_succ 79⟩
  · intro r c hr hc
    rw [cell_congr (setCursor_mem b s), hcells r c hr hc, h0, h1, glyph_newRow]
  · rw [setCursor_cursor, hb, h1, hlen]
    rfl

/-- And on the last one: the screen scrolls. -/
theorem Shows.newRow_last (hlast : 24 ≤ p.done.length)
    (hcells : ∀ r c, r < 25 → c < 80 → s.cell (80 * r + c) = ((p.glyph (r + scrolled p) c).map lit).getD blank) :
    ∃ s', rollScreen s = .ok s' ∧ Drew s s' ∧ Shows (setCursor 1920 s') p.newRow := by
  obtain ⟨s', he, hd, hup, hblank⟩ := rollScreen_spec s
  have hlen : p.newRow.done.length = p.done.length + 1 := List.length_append
  have hscr : scrolled p.newRow = scrolled p + 1 := by unfold scrolled; omega
  refine ⟨s', he, hd, ?_, ?_, Nat.zero_lt_succ 79⟩
  · intro r c hr hc
    rw [cell_congr (setCursor_mem 1920 s'), hscr, glyph_newRow]
    by_cases hrow : r < 24
    · have hcell : s'.cell (80 * r + c) = s.cell (80 * (r + 1) + c) := by
        have h0 := hup (2 * (80 * r + c)) (by omega)
        have h1 := hup (2 * (80 * r + c) + 1) (by omega)
        have e0 : textBase + 160 + 2 * (80 * r + c) = textBase + 2 * (80 * (r + 1) + c) := by omega
        have e1 : textBase + 160 + (2 * (80 * r + c) + 1) = textBase + (2 * (80 * (r + 1) + c) + 1) := by omega
        unfold Screen.cell
        rw [h0, h1, e0, e1]
      rw [hcell, hcells (r + 1) c (by omega) hc, show r + 1 + scrolled p = r + (scrolled p + 1) by omega]
    · have hcell : s'.cell (80 * r + c) = blank := by
        have h0 := hblank (2 * (80 * r + c)) (by omega) (by omega)
        have h1 := hblank (2 * (80 * r + c) + 1) (by omega) (by omega)
        rw [if_pos (by omega)] at h0
        rw [if_neg (by omega)] at h1
        unfold Screen.cell
        rw [h0, h1]
        rfl
      -- row 24 of the window is the new one
      have hnone : p.glyph (r + (scrolled p + 1)) c = none := by
        unfold Page.glyph Page.rows
        rw [List.getElem?_eq_none]
        · rfl
        · rw [List.length_append, List.length_singleton]
          unfold scrolled
          omega
      rw [hcell, hnone]
      rfl
  · rw [setCursor_cursor, hscr, hlen]
    show 1920 = 80 * (p.done.length + 1 - (scrolled p + 1)) + 0
    unfold scrolled
    omega

theorem Shows.newLine (bx : BitVec 16) (hbx : bx.toNat ≤ 2000) (hup : bx.toNat / 80 < 24 → p.done.length = bx.toNat / 80)
    (hlast : 24 ≤ bx.toNat / 80 → 24 ≤ p.done.length)
    (hcells : ∀ r c, r < 25 → c < 80 → s.cell (80 * r + c) = ((p.glyph (r + scrolled p) c).map lit).getD blank) :
    ∃ s', lineFeed bx s = .ok s' ∧ Drew s s' ∧ Shows s' p.newRow := by
  by_cases hrow : bx.toNat / 80 < 24
  · obtain ⟨b, hb, he⟩ := lineFeed_up (s := s) hrow
    have hlen := hup hrow
    exact ⟨_, he, drew_setCursor b s, Shows.newRow_up (by omega) (by omega) hcells⟩
  · obtain ⟨s', he, hd, hsh⟩ := Shows.newRow_last (hlast (by omega)) hcells
    refine ⟨setCursor 1920 s', ?_, hd.trans (drew_setCursor _ _), hsh⟩
    rw [lineFeed_last (by omega) hbx, he]
    rfl

/-! ## A character, a string -/

theorem Shows.putChar (h : Shows s p) (h8 : cl ≠ 0x08) :
    ∃ s', putChar cl s = .ok s' ∧ Drew s s' ∧ Shows s' (p.type 80 isBreak cl) := by
  have hlt := h.lt
  have hcur := h.cursor
  have hlen := h.cur
  have hscr : p.done.length - scrolled p ≤ 24 ∧ (p.done.length - scrolled p < 24 → scrolled p = 0) ∧
      (p.done.length - scrolled p = 24 → 24 ≤ p.done.length) := by
    unfold scrolled
    omega
  unfold Page.type
  by_cases hbrk : isBreak cl = true
  · have hnl : cl = 0x0d ∨ cl = 0x0a := by simpa [isBreak] using hbrk
    obtain ⟨s', he, hd, hsh⟩ := Shows.newLine (s := asked s) (p := p) s.cursor (by omega) (by omega) (by omega)
      fun r c hr hc => (cell_asked s _).trans (h.cells r c hr hc)
    rw [if_pos hbrk, putChar_newline hnl]
    exact ⟨s', he, (drew_asked s).trans hd, hsh⟩
  · have hnl : ¬ (cl = 0x0d ∨ cl = 0x0a) := fun e => hbrk (by simpa [isBreak] using e)
    have hput : (p.put cl).cur.length = p.cur.length + 1 := List.length_append
    have hnext := cursor_next hlt
    have hdrew := (drew_asked s).trans (drew_drawn hlt cl (asked s))
    have hdone : (p.put cl).done = p.done := rfl
    have hcells : ∀ r c, r < 25 → c < 80 → (drawn s.cursor.toNat cl (asked s)).cell (80 * r + c) =
        (((p.put cl).glyph (r + scrolled (p.put cl)) c).map lit).getD blank := fun r c hr hc => h.put cl hr hc
    rw [if_neg hbrk, putChar_other hnl h8, putOther_eq hlt]
    by_cases hend : s.cursor.toNat + 1 < 2000
    · rw [if_pos hend]
      refine ⟨_, rfl, hdrew.trans (drew_setCursor _ _), ?_⟩
      by_cases hfull : (p.put cl).cur.length = 80
      · rw [if_pos hfull]
        exact Shows.newRow_up (by rw [hdone]; omega) (by rw [hdone]; omega) hcells
      · rw [if_neg hfull]
        refine ⟨?_, ?_, by omega⟩
        · intro r c hr hc
          rw [cell_congr (setCursor_mem _ _)]
          exact hcells r c hr hc
        · rw [setCursor_cursor, hnext, hput, hcur]
          rfl
    · -- the last cell: the code falls through into the line feed
      have hfull : (p.put cl).cur.length = 80 := by omega
      rw [if_neg hend, if_pos hfull]
      obtain ⟨s', he, hd, hsh⟩ := Shows.newLine (p := p.put cl) (s.cursor + 1) (by omega) (by omega)
        (by rw [hdone]; omega) hcells
      exact ⟨s', he, hdrew.trans hd, hsh⟩

theorem StringAt.congr {m m' : Bytes} {a : Nat} {text : List (BitVec 8)} (h : StringAt m a text)
    (he : ∀ x, a ≤ x → x ≤ a + text.length → m' x = m x) : StringAt m' a text := by
  induction text generalizing a with
  | nil => exact (he a (Nat.le_refl a) (Nat.le_refl a)).trans h
  | cons cl text ih =>
    rw [List.length_cons] at he
    refine ⟨(he a (Nat.le_refl a) (by omega)).trans h.1, ih h.2 ?_⟩
    intro x h1 h2
    exact he x (by omega) (by omega)

theorem putStr_shows {text : List (BitVec 8)} {fuel ebx : Nat} (h : Shows s p) (hstr : StringAt s.mem ebx text)
    (hout : ebx + text.length < textBase ∨ textBase + 4000 ≤ ebx) (h0 : 0x00 ∉ text) (h8 : 0x08 ∉ text)
    (hf : text.length < fuel) : ∃ s', putStr fuel ebx s = .ok s' ∧ Shows s' (text.foldl (Page.type 80 isBreak) p) := by
  induction text generalizing s p ebx fuel with
  | nil =>
    obtain ⟨n, rfl⟩ : ∃ n, fuel = n + 1 := Nat.exists_eq_add_one.mpr hf
    exact ⟨s, if_pos hstr, h⟩
  | cons cl text ih =>
    rw [List.length_cons] at hf hout
    obtain ⟨n, rfl⟩ : ∃ n, fuel = n + 1 := ⟨fuel - 1, by omega⟩
    have hne : cl ≠ 0 := fun e => h0 (e ▸ List.mem_cons_self)
    have hne8 : cl ≠ 0x08 := fun e => h8 (e ▸ List.mem_cons_self)
    obtain ⟨s1, he, hd, hsh⟩ := h.putChar hne8
    have hrest : StringAt s1.mem (ebx + 1) text := by
      apply hstr.2.congr
      intro x h1 h2
      apply hd.mem x
      intro hx
      have hx := Set.mem_Ico.mp hx
      omega
    obtain ⟨s', he', hsh'⟩ := ih hsh hrest (by omega) (fun hm => h0 (List.mem_cons_of_mem _ hm))
      (fun hm => h8 (List.mem_cons_of_mem _ hm)) (by omega : text.length < n)
    refine ⟨s', ?_, hsh'⟩
    rw [putStr, hstr.1, if_neg hne, he]
    exact he'

/-! ## The whole text -/

theorem Shows.rows (h : Shows s p) : ShowsRows s (window p.rows) := by
  have hlen : p.rows.length = p.done.length + 1 := List.length_append
  have hw : window p.rows = p.done.drop (scrolled p) ++ [p.cur] := by
    unfold window
    rw [hlen]
    exact List.drop_append_of_le_length (by omega)
  refine ⟨?_, ?_⟩
  · intro r c hr hc
    rw [h.cells r c hr hc]
    unfold window Page.glyph
    rw [List.getElem?_drop, hlen, show p.done.length + 1 - 25 + r = r + scrolled p by unfold scrolled; omega]
  · rw [h.cursor, hw, List.getLast?_concat, List.length_append, List.length_drop]
    rfl

/-- Printing a text shows the last 25 rows of its layout. -/
theorem putStr_layout {text : List (BitVec 8)} {fuel ebx : Nat} (hblank : ∀ q, q < 2000 → s.cell q = blank)
    (hcur : s.cursor = 0) (hstr : StringAt s.mem ebx text) (hout : ebx + text.length < textBase ∨ textBase + 4000 ≤ ebx)
    (h0 : 0x00 ∉ text) (h8 : 0x08 ∉ text) (hf : text.length < fuel) :
    ∃ s', putStr fuel ebx s = .ok s' ∧ ShowsRows s' (window (layout 80 isBreak text)) := by
  have hstart : Shows s .empty := by
    refine ⟨?_, ?_, Nat.zero_lt_succ 79⟩
    · intro r c hr hc
      rw [hblank _ (by omega)]
      show blank = ((([([] : List (BitVec 8))] : List (List (BitVec 8)))[r]?.bind fun row => row[c]?).map lit).getD blank
      cases r <;> rfl
    · rw [hcur]
      rfl
  obtain ⟨s', he, hsh⟩ := putStr_shows hstart hstr hout h0 h8 hf
  have hrows := hsh.rows
  rw [layout_eq (by decide)] at hrows
  exact ⟨s', he, hrows⟩

/-- A blank screen, with `text` and a NUL at address 0. -/
def holding (text : List (BitVec 8)) : Screen :=
  { blankScreen with mem := fun a => if a ≤ text.length then text.getD a 0 else blankScreen.mem a }

variable {text : List (BitVec 8)}

theorem holding_blank {q : Nat} (h : text.length < textBase) : (holding text).cell q = blank := by
  have hmem : ∀ a, text.length < a → (holding text).mem a = if a % 2 = 0 then 0x20 else 0x07 := fun a ha => if_neg (by omega)
  have hbase : textBase = 2 * 0x5c000 := rfl
  unfold Screen.cell
  rw [hmem _ (by omega), hmem _ (by omega), if_neg (by omega), if_pos (by omega)]
  rfl

theorem stringAt_of_getD {m : Bytes} {a : Nat} (h : ∀ i, i ≤ text.length → m (a + i) = text.getD i 0) : StringAt m a text := by
  induction text generalizing a with
  | nil => exact h 0 (Nat.le_refl 0)
  | cons cl text ih =>
    refine ⟨h 0 (Nat.zero_le _), ih fun i hi => ?_⟩
    rw [Nat.add_assoc, Nat.add_comm 1]
    exact h (i + 1) (Nat.succ_le_succ hi)

theorem holding_string : StringAt (holding text).mem 0 text := by
  refine stringAt_of_getD fun i hi => ?_
  rw [Nat.zero_add]
  exact if_pos hi

/-- 100 times "A", 30 line feeds, and "B". -/
def longText : List (BitVec 8) := List.replicate 100 0x41 ++ List.replicate 30 0x0a ++ [0x42]

/-- The row wraps, and the screen scrolls. -/
theorem longText_printed : ∃ s', putStr 132 0 (holding longText) = .ok s' ∧
    ShowsRows s' (window (layout 80 isBreak longText)) := by
  have h0 : 0x00 ∉ longText := by decide +kernel
  have h8 : 0x08 ∉ longText := by decide +kernel
  have hlen : longText.length = 131 := by decide +kernel
  have htext : 0 + longText.length < textBase := by
    rw [hlen]
    decide
  exact putStr_layout (fun _ _ => holding_blank (by omega)) rfl holding_string (.inl htext) h0 h8 (by omega)

example : (layout 80 isBreak longText).length = 32 := by decide +kernel

end TinyOs.Lib
