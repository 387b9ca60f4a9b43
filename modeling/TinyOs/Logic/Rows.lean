/-
  TinyOs.Logic.Rows — text in rows of a fixed width.

  `layout w brk text` lays out a whole text: a row ends after every break, and after
  every `w`-th character of a row; the last row is the one still open, and may be empty.
  `Page.type` does it one character at a time, on the rows finished and the open one:
  - `layout_eq`: typing a text is laying it out.
  - `glyph_type`, `glyph_newRow`: what one step changes, character by character.
-/

import Mathlib.Tactic.Common

namespace TinyOs.Logic

variable {α : Type _} {w : Nat} {brk : α → Bool}

/-! ## The whole text -/

/-- A line cut into rows of `w`. -/
def chunks (w : Nat) (l : List α) : List (List α) :=
  if 0 < w ∧ w ≤ l.length then l.take w :: chunks w (l.drop w) else [l]
termination_by l.length
decreasing_by
  rw [List.length_drop]
  omega

def layout (w : Nat) (brk : α → Bool) (text : List α) : List (List α) := (text.splitOnP brk).flatMap (chunks w)

theorem chunks_short {l : List α} (h : l.length < w) : chunks w l = [l] := by
  rw [chunks, if_neg (by omega)]

theorem chunks_append {row l : List α} (hw : 0 < w) (h : row.length = w) : chunks w (row ++ l) = row :: chunks w l := by
  rw [chunks, if_pos ⟨hw, by rw [List.length_append]; omega⟩, List.take_left' h, List.drop_left' h]

theorem splitOnP_append {row l : List α} (h : ∀ a ∈ row, brk a = false) :
    ∃ first rest, l.splitOnP brk = first :: rest ∧ (row ++ l).splitOnP brk = (row ++ first) :: rest := by
  induction row with
  | nil =>
    cases hl : l.splitOnP brk with
    | nil => exact absurd hl (List.splitOnP_ne_nil brk l)
    | cons first rest => exact ⟨first, rest, rfl, hl⟩
  | cons a row ih =>
    obtain ⟨first, rest, hl, hr⟩ := ih fun b hb => h b (List.mem_cons_of_mem a hb)
    refine ⟨first, rest, hl, ?_⟩
    rw [List.cons_append, List.splitOnP_cons_eq_if_modifyHead, if_neg (by rw [h a List.mem_cons_self]; exact Bool.false_ne_true), hr]
    rfl

theorem layout_break {row l : List α} (h : ∀ a ∈ row, brk a = false) (hlt : row.length < w) {a : α} (ha : brk a = true) :
    layout w brk (row ++ a :: l) = row :: layout w brk l := by
  unfold layout
  rw [List.splitOnP_append_cons_of_forall_mem h a ha, List.flatMap_cons, chunks_short hlt]
  rfl

theorem layout_open {row : List α} (h : ∀ a ∈ row, brk a = false) (hlt : row.length < w) : layout w brk row = [row] := by
  unfold layout
  rw [List.splitOnP_eq_singleton h, List.flatMap_singleton, chunks_short hlt]

theorem layout_full {row l : List α} (h : ∀ a ∈ row, brk a = false) (hw : 0 < w) (hl : row.length = w) :
    layout w brk (row ++ l) = row :: layout w brk l := by
  obtain ⟨first, rest, he, he'⟩ := splitOnP_append (l := l) h
  unfold layout
  rw [he, he', List.flatMap_cons, List.flatMap_cons, chunks_append hw hl]
  rfl

/-! ## One character at a time -/

/-- The rows finished, and the open one. -/
structure Page (α : Type _) where
  done : List (List α)
  cur : List α

namespace Page

def rows (p : Page α) : List (List α) := p.done ++ [p.cur]

def newRow (p : Page α) : Page α := ⟨p.done ++ [p.cur], []⟩

def put (p : Page α) (a : α) : Page α := ⟨p.done, p.cur ++ [a]⟩

def type (w : Nat) (brk : α → Bool) (p : Page α) (a : α) : Page α :=
  if brk a then p.newRow else if (p.put a).cur.length = w then (p.put a).newRow else p.put a

/-- Nothing typed yet. -/
def empty : Page α := ⟨[], []⟩

/-- Character `c` of row `i`. -/
def glyph (p : Page α) (i c : Nat) : Option α := p.rows[i]?.bind fun row => row[c]?

end Page

variable {p : Page α}

theorem foldl_type (hw : 0 < w) (hb : ∀ a ∈ p.cur, brk a = false) (hlt : p.cur.length < w) (text : List α) :
    (text.foldl (Page.type w brk) p).rows = p.done ++ layout w brk (p.cur ++ text) := by
  induction text generalizing p with
  | nil =>
    rw [List.append_nil, layout_open hb hlt]
    rfl
  | cons a text ih =>
    rw [List.foldl_cons]
    by_cases ha : brk a = true
    · have hstep : p.type w brk a = p.newRow := if_pos ha
      rw [hstep, ih (p := p.newRow) (by intro b hb'; cases hb') hw, layout_break hb hlt ha]
      show p.done ++ [p.cur] ++ layout w brk text = _
      rw [List.append_assoc]
      rfl
    · have hput : ∀ b ∈ (p.put a).cur, brk b = false := by
        intro b hb'
        rcases List.mem_append.mp hb' with hb' | hb'
        · exact hb b hb'
        · rw [List.mem_singleton.mp hb']
          exact Bool.eq_false_iff.mpr ha
      have hlen : (p.put a).cur.length = p.cur.length + 1 := List.length_append
      have happ : p.cur ++ a :: text = (p.put a).cur ++ text := by
        show _ = (p.cur ++ [a]) ++ text
        rw [List.append_assoc]
        rfl
      rw [happ]
      by_cases hfull : (p.put a).cur.length = w
      · have hstep : p.type w brk a = (p.put a).newRow := (if_neg ha).trans (if_pos hfull)
        rw [hstep, ih (p := (p.put a).newRow) (by intro b hb'; cases hb') hw, layout_full hput hw hfull]
        show p.done ++ [(p.put a).cur] ++ layout w brk text = _
        rw [List.append_assoc]
        rfl
      · have hstep : p.type w brk a = p.put a := (if_neg ha).trans (if_neg hfull)
        rw [hstep, ih (p := p.put a) hput (by omega)]
        rfl

/-- Typing a text lays it out. -/
theorem layout_eq (hw : 0 < w) (text : List α) : (text.foldl (Page.type w brk) .empty).rows = layout w brk text :=
  foldl_type (p := .empty) hw (by intro a ha; cases ha) hw text

theorem glyph_newRow (p : Page α) (i c : Nat) : p.newRow.glyph i c = p.glyph i c := by
  unfold Page.glyph
  show ((p.rows ++ [[]])[i]?.bind fun row => row[c]?) = _
  rcases Nat.lt_or_ge i p.rows.length with h | h
  · rw [List.getElem?_append_left h]
  · rw [List.getElem?_append_right h, List.getElem?_eq_none h]
    rcases Nat.eq_zero_or_pos (i - p.rows.length) with e | e
    · rw [e]
      rfl
    · rw [List.getElem?_eq_none (by rw [List.length_singleton]; exact e)]

theorem glyph_put (p : Page α) (a : α) (i c : Nat) :
    (p.put a).glyph i c = if i = p.done.length ∧ c = p.cur.length then some a else p.glyph i c := by
  unfold Page.glyph
  show ((p.done ++ [p.cur ++ [a]])[i]?.bind fun row => row[c]?) = if _ then _ else ((p.done ++ [p.cur])[i]?.bind fun row => row[c]?)
  rcases Nat.lt_trichotomy i p.done.length with h | rfl | h
  · rw [List.getElem?_append_left h, List.getElem?_append_left h, if_neg (by omega)]
  · rw [List.getElem?_append_right (Nat.le_refl _), List.getElem?_append_right (Nat.le_refl _), Nat.sub_self]
    show (p.cur ++ [a])[c]? = if _ then _ else p.cur[c]?
    rcases Nat.lt_trichotomy c p.cur.length with h | rfl | h
    · rw [List.getElem?_append_left h, if_neg (by omega)]
    · rw [List.getElem?_concat_length, if_pos ⟨rfl, rfl⟩]
    · rw [List.getElem?_eq_none (by rw [List.length_append, List.length_singleton]; omega), List.getElem?_eq_none (by omega),
        if_neg (by omega)]
  · rw [List.getElem?_eq_none (by rw [List.length_append, List.length_singleton]; omega),
      List.getElem?_eq_none (by rw [List.length_append, List.length_singleton]; omega), if_neg (by omega)]

end TinyOs.Logic
