/-
  TinyOs.Lib.Messages — calls of put_str, put_char and put_int, one after the other.

  Each is the calls of put_char for its text (`Message.print_eq`), as long as the strings lie
  where nothing is printed to and hold no backspace (see `keeps_screen_iff`).
  - `Shows.printAll`: on a screen that shows a page, the texts go on with it.
  - `Types.print`: on any screen, a text within one row lies over what it shows.
-/

import TinyOs.Lib.PutInt
import TinyOs.Lib.PutStr

namespace TinyOs.Lib

open TinyOs.Kernel TinyOs.Logic

inductive Message where
  /-- The string at `str` is `text`. -/
  | putStr (str : Nat) (text : List (BitVec 8))
  | putChar (charAsci : BitVec 8)
  | putInt (num : BitVec 32)

namespace Message

/-- `buf` is where put_int_buffer is. -/
def print (buf : BitVec 32) : Message → Screen → Except Stop Screen
  | .putStr str text => Lib.putStr (text.length + 1) str
  | .putChar charAsci => Lib.putChar charAsci
  | .putInt num => Lib.putInt buf 9 num

def text : Message → List (BitVec 8)
  | .putStr _ text => text
  | .putChar charAsci => [charAsci]
  | .putInt num => hexText num.toNat

def Legal (buf : BitVec 32) (mem : Bytes) : Message → Prop
  | .putStr str text => StringAt mem str text ∧ 0x00 ∉ text ∧ 0x08 ∉ text ∧
      (str + text.length < textBase ∨ textBase + 4000 ≤ str) ∧
      ∀ i, i < 8 → (buf + BitVec.ofNat 32 i).toNat < str ∨ str + text.length < (buf + BitVec.ofNat 32 i).toNat
  | .putChar charAsci => charAsci ≠ 0x08
  | .putInt _ => True

end Message

def decStringAt (m : Bytes) : (a : Nat) → (text : List (BitVec 8)) → Decidable (StringAt m a text)
  | a, [] => inferInstanceAs (Decidable (m a = 0))
  | a, cl :: text =>
    have := decStringAt m (a + 1) text
    inferInstanceAs (Decidable (m a = cl ∧ StringAt m (a + 1) text))

instance (m : Bytes) (a : Nat) (text : List (BitVec 8)) : Decidable (StringAt m a text) := decStringAt m a text

instance (buf : BitVec 32) (mem : Bytes) : DecidablePred (Message.Legal buf mem)
  | .putStr str text => inferInstanceAs (Decidable (StringAt mem str text ∧ 0x00 ∉ text ∧ 0x08 ∉ text ∧
      (str + text.length < textBase ∨ textBase + 4000 ≤ str) ∧
      ∀ i, i < 8 → (buf + BitVec.ofNat 32 i).toNat < str ∨ str + text.length < (buf + BitVec.ofNat 32 i).toNat))
  | .putChar charAsci => inferInstanceAs (Decidable (charAsci ≠ 0x08))
  | .putInt _ => inferInstanceAs (Decidable True)

def printAll (buf : BitVec 32) (ms : List Message) (s : Screen) : Except Stop Screen := ms.foldlM (fun s m => m.print buf s) s

/-- Where put_int_buffer is not part of the screen. -/
def BufferApart (buf : BitVec 32) : Prop := ∀ a, InBuffer buf a → a ∉ video

/-! ## One call -/

variable {buf : BitVec 32} {s s' : Screen} {mem : Bytes} {m : Message} {ms : List Message}

/-- put_str is the calls of put_char, while what they write leaves the string alone. -/
theorem putStr_eq {text : List (BitVec 8)} {fuel str : Nat} (hc : s.cursor.toNat < 2000) (hstr : StringAt s.mem str text)
    (hout : str + text.length < textBase ∨ textBase + 4000 ≤ str) (h0 : 0x00 ∉ text) (h8 : 0x08 ∉ text)
    (hf : text.length < fuel) : putStr fuel str s = putChars text s := by
  induction text generalizing s str fuel with
  | nil =>
    obtain ⟨n, rfl⟩ : ∃ n, fuel = n + 1 := Nat.exists_eq_add_one.mpr hf
    exact if_pos hstr
  | cons cl text ih =>
    rw [List.length_cons] at hf hout
    obtain ⟨n, rfl⟩ : ∃ n, fuel = n + 1 := ⟨fuel - 1, by omega⟩
    have hne : cl ≠ 0 := fun e => h0 (e ▸ List.mem_cons_self)
    obtain ⟨s1, he, hcur, hd⟩ := putChar_ok hc fun e => absurd (e ▸ List.mem_cons_self) h8
    have hlt : s1.cursor.toNat < 2000 := by
      rw [hcur]
      exact advance_lt hc cl
    have hrest : StringAt s1.mem (str + 1) text := by
      apply hstr.2.congr
      intro x h1 h2
      apply hd.mem x
      intro hx
      have hx := Set.mem_Ico.mp hx
      omega
    have hnext := ih hlt hrest (by omega) (fun hm => h0 (List.mem_cons_of_mem _ hm)) (fun hm => h8 (List.mem_cons_of_mem _ hm))
      (by omega : text.length < n)
    rw [putStr, hstr.1, if_neg hne, putChars, List.foldlM_cons, he, ok_bind, ok_bind, hnext]
    rfl

/-- A screen that differs in put_int_buffer only. -/
structure SameScreen (buf : BitVec 32) (s s' : Screen) : Prop where
  crtc : s'.crtc = s.crtc
  mem : ∀ x, ¬ InBuffer buf x → s'.mem x = s.mem x

theorem SameScreen.refl (buf : BitVec 32) (s : Screen) : SameScreen buf s s := ⟨rfl, fun _ _ => rfl⟩

theorem SameScreen.cursor (h : SameScreen buf s s') : s'.cursor = s.cursor := by
  unfold Screen.cursor
  rw [h.crtc]

theorem SameScreen.cell (h : SameScreen buf s s') (hbuf : BufferApart buf) {q : Nat} (hq : q < 2000) :
    s'.cell q = s.cell q := by
  have hmem : ∀ x, x ∈ textBuffer → s'.mem x = s.mem x := fun x hx => h.mem x fun hin => hbuf x hin (textBuffer_video hx)
  unfold Screen.cell
  rw [hmem _ (Set.mem_Ico.mpr ⟨by omega, by omega⟩), hmem _ (Set.mem_Ico.mpr ⟨by omega, by omega⟩)]

theorem hexText_plain (n : BitVec 32) : ∀ c ∈ hexText n.toNat, isBreak c = false ∧ c ≠ 0x08 := by
  have hdigits : ∀ c ∈ hexDigits, isBreak c = false ∧ c ≠ 0x08 := by decide
  intro c hc
  exact hdigits c ((hexText_ok n.isLt).digits c hc)

/-- A call is the calls of put_char for its text, none of them a backspace. -/
theorem Message.print_eq (hbuf : BufferApart buf) (hc : s.cursor.toNat < 2000) (hm : m.Legal buf s.mem) :
    0x08 ∉ m.text ∧ ∃ s1, SameScreen buf s s1 ∧ m.print buf s = putChars m.text s1 := by
  cases m with
  | putStr str text =>
    obtain ⟨hstr, h0, h8, hout, -⟩ := hm
    exact ⟨h8, s, .refl buf s, putStr_eq hc hstr hout h0 h8 (Nat.lt_succ_self _)⟩
  | putChar charAsci =>
    refine ⟨fun h8 => hm (List.mem_singleton.mp h8).symm, s, .refl buf s, ?_⟩
    exact (bind_pure (Lib.putChar charAsci s)).symm
  | putInt num =>
    obtain ⟨s1, hs, hput⟩ := putInt_eq hbuf num s (Nat.le_refl 9)
    refine ⟨fun h8 => (hexText_plain num _ h8).2 rfl, s1, ⟨hs.crtc.1, ?_⟩, hput⟩
    intro x hx
    exact hs.mem x fun i hi e => hx ⟨i, hi, e⟩

/-- Memory apart from the screen and put_int_buffer. -/
def Kept (buf : BitVec 32) (mem mem' : Bytes) : Prop := ∀ x, x ∉ textBuffer → ¬ InBuffer buf x → mem' x = mem x

/-- The strings are still there. -/
theorem Message.Legal.kept {mem' : Bytes} (hm : m.Legal buf mem) (h : Kept buf mem mem') : m.Legal buf mem' := by
  cases m with
  | putStr str text =>
    obtain ⟨hstr, h0, h8, hout, hfar⟩ := hm
    refine ⟨?_, h0, h8, hout, hfar⟩
    apply hstr.congr
    intro x h1 h2
    apply h x
    · intro hx
      have hx := Set.mem_Ico.mp hx
      omega
    · rintro ⟨i, hi, rfl⟩
      have hi := hfar i hi
      omega
  | putChar charAsci => exact hm
  | putInt num => trivial

/-! ## On a page -/

variable {p : Page (BitVec 8)}

theorem Shows.same (h : Shows s p) (hbuf : BufferApart buf) (hs : SameScreen buf s s') : Shows s' p := by
  refine ⟨?_, ?_, h.cur⟩
  · intro r c hr hc
    rw [hs.cell hbuf (by omega)]
    exact h.cells r c hr hc
  · rw [hs.cursor]
    exact h.cursor

theorem Shows.putChars {text : List (BitVec 8)} (h : Shows s p) (h8 : 0x08 ∉ text) :
    ∃ s', Lib.putChars text s = .ok s' ∧ Drew s s' ∧ Shows s' (text.foldl (Page.type 80 isBreak) p) := by
  induction text generalizing s p with
  | nil => exact ⟨s, rfl, Drew.refl s, h⟩
  | cons cl text ih =>
    obtain ⟨s1, he, hd, hsh⟩ := h.putChar fun e => h8 (e ▸ List.mem_cons_self)
    obtain ⟨s', he', hd', hsh'⟩ := ih hsh fun hm => h8 (List.mem_cons_of_mem _ hm)
    refine ⟨s', ?_, hd.trans hd', hsh'⟩
    rw [Lib.putChars, List.foldlM_cons, he]
    exact he'

theorem Shows.print (h : Shows s p) (hbuf : BufferApart buf) (hm : m.Legal buf s.mem) :
    ∃ s', m.print buf s = .ok s' ∧ Kept buf s.mem s'.mem ∧ Shows s' (m.text.foldl (Page.type 80 isBreak) p) := by
  obtain ⟨h8, s1, hs, he⟩ := Message.print_eq hbuf h.lt hm
  obtain ⟨s', he', hd, hsh⟩ := (h.same hbuf hs).putChars h8
  refine ⟨s', he.trans he', ?_, hsh⟩
  intro x hx hb
  rw [hd.mem x hx, hs.mem x hb]

theorem Shows.printAll (h : Shows s p) (hbuf : BufferApart buf) (hms : ∀ m ∈ ms, m.Legal buf s.mem) :
    ∃ s', printAll buf ms s = .ok s' ∧ Shows s' ((ms.flatMap Message.text).foldl (Page.type 80 isBreak) p) := by
  induction ms generalizing s p with
  | nil => exact ⟨s, rfl, h⟩
  | cons m ms ih =>
    obtain ⟨s1, he, hk, hsh⟩ := h.print hbuf (hms m List.mem_cons_self)
    obtain ⟨s', he', hsh'⟩ := ih hsh fun m' hm' => (hms m' (List.mem_cons_of_mem _ hm')).kept hk
    refine ⟨s', ?_, ?_⟩
    · rw [Lib.printAll, List.foldlM_cons, he]
      exact he'
    · rw [List.flatMap_cons, List.foldl_append]
      exact hsh'

theorem Shows.blank (hcells : ∀ q, q < 2000 → s.cell q = Lib.blank) (hcur : s.cursor = 0) : Shows s .empty := by
  refine ⟨?_, ?_, Nat.zero_lt_succ 79⟩
  · intro r c hr hc
    rw [hcells _ (by omega)]
    cases r <;> rfl
  · rw [hcur]
    rfl

/-! ## Over anything -/

/-- `text` over the cells from `q0` on. -/
def overlay (q0 : Nat) (text : List (BitVec 8)) (cells : Nat → BitVec 16) (q : Nat) : BitVec 16 :=
  if q0 ≤ q then (text[q - q0]?.map lit).getD (cells q) else cells q

theorem overlay_nil (q0 : Nat) (cells : Nat → BitVec 16) : overlay q0 [] cells = cells := by
  funext q
  unfold overlay
  split <;> rfl

theorem overlay_cons (q0 : Nat) (cl : BitVec 8) (text : List (BitVec 8)) (cells : Nat → BitVec 16) :
    overlay q0 (cl :: text) cells = overlay (q0 + 1) text (fun q => if q = q0 then lit cl else cells q) := by
  funext q
  unfold overlay
  dsimp only
  rcases Nat.lt_trichotomy q q0 with h | rfl | h
  · rw [if_neg (by omega), if_neg (by omega), if_neg (by omega)]
  · rw [if_pos (Nat.le_refl q), if_neg (by omega), if_pos rfl, Nat.sub_self]
    rfl
  · rw [if_pos (by omega), if_pos (by omega), if_neg (by omega), show q - q0 = (q - (q0 + 1)) + 1 by omega,
      List.getElem?_cons_succ]

/-- The cells of a screen, and the cursor. -/
structure Picture where
  cells : Nat → BitVec 16
  cursor : Nat

namespace Picture

def goto (c : Nat) (p : Picture) : Picture := ⟨p.cells, c⟩

/-- `text` at the cursor. -/
def put (text : List (BitVec 8)) (p : Picture) : Picture := ⟨overlay p.cursor text p.cells, p.cursor + text.length⟩

def feed (p : Picture) : Picture := ⟨p.cells, (p.cursor / 80 + 1) * 80⟩

end Picture

structure Looks (s : Screen) (p : Picture) : Prop where
  cells : ∀ q, q < 2000 → s.cell q = p.cells q
  cursor : s.cursor.toNat = p.cursor

/-- From picture `p`, the calls of put_char for `text` lead to `p'`. -/
def Types (text : List (BitVec 8)) (p p' : Picture) : Prop :=
  ∀ s, Looks s p → ∃ s', putChars text s = .ok s' ∧ Drew s s' ∧ Looks s' p'

variable {pic pic' pic'' : Picture} {text text' : List (BitVec 8)}

theorem Looks.same (h : Looks s pic) (hbuf : BufferApart buf) (hs : SameScreen buf s s') : Looks s' pic := by
  refine ⟨?_, ?_⟩
  · intro q hq
    rw [hs.cell hbuf hq]
    exact h.cells q hq
  · rw [hs.cursor]
    exact h.cursor

theorem Looks.goto (h : Looks s pic) (bx : BitVec 16) : Looks (setCursor bx s) (pic.goto bx.toNat) :=
  ⟨fun q hq => (cell_congr (setCursor_mem bx s) q).trans (h.cells q hq), congrArg _ (setCursor_cursor bx s)⟩

theorem Types.append (h : Types text pic pic') (h' : Types text' pic' pic'') : Types (text ++ text') pic pic'' := by
  intro s hs
  obtain ⟨s1, he, hd, hl⟩ := h s hs
  obtain ⟨s', he', hd', hl'⟩ := h' s1 hl
  refine ⟨s', ?_, hd.trans hd', hl'⟩
  rw [putChars, List.foldlM_append]
  exact bind_ok_iff.mpr ⟨s1, he, he'⟩

/-- A text that ends before the last cell. -/
theorem Types.put (hplain : ∀ cl ∈ text, isBreak cl = false ∧ cl ≠ 0x08) (hlt : pic.cursor + text.length < 2000) :
    Types text pic (pic.put text) := by
  intro s h
  induction text generalizing s pic with
  | nil =>
    refine ⟨s, rfl, Drew.refl s, ?_⟩
    unfold Picture.put
    rw [overlay_nil]
    exact h
  | cons cl text ih =>
    rw [List.length_cons] at hlt
    obtain ⟨hbrk, h8⟩ := hplain cl List.mem_cons_self
    have hnl : ¬ (cl = 0x0d ∨ cl = 0x0a) := fun e => by
      have hb : isBreak cl = true := by simpa [isBreak] using e
      rw [hbrk] at hb
      cases hb
    have hcur : s.cursor.toNat < 2000 := by rw [h.cursor]; omega
    have hnext : s.cursor.toNat + 1 < 2000 := by rw [h.cursor]; omega
    have he : putChar cl s = .ok (setCursor (s.cursor + 1) (drawn s.cursor.toNat cl (asked s))) := by
      rw [putChar_other hnl h8, putOther_eq hcur, if_pos hnext]
    have hd : Drew s (setCursor (s.cursor + 1) (drawn s.cursor.toNat cl (asked s))) :=
      (drew_asked s).trans ((drew_drawn hcur cl (asked s)).trans (drew_setCursor _ _))
    have hl : Looks (setCursor (s.cursor + 1) (drawn s.cursor.toNat cl (asked s)))
        ⟨fun q => if q = pic.cursor then lit cl else pic.cells q, pic.cursor + 1⟩ := by
      refine ⟨?_, ?_⟩
      · intro q hq
        rw [cell_congr (setCursor_mem _ _), cell_drawn, h.cursor, cell_asked, h.cells q hq]
      · rw [setCursor_cursor, cursor_next hcur, h.cursor]
    obtain ⟨s', he', hd', hl'⟩ := ih (fun cl' hm => hplain cl' (List.mem_cons_of_mem _ hm))
      (by show pic.cursor + 1 + text.length < 2000; omega) _ hl
    refine ⟨s', ?_, hd.trans hd', ?_⟩
    · rw [putChars, List.foldlM_cons, he]
      exact he'
    · have hlen : pic.cursor + (text.length + 1) = pic.cursor + 1 + text.length := by omega
      unfold Picture.put
      rw [overlay_cons, List.length_cons, hlen]
      exact hl'

/-- A line feed above the last row. -/
theorem Types.feed (hrow : pic.cursor / 80 < 24) : Types [0x0a] pic pic.feed := by
  intro s h
  have hup : s.cursor.toNat / 80 < 24 := by rwa [h.cursor]
  obtain ⟨b, hb, he⟩ := lineFeed_up (s := asked s) hup
  refine ⟨setCursor b (asked s), ?_, (drew_asked s).trans (drew_setCursor _ _), ?_, ?_⟩
  · have hone : putChars [0x0a] s = putChar 0x0a s := bind_pure _
    rw [hone, putChar_newline (.inr rfl), he]
  · intro q hq
    rw [cell_congr (setCursor_mem _ _), cell_asked]
    exact h.cells q hq
  · rw [setCursor_cursor, hb, h.cursor]
    rfl

/-- A message, with the strings where they were in `mem`. -/
theorem Types.print (h : Types m.text pic pic') (hbuf : BufferApart buf) (hm : m.Legal buf mem) (hs : Looks s pic)
    (hlt : pic.cursor < 2000) (hk : Kept buf mem s.mem) :
    ∃ s', m.print buf s = .ok s' ∧ Looks s' pic' ∧ Kept buf mem s'.mem := by
  obtain ⟨-, s1, hs1, he⟩ := Message.print_eq hbuf (by rw [hs.cursor]; exact hlt) (hm.kept hk)
  obtain ⟨s', he', hd, hl⟩ := h s1 (hs.same hbuf hs1)
  refine ⟨s', he.trans he', hl, ?_⟩
  intro x hx hb
  rw [hd.mem x hx, hs1.mem x hb, hk x hx hb]

/-- A text that stays within its row. -/
theorem overlay_row {r0 c0 r c : Nat} (hlen : c0 + text.length ≤ 80) (hc : c < 80) (cells : Nat → BitVec 16) :
    overlay (80 * r0 + c0) text cells (80 * r + c) =
      if r = r0 ∧ c0 ≤ c then (text[c - c0]?.map lit).getD (cells (80 * r + c)) else cells (80 * r + c) := by
  unfold overlay
  by_cases hle : 80 * r0 + c0 ≤ 80 * r + c
  · rw [if_pos hle]
    by_cases hr : r = r0
    · rw [if_pos ⟨hr, by omega⟩, hr, show 80 * r0 + c - (80 * r0 + c0) = c - c0 by omega]
    · have hnone : text[80 * r + c - (80 * r0 + c0)]? = none := List.getElem?_eq_none (by omega)
      rw [if_neg fun e => hr e.1, hnone]
      rfl
  · rw [if_neg hle, if_neg (by omega)]

end TinyOs.Lib
