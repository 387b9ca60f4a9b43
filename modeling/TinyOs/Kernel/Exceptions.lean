/-
  TinyOs.Kernel.Exceptions — what is on the screen when the kernel stops
  (kernel/interrupt.c, kernel/debug.c).

  Every vector leads to `general_init_hadnler` until a handler is registered for it. It
  blanks the first four rows, writes the exception's name in row 1 and stays there, with
  interrupts off; for vectors 0x27 and 0x2f it returns. It may be entered in the middle of
  a put_char, so nothing is known of the cursor.

  - `exception_shown`: of every vector of the table, on any screen: the four rows, with the
    address of a page fault, and the other rows as they were.
  - `panic_shown`: PANIC goes on with the page the screen shows.
-/

import TinyOs.Kernel.Idt
import TinyOs.Lib.Messages

namespace TinyOs.Kernel.Exceptions

open TinyOs.Lib TinyOs.Logic

/-- The characters of a literal. -/
def ascii (s : String) : List (BitVec 8) := s.toList.map fun c => BitVec.ofNat 8 c.toNat

/-! ## The tables -/

inductive Handler where
  | generalInitHadnler
  | intrTimerHandler
  | intrKeyboardHandler
  deriving DecidableEq, Repr

structure Tables where
  idtTable : Nat → Option Handler
  intrName : Nat → List (BitVec 8)

def Tables.name (i : Nat) (name : String) (t : Tables) : Tables :=
  { t with intrName := Function.update t.intrName i (ascii name) }

def registerHandler (vectorNo : BitVec 8) (function : Handler) (t : Tables) : Tables :=
  { t with idtTable := Function.update t.idtTable vectorNo.toNat (some function) }

def defaults (t : Tables) (i : Nat) : Tables :=
  Tables.name i "unknow" { t with idtTable := Function.update t.idtTable i (some .generalInitHadnler) }

/-- `intr_name[15]` is left. -/
def exceptionNames : List (Nat × String) :=
  [(0, "#DE Divide Error"), (1, "#DB Debug Exception"), (2, "NMI Interrupt"), (3, "#BP Breakpoint Exception"),
    (4, "#OF Overflow Exception"), (5, "#BR BOUND Range Exceeded Exception"), (6, "#UD Invalid Opcode Exception"),
    (7, "#NM Device Not Available Exception"), (8, "#DF Double Fault Exception"), (9, "Coprocessor Segment Overrun"),
    (10, "#TS Invalid TSS Exception"), (11, "#NP Segment Not Present"), (12, "#SS Stack Fault Exception"),
    (13, "#GP General Protection Exception"), (14, "#PF Page-Fault Exception"), (16, "#MF x87 FPU Floating-Point Error"),
    (17, "#AC Alignment Check Exception"), (18, "#MC Machine-Check Exception"), (19, "#XF SIMD Floating-Point Exception")]

def exceptionInit (t : Tables) : Tables :=
  let t := (List.range idtDescCnt).foldl defaults t
  exceptionNames.foldl (fun t n => t.name n.1 n.2) t

/-- After `idt_init`, `timer_init` and `keyboard_init`. -/
def initHandlers (t : Tables) : Tables :=
  registerHandler 0x21 .intrKeyboardHandler (registerHandler 0x20 .intrTimerHandler (exceptionInit t))

/-! ## The handlers that stay -/

inductive Outcome where
  | returns (s : Screen)
  /-- `while(1)` -/
  | stays (s : Screen)

/-- Where the linker has put the literals, and put_int_buffer. -/
structure Placing where
  literal : List (BitVec 8) → Nat
  buf : BitVec 32

def Placing.str (l : Placing) (text : List (BitVec 8)) : Message := .putStr (l.literal text) text

/-- The loop with `n` rounds to go. -/
def putBlanks : Nat → Screen → Except Stop Screen
  | 0, s => .ok s
  | n + 1, s => do
    let s ← putChar 0x20 s
    putBlanks n s

def messageBegin : List (BitVec 8) := ascii "!!!!!!!      excetion message begin  !!!!!!!!"

def messageEnd : List (BitVec 8) := ascii "!!!!!!!      excetion message end    !!!!!!!!"

def faultAddr : List (BitVec 8) := ascii "page fault addr is "

/-- The block of a page fault. -/
def putFaultAddr (l : Placing) (vecNr : BitVec 8) (cr2 : BitVec 32) (s : Screen) : Except Stop Screen :=
  if vecNr = 14 then do
    let s ← (l.str (0x0a :: faultAddr)).print l.buf s
    (Message.putInt cr2).print l.buf s
  else .ok s

def generalInitHadnler (l : Placing) (t : Tables) (vecNr : BitVec 8) (cr2 : BitVec 32) (s : Screen) : Except Stop Outcome :=
  if vecNr = 0x27 ∨ vecNr = 0x2f then .ok (.returns s)
  else do
    let s := setCursor 0 s
    let s ← putBlanks 320 s
    let s := setCursor 0 s
    let s ← (l.str (messageBegin ++ [0x0a])).print l.buf s
    let s := setCursor 88 s
    let s ← (l.str (t.intrName vecNr.toNat)).print l.buf s
    let s ← putFaultAddr l vecNr cr2 s
    let s ← (l.str (0x0a :: messageEnd ++ [0x0a])).print l.buf s
    .ok (.stays s)

/-- The calls of `panic_spin`, which then stays in `while(1)`. -/
def panicSpin (l : Placing) (filename : List (BitVec 8)) (line : BitVec 32) (func condition : List (BitVec 8)) : List Message :=
  [l.str (ascii "\n\n\n!!!!! error !!!!!\n"), l.str (ascii "filename:"), l.str filename, l.str (ascii "\n"),
    l.str (ascii "line:0x"), .putInt line, l.str (ascii "\n"), l.str (ascii "function:"), l.str func, l.str (ascii "\n"),
    l.str (ascii "condition:"), l.str condition, l.str (ascii "\n")]

/-! ## What the tables hold -/

variable {t : Tables} {v : Nat}

theorem defaults_foldl (n : Nat) (t : Tables) :
    (v < n → ((List.range n).foldl defaults t).idtTable v = some .generalInitHadnler ∧
    ((List.range n).foldl defaults t).intrName v = ascii "unknow") := by
  induction n with
  | zero => exact fun h => absurd h (Nat.not_lt_zero v)
  | succ n ih =>
    intro h
    rw [List.range_succ, List.foldl_append, List.foldl_cons, List.foldl_nil]
    unfold defaults Tables.name
    by_cases hv : v = n
    · subst hv
      exact ⟨Function.update_self .., Function.update_self ..⟩
    · simp only [Function.update_of_ne hv]
      exact ih (by omega)

theorem names_idtTable (names : List (Nat × String)) (t : Tables) :
    (names.foldl (fun t n => t.name n.1 n.2) t).idtTable = t.idtTable := by
  induction names generalizing t with
  | nil => rfl
  | cons n names ih => exact ih _

/-- A name is the one before, or one of the list. -/
theorem names_intrName (names : List (Nat × String)) (t : Tables) (v : Nat) :
    (names.foldl (fun t n => t.name n.1 n.2) t).intrName v = t.intrName v ∨
      ∃ n ∈ names, (names.foldl (fun t n => t.name n.1 n.2) t).intrName v = ascii n.2 := by
  induction names generalizing t with
  | nil => exact .inl rfl
  | cons n names ih =>
    rw [List.foldl_cons]
    rcases ih (t.name n.1 n.2) with h | ⟨n', hn', h⟩
    · by_cases hv : v = n.1
      · right
        refine ⟨n, List.mem_cons_self, h.trans ?_⟩
        rw [hv]
        exact Function.update_self ..
      · left
        rw [h]
        exact Function.update_of_ne hv ..
    · exact .inr ⟨n', List.mem_cons_of_mem _ hn', h⟩

/-- Which handler an interrupt gets. -/
theorem initHandlers_idtTable (t : Tables) (hv : v < idtDescCnt) : (initHandlers t).idtTable v =
    some (if v = 0x20 then .intrTimerHandler else if v = 0x21 then .intrKeyboardHandler else .generalInitHadnler) := by
  have hdef : (exceptionInit t).idtTable v = some .generalInitHadnler := by
    unfold exceptionInit
    rw [names_idtTable]
    exact (defaults_foldl idtDescCnt t hv).1
  unfold initHandlers registerHandler
  show Function.update (Function.update (exceptionInit t).idtTable 0x20 _) 0x21 _ v = _
  by_cases h21 : v = 0x21
  · rw [h21, Function.update_self]
    rfl
  · rw [Function.update_of_ne h21]
    by_cases h20 : v = 0x20
    · rw [h20, Function.update_self]
      rfl
    · rw [Function.update_of_ne h20, if_neg h20, if_neg h21, hdef]

/-- Characters that only move the cursor on. -/
def Plain (text : List (BitVec 8)) : Prop := ∀ cl ∈ text, isBreak cl = false ∧ cl ≠ 0x08

instance (text : List (BitVec 8)) : Decidable (Plain text) :=
  inferInstanceAs (Decidable (∀ cl ∈ text, isBreak cl = false ∧ cl ≠ 0x08))

/-- Every name fits in row 1 behind column 8. -/
theorem intrName_plain (t : Tables) (hv : v < idtDescCnt) :
    ((exceptionInit t).intrName v).length < 72 ∧ Plain ((exceptionInit t).intrName v) := by
  have hlist : ∀ n ∈ exceptionNames, (ascii n.2).length < 72 ∧ Plain (ascii n.2) := by
    simp [exceptionNames, Plain, ascii, isBreak]
  have hunknow : (ascii "unknow").length < 72 ∧ Plain (ascii "unknow") := by decide
  rcases names_intrName exceptionNames ((List.range idtDescCnt).foldl defaults t) v with h | ⟨n, hn, h⟩
  · unfold exceptionInit
    rw [h, (defaults_foldl idtDescCnt t hv).2]
    exact hunknow
  · unfold exceptionInit
    rw [h]
    exact hlist n hn

/-! ## The message of an exception -/

/-- The first four rows. -/
def shownRows (name : List (BitVec 8)) (fault : Option (BitVec 32)) : List (List (BitVec 8)) :=
  [messageBegin, List.replicate 8 0x20 ++ name] ++ fault.toList.map (fun a => faultAddr ++ hexText a.toNat) ++ [messageEnd]

variable {l : Placing} {s : Screen} {p : Picture} {name : List (BitVec 8)}

theorem putBlanks_eq (n : Nat) (s : Screen) : putBlanks n s = putChars (List.replicate n 0x20) s := by
  induction n generalizing s with
  | zero => rfl
  | succ n ih =>
    rw [putBlanks, List.replicate_succ, putChars, List.foldlM_cons]
    exact congrArg _ (funext ih)

theorem messages_plain : Plain messageBegin ∧ Plain messageEnd ∧ Plain faultAddr := by
  simp [Plain, messageBegin, messageEnd, faultAddr, ascii, isBreak]

theorem messages_length : messageBegin.length = 45 ∧ messageEnd.length = 45 ∧ faultAddr.length = 19 := by
  simp [messageBegin, messageEnd, faultAddr, ascii]

theorem blanks_plain : Plain (List.replicate 320 0x20) := by
  intro cl hcl
  rw [List.eq_of_mem_replicate hcl]
  decide

/-- Up to the name. -/
def named (name : List (BitVec 8)) (p : Picture) : Picture :=
  (((((p.goto 0).put (List.replicate 320 0x20)).goto 0).put messageBegin).feed.goto 88).put name

/-- The last line. -/
def ended (p : Picture) : Picture := (p.feed.put messageEnd).feed

/-- The line of a page fault. -/
def faulted (a : BitVec 32) (p : Picture) : Picture := (p.feed.put faultAddr).put (hexText a.toNat)

theorem types_begin (hc : p.cursor = 0) : Types (messageBegin ++ [0x0a]) p (p.put messageBegin).feed := by
  have hlen := messages_length.1
  refine (Types.put messages_plain.1 ?_).append (Types.feed ?_)
  · rw [hc, hlen]
    decide
  · show (p.cursor + messageBegin.length) / 80 < 24
    rw [hc, hlen]
    decide

theorem types_fault (hc : p.cursor / 80 = 1) : Types (0x0a :: faultAddr) p (p.feed.put faultAddr) := by
  have hlen := messages_length.2.2
  refine (Types.feed (by omega)).append (Types.put messages_plain.2.2 ?_)
  show (p.cursor / 80 + 1) * 80 + faultAddr.length < 2000
  rw [hc, hlen]
  decide

theorem types_end (hc : p.cursor / 80 < 3) : Types (0x0a :: messageEnd ++ [0x0a]) p (ended p) := by
  have hlen := messages_length.2.1
  refine ((Types.feed (by omega)).append (Types.put messages_plain.2.1 ?_)).append (Types.feed ?_)
  · show (p.cursor / 80 + 1) * 80 + messageEnd.length < 2000
    rw [hlen]
    omega
  · show ((p.cursor / 80 + 1) * 80 + messageEnd.length) / 80 < 24
    rw [hlen]
    omega

theorem named_cursor (name : List (BitVec 8)) (p : Picture) : (named name p).cursor = 88 + name.length := rfl

/-- The literals lie apart from what is printed to. -/
def Placing.Good (l : Placing) (mem : Bytes) (name : List (BitVec 8)) : Prop :=
  BufferApart l.buf ∧ ∀ text ∈ [messageBegin ++ [0x0a], name, 0x0a :: faultAddr, 0x0a :: messageEnd ++ [0x0a]],
    (l.str text).Legal l.buf mem

/-- The row of a page fault, where there is one. -/
def withFault (vecNr : BitVec 8) (cr2 : BitVec 32) (p : Picture) : Picture := if vecNr = 14 then faulted cr2 p else p

theorem withFault_row (vecNr : BitVec 8) (cr2 : BitVec 32) (hc : p.cursor / 80 = 1) :
    (withFault vecNr cr2 p).cursor / 80 = if vecNr = 14 then 2 else 1 := by
  have hlen := messages_length.2.2
  have hshort := (hexText_ok cr2.isLt).short
  unfold withFault
  split
  · show ((p.cursor / 80 + 1) * 80 + faultAddr.length + (hexText cr2.toNat).length) / 80 = 2
    rw [hc, hlen]
    omega
  · exact hc

theorem putFaultAddr_looks (vecNr : BitVec 8) (cr2 : BitVec 32) {mem : Bytes} (hbuf : BufferApart l.buf)
    (hlit : (l.str (0x0a :: faultAddr)).Legal l.buf mem) (h : Looks s p) (hrow : p.cursor / 80 = 1)
    (hk : Kept l.buf mem s.mem) :
    ∃ s', putFaultAddr l vecNr cr2 s = .ok s' ∧ Looks s' (withFault vecNr cr2 p) ∧ Kept l.buf mem s'.mem := by
  unfold putFaultAddr withFault
  split
  · obtain ⟨s1, he1, h1, hk1⟩ := (types_fault hrow).print (m := l.str _) hbuf hlit h (by omega) hk
    have hshort := (hexText_ok cr2.isLt).short
    have hat : (p.feed.put faultAddr).cursor = 179 := by
      show (p.cursor / 80 + 1) * 80 + faultAddr.length = 179
      rw [hrow, messages_length.2.2]
    have hint : Types (hexText cr2.toNat) (p.feed.put faultAddr) ((p.feed.put faultAddr).put (hexText cr2.toNat)) :=
      .put (hexText_plain cr2) (by rw [hat]; omega)
    obtain ⟨s2, he2, h2, hk2⟩ := hint.print (m := .putInt cr2) hbuf trivial h1 (by rw [hat]; decide) hk1
    refine ⟨s2, ?_, h2, hk2⟩
    rw [he1]
    exact he2
  · exact ⟨s, rfl, h, hk⟩

/-- The calls, one after the other. -/
theorem handler_looks {t : Tables} {vecNr : BitVec 8} (cr2 : BitVec 32) (hvec : ¬ (vecNr = 0x27 ∨ vecNr = 0x2f))
    (hlen : (t.intrName vecNr.toNat).length < 72) (hplain : Plain (t.intrName vecNr.toNat))
    (hg : l.Good s.mem (t.intrName vecNr.toNat)) :
    ∃ s', generalInitHadnler l t vecNr cr2 s = .ok (.stays s') ∧
      Looks s' (ended (withFault vecNr cr2 (named (t.intrName vecNr.toNat) ⟨s.cell, s.cursor.toNat⟩))) := by
  obtain ⟨hbuf, hlit⟩ := hg
  have h0 : Looks s ⟨s.cell, s.cursor.toNat⟩ := ⟨fun _ _ => rfl, rfl⟩
  have hblank (p : Picture) (hc : p.cursor = 0) : Types (List.replicate 320 0x20) p (p.put (List.replicate 320 0x20)) :=
    .put blanks_plain (by rw [hc, List.length_replicate]; decide)
  obtain ⟨s1, he1, hd1, h1⟩ := hblank _ rfl _ (h0.goto 0)
  obtain ⟨s2, he2, h2, hk2⟩ := (types_begin rfl).print (m := l.str _) hbuf (hlit _ (by simp)) (h1.goto 0)
    (Nat.zero_lt_succ 1999)
    fun x hx _ => hd1.mem x hx
  have hname : 88 + (t.intrName vecNr.toNat).length < 2000 := by omega
  obtain ⟨s3, he3, h3, hk3⟩ := Types.print (m := l.str _) (Types.put hplain hname) hbuf (hlit _ (by simp)) (h2.goto 88)
    (by show (88 : BitVec 16).toNat < 2000; decide) hk2
  have hrow : (named (t.intrName vecNr.toNat) ⟨s.cell, s.cursor.toNat⟩).cursor / 80 = 1 := by
    rw [named_cursor]
    omega
  obtain ⟨s4, he4, h4, hk4⟩ := putFaultAddr_looks vecNr cr2 hbuf (hlit _ (by simp)) h3 hrow hk3
  have hrow4 := withFault_row vecNr cr2 hrow
  have hlt4 : (withFault vecNr cr2 (named (t.intrName vecNr.toNat) ⟨s.cell, s.cursor.toNat⟩)).cursor / 80 < 3 := by
    rw [hrow4]
    split <;> decide
  obtain ⟨s5, he5, h5, -⟩ := (types_end hlt4).print (m := l.str _) hbuf (hlit _ (by simp)) h4 (by omega) hk4
  refine ⟨s5, ?_, h5⟩
  unfold generalInitHadnler
  rw [if_neg hvec]
  simp only [putBlanks_eq, he1, he2, he3, he4, he5, ok_bind]

/-! ## The rows -/

/-- The first four rows show `pg`, and the cursor is behind it; the other rows are those of `base`. -/
structure Board (base : Nat → BitVec 16) (pg : Page (BitVec 8)) (p : Picture) : Prop where
  cells : ∀ r c, r < 25 → c < 80 → p.cells (80 * r + c) =
    if r < 4 then ((pg.glyph r c).map lit).getD blank else base (80 * r + c)
  cursor : p.cursor = 80 * pg.done.length + pg.cur.length

variable {base : Nat → BitVec 16} {rows : List (List (BitVec 8))} {row text : List (BitVec 8)}

/-- An open row with nothing in it shows nothing. -/
theorem glyph_open (rows : List (List (BitVec 8))) (r c : Nat) :
    (Page.mk rows []).glyph r c = rows[r]?.bind fun row => row[c]? := by
  unfold Page.glyph Page.rows
  show ((rows ++ [[]])[r]?.bind fun row => row[c]?) = _
  rcases Nat.lt_trichotomy r rows.length with h | rfl | h
  · rw [List.getElem?_append_left h]
  · rw [List.getElem?_concat_length, List.getElem?_eq_none (Nat.le_refl _)]
    rfl
  · rw [List.getElem?_eq_none (by rw [List.length_append, List.length_singleton]; exact h), List.getElem?_eq_none (by omega)]

theorem glyph_append (r c : Nat) : (Page.mk rows (row ++ text)).glyph r c =
    if r = rows.length ∧ row.length ≤ c then text[c - row.length]? else (Page.mk rows row).glyph r c := by
  unfold Page.glyph Page.rows
  rcases Nat.lt_trichotomy r rows.length with h | rfl | h
  · rw [if_neg (by omega), List.getElem?_append_left h, List.getElem?_append_left h]
  · rw [List.getElem?_concat_length, List.getElem?_concat_length]
    show (row ++ text)[c]? = _
    by_cases hc : row.length ≤ c
    · rw [if_pos ⟨rfl, hc⟩, List.getElem?_append_right hc]
    · rw [if_neg fun e => hc e.2, List.getElem?_append_left (by omega)]
      rfl
  · have hout : ∀ row', (rows ++ [row'])[r]? = none := fun row' =>
      List.getElem?_eq_none (by rw [List.length_append, List.length_singleton]; exact h)
    rw [if_neg (by omega)]
    show ((rows ++ [row ++ text])[r]?.bind fun row => row[c]?) = ((rows ++ [row])[r]?.bind fun row => row[c]?)
    rw [hout, hout]

theorem Board.put (h : Board base ⟨rows, row⟩ p) (text : List (BitVec 8)) (hrow : rows.length < 4)
    (hlen : row.length + text.length ≤ 80) :
    Board base ⟨rows, row ++ text⟩ (p.put text) := by
  refine ⟨?_, ?_⟩
  · intro r c hr hc
    have hcells := h.cells r c hr hc
    show overlay p.cursor text p.cells (80 * r + c) = _
    rw [h.cursor, overlay_row hlen hc, hcells, glyph_append]
    by_cases hat : r = rows.length ∧ row.length ≤ c
    · rw [if_pos hat, if_pos hat, if_pos (by omega), if_pos (by omega)]
      -- nothing has been there
      have hnone : (Page.mk rows row).glyph r c = none := by
        unfold Page.glyph Page.rows
        rw [hat.1, List.getElem?_concat_length]
        exact List.getElem?_eq_none hat.2
      rw [hnone]
      cases text[c - row.length]? <;> rfl
    · rw [if_neg hat, if_neg hat]
  · show p.cursor + text.length = 80 * rows.length + (row ++ text).length
    rw [h.cursor, List.length_append]
    exact Nat.add_assoc ..

theorem Board.feed (h : Board base ⟨rows, row⟩ p) (hlen : row.length < 80) : Board base ⟨rows ++ [row], []⟩ p.feed := by
  refine ⟨?_, ?_⟩
  · intro r c hr hc
    have hg : (Page.mk (rows ++ [row]) []).glyph r c = (Page.mk rows row).glyph r c := glyph_newRow ⟨rows, row⟩ r c
    rw [hg]
    exact h.cells r c hr hc
  · show (p.cursor / 80 + 1) * 80 = 80 * (rows ++ [row]).length + 0
    have hcur : p.cursor = 80 * rows.length + row.length := h.cursor
    rw [hcur, List.length_append, List.length_singleton]
    omega

/-- Blanks show nothing. -/
theorem Board.indent (h : Board base ⟨rows, []⟩ p) (n : Nat) :
    Board base ⟨rows, List.replicate n 0x20⟩ (p.goto (80 * rows.length + n)) := by
  refine ⟨?_, ?_⟩
  · intro r c hr hc
    have hcells := h.cells r c hr hc
    show p.cells (80 * r + c) = _
    rw [hcells, ← List.nil_append (List.replicate n _), glyph_append]
    by_cases hat : r = rows.length ∧ ([] : List (BitVec 8)).length ≤ c
    · have hnone : (Page.mk rows []).glyph r c = none := by
        unfold Page.glyph Page.rows
        rw [hat.1, List.getElem?_concat_length]
        rfl
      rw [if_pos hat, hnone, List.getElem?_replicate]
      split
      · split <;> rfl
      · rfl
    · rw [if_neg hat]
  · show 80 * rows.length + n = 80 * rows.length + (List.replicate n (0x20 : BitVec 8)).length
    rw [List.length_replicate]

/-- The first four rows blanked. -/
theorem Board.blank (p : Picture) : Board p.cells .empty (((p.goto 0).put (List.replicate 320 0x20)).goto 0) := by
  refine ⟨?_, rfl⟩
  intro r c hr hc
  have hnone : (Page.empty : Page (BitVec 8)).glyph r c = none := by
    unfold Page.glyph
    cases r <;> rfl
  show overlay 0 (List.replicate 320 0x20) p.cells (80 * r + c) = _
  rw [hnone]
  unfold overlay
  rw [if_pos (Nat.zero_le _), List.getElem?_replicate]
  by_cases h4 : r < 4
  · rw [if_pos (by omega), if_pos h4]
    rfl
  · rw [if_neg (by omega), if_neg h4]
    rfl

theorem board_shown (vecNr : BitVec 8) (cr2 : BitVec 32) (hlen : name.length < 72) (p : Picture) :
    Board p.cells ⟨shownRows name (if vecNr = 14 then some cr2 else none), []⟩
      (ended (withFault vecNr cr2 (named name p))) := by
  obtain ⟨hbegin, hend, hfault⟩ := messages_length
  have hshort := (hexText_ok cr2.isLt).short
  have hnamed : Board p.cells ⟨[messageBegin], List.replicate 8 0x20 ++ name⟩ (named name p) := by
    have h1 := (Board.blank p).put messageBegin (by decide) (by rw [hbegin]; decide)
    have h2 := h1.feed (by rw [List.nil_append, hbegin]; decide)
    exact (h2.indent 8).put name (by decide) (by rw [List.length_replicate]; omega)
  have hrow : (List.replicate 8 (0x20 : BitVec 8) ++ name).length < 80 := by
    rw [List.length_append, List.length_replicate]
    omega
  unfold withFault
  split
  · have h1 := (hnamed.feed hrow).put faultAddr (by simp) (by rw [hfault]; decide)
    have h2 := h1.put (hexText cr2.toNat) (by simp) (by rw [List.nil_append, hfault]; omega)
    have h3 := h2.feed (by rw [List.nil_append, List.length_append, hfault]; omega)
    have h4 := h3.put messageEnd (by simp) (by rw [hend]; decide)
    exact h4.feed (by rw [List.nil_append, hend]; decide)
  · have h1 := (hnamed.feed hrow).put messageEnd (by simp) (by rw [hend]; decide)
    exact h1.feed (by rw [List.nil_append, hend]; decide)

/-- Of every vector of the table but two, on any screen. -/
theorem exception_shown (t : Tables) (vecNr : BitVec 8) (cr2 : BitVec 32) (hv : vecNr.toNat < idtDescCnt)
    (hvec : ¬ (vecNr = 0x27 ∨ vecNr = 0x2f)) (hg : l.Good s.mem ((exceptionInit t).intrName vecNr.toNat)) :
    ∃ s', generalInitHadnler l (exceptionInit t) vecNr cr2 s = .ok (.stays s') ∧ ∀ r c, r < 25 → c < 80 →
      s'.cell (80 * r + c) = if r < 4 then
          (((shownRows ((exceptionInit t).intrName vecNr.toNat) (if vecNr = 14 then some cr2 else none))[r]?.bind
            fun row => row[c]?).map
            lit).getD blank
        else s.cell (80 * r + c) := by
  obtain ⟨hlen, hplain⟩ := intrName_plain t hv
  obtain ⟨s', he, hs'⟩ := handler_looks cr2 hvec hlen hplain hg
  have hb := board_shown vecNr cr2 hlen ⟨s.cell, s.cursor.toNat⟩
  refine ⟨s', he, ?_⟩
  intro r c hr hc
  rw [hs'.cells _ (by omega), hb.cells r c hr hc, glyph_open]

/-- The literals behind one another in a page at 0x1000, 256 bytes each; put_int_buffer at 0x9000. -/
def literals : List (List (BitVec 8)) :=
  [messageBegin ++ [0x0a], ascii "#PF Page-Fault Exception", 0x0a :: faultAddr, 0x0a :: messageEnd ++ [0x0a]]

def inPage : Placing where
  literal text := 0x1000 + 256 * literals.idxOf text
  buf := 0x9000

/-- Everything else is 0xff, the screen and the cursor too. -/
def faultScreen : Screen where
  index := 0
  crtc _ := 0xff
  mem a := if 0x1000 ≤ a ∧ a < 0x1400 then ((literals.getD ((a - 0x1000) / 256) []).getD ((a - 0x1000) % 256) 0) else 0xff
  writes := []

def noTables : Tables := ⟨fun _ => none, fun _ => []⟩

theorem faultScreen_shown : ∃ s', generalInitHadnler inPage (exceptionInit noTables) 14 0x8048000 faultScreen =
    .ok (.stays s') ∧
    ∀ r c, r < 25 → c < 80 → s'.cell (80 * r + c) = if r < 4 then
        (((shownRows ((exceptionInit noTables).intrName (14 : BitVec 8).toNat) (if (14 : BitVec 8) = 14
          then some 0x8048000 else none))[r]?.bind
          fun row => row[c]?).map lit).getD blank
      else faultScreen.cell (80 * r + c) := by
  refine exception_shown noTables 14 0x8048000 (by decide) (by decide) ⟨?_, by decide +kernel⟩
  rintro a ⟨k, hk, rfl⟩ hv
  have hlow := (Set.mem_Icc.mp hv).1
  unfold textBase at hlow
  have hbuf : inPage.buf = 0x9000 := rfl
  rw [hbuf] at hlow
  bv_omega

/-! ## A panic -/

def panicText (filename : List (BitVec 8)) (line : BitVec 32) (func condition : List (BitVec 8)) : List (BitVec 8) :=
  ascii "\n\n\n!!!!! error !!!!!\nfilename:" ++ filename ++ ascii "\nline:0x" ++ hexText line.toNat ++
    ascii "\nfunction:" ++ func ++
    ascii "\ncondition:" ++ condition ++ ascii "\n"

theorem panicSpin_text (l : Placing) (filename : List (BitVec 8)) (line : BitVec 32) (func condition : List (BitVec 8)) :
    (panicSpin l filename line func condition).flatMap Message.text = panicText filename line func condition := by
  have h1 : ascii "\n\n\n!!!!! error !!!!!\nfilename:" = ascii "\n\n\n!!!!! error !!!!!\n" ++ ascii "filename:" := by decide
  have h2 : ascii "\nline:0x" = ascii "\n" ++ ascii "line:0x" := by decide
  have h3 : ascii "\nfunction:" = ascii "\n" ++ ascii "function:" := by decide
  have h4 : ascii "\ncondition:" = ascii "\n" ++ ascii "condition:" := by decide
  unfold panicSpin panicText
  rw [h1, h2, h3, h4]
  simp only [List.flatMap_cons, List.flatMap_nil, Placing.str, Message.text, List.append_assoc, List.append_nil]

theorem panic_shown {done : List (BitVec 8)} (filename : List (BitVec 8)) (line : BitVec 32) (func condition : List (BitVec 8))
    (h : Shows s (done.foldl (Page.type 80 isBreak) .empty)) (hbuf : BufferApart l.buf)
    (hlit : ∀ m ∈ panicSpin l filename line func condition, m.Legal l.buf s.mem) :
    ∃ s', printAll l.buf (panicSpin l filename line func condition) s = .ok s' ∧
      ShowsRows s' (window (layout 80 isBreak (done ++ panicText filename line func condition))) := by
  obtain ⟨s', he, hsh⟩ := h.printAll hbuf hlit
  refine ⟨s', he, ?_⟩
  rw [panicSpin_text, ← List.foldl_append] at hsh
  have hrows := hsh.rows
  rwa [layout_eq (by decide)] at hrows

end TinyOs.Kernel.Exceptions
