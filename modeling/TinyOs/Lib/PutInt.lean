/-
  TinyOs.Lib.PutInt — put_int prints a number in base 16 (lib/kernel/print.S).

  Three loops. `based4bits` stores the eight digits into `put_int_buffer` (at `buf`) from
  the last to the first, with `edi` down from 7. `skipPrefix0` looks for the first one
  that is not '0'; it steps behind each before it compares, and back at the end. `putEachNum`
  prints from there on. When all eight are '0' it is entered with one '0' and `edi` = 8,
  so that it stops behind the first round.

  `put_int_text`: these are the calls of put_char for the digits of the number. The buffer
  lies outside the 32 KB behind `gs`, so put_char leaves it alone (`putChar_far`).
-/

import TinyOs.Lib.Print
import TinyOs.Logic.Digits

namespace TinyOs.Lib

open TinyOs.Kernel TinyOs.Logic

/-- `.16based_4bits`: the digit in edx to its character in dl. -/
def digitChar (edx : BitVec 32) : BitVec 8 :=
  if (9#32).slt edx then (edx - 10 + 0x41).setWidth 8 else (edx + 0x30).setWidth 8

/-- With `ecx` rounds to go: `edi` at the end, and the stores. -/
def based4bits (buf : BitVec 32) : Nat → BitVec 32 → BitVec 32 → BitVec 32 → Screen → BitVec 32 × Screen
  | 0, _, _, edi, s => (edi, s)
  | ecx + 1, eax, edx, edi, s =>
    let edx := edx &&& 0x0000000f
    let s := s.write8 (buf + edi).toNat (digitChar edx)
    let edi := edi - 1
    let eax := eax >>> 4
    let edx := eax
    based4bits buf ecx eax edx edi s

/-- `.skip_prefix_0`: edi and cl at `.put_each_num`; `fuel` bounds the rounds. -/
def skipPrefix0 (buf : BitVec 32) (s : Screen) : Nat → BitVec 32 → Except Stop (BitVec 32 × BitVec 8)
  | 0, _ => .error .diverge
  | fuel + 1, edi =>
    if edi = 8 then .ok (edi, 0x30)
    else
      let cl := s.mem (buf + edi).toNat
      let edi := edi + 1
      if cl = 0x30 then skipPrefix0 buf s fuel edi else .ok (edi - 1, cl)

/-- `.put_each_num` -/
def putEachNum (buf : BitVec 32) : Nat → BitVec 32 → BitVec 8 → Screen → Except Stop Screen
  | 0, _, _, _ => .error .diverge
  | fuel + 1, edi, cl, s => do
    let s ← putChar cl s
    let edi := edi + 1
    let cl := s.mem (buf + edi).toNat
    if edi.slt 8 then putEachNum buf fuel edi cl s else .ok s

def putInt (buf : BitVec 32) (fuel : Nat) (eax : BitVec 32) (s : Screen) : Except Stop Screen := do
  let (edi, s) := based4bits buf 8 eax eax 7 s
  let edi := edi + 1
  let (edi, cl) ← skipPrefix0 buf s fuel edi
  putEachNum buf fuel edi cl s

/-! ## The text of a number -/

/-- "0123456789ABCDEF" -/
def hexDigits : List (BitVec 8) :=
  [0x30, 0x31, 0x32, 0x33, 0x34, 0x35, 0x36, 0x37, 0x38, 0x39, 0x41, 0x42, 0x43, 0x44, 0x45, 0x46]

def hexChar (d : Nat) : BitVec 8 := hexDigits.getD d 0

/-- The value a text stands for in base 16. -/
def hexValue (text : List (BitVec 8)) : Nat := valueOf 16 (text.map hexDigits.idxOf)

structure HexText (n : Nat) (text : List (BitVec 8)) : Prop where
  nonempty : text ≠ []
  short : text.length ≤ 8
  digits : ∀ c ∈ text, c ∈ hexDigits
  value : hexValue text = n
  noZero : n ≠ 0 → text.head? ≠ some 0x30
  zero : n = 0 → text = [0x30]

def hexText (n : Nat) : List (BitVec 8) := if n = 0 then [0x30] else (Nat.digits 16 n).reverse.map hexChar

theorem hexChar_digit : ∀ d, d < 16 → hexChar d ∈ hexDigits ∧ hexDigits.idxOf (hexChar d) = d ∧ (hexChar d = 0x30 ↔ d = 0) ∧
    digitChar (BitVec.ofNat 32 d) = hexChar d := by
  decide

theorem hexText_ok {n : Nat} (h : n < 2 ^ 32) : HexText n (hexText n) := by
  have hlt : ∀ d ∈ Nat.digits 16 n, d < 16 := fun d hd => Nat.digits_lt_base (by decide) hd
  unfold hexText
  by_cases hn : n = 0
  · subst hn
    refine ⟨by decide, by decide, by decide, by decide, fun h => absurd rfl h, fun _ => rfl⟩
  · rw [if_neg hn]
    have hne : Nat.digits 16 n ≠ [] := Nat.digits_ne_nil_iff_ne_zero.mpr hn
    refine ⟨by simpa using hne, ?_, ?_, ?_, ?_, fun h0 => absurd h0 hn⟩
    · rw [List.length_map, List.length_reverse]
      exact (Nat.digits_length_le_iff (by decide) n).mpr (by norm_num; omega)
    · intro c hc
      obtain ⟨d, hd, rfl⟩ := List.mem_map.mp hc
      exact (hexChar_digit d (hlt d (List.mem_reverse.mp hd))).1
    · have hidx : ((Nat.digits 16 n).reverse.map hexChar).map hexDigits.idxOf = (Nat.digits 16 n).reverse := by
        rw [List.map_map]
        refine (List.map_congr_left fun d hd => ?_).trans (List.map_id _)
        exact (hexChar_digit d (hlt d (List.mem_reverse.mp hd))).2.1
      unfold hexValue
      rw [hidx, valueOf_digits]
    · intro _
      have hlast := Nat.getLast_digit_ne_zero 16 hn
      rw [List.head?_map, List.head?_reverse, List.getLast?_eq_some_getLast hne]
      have hd := hlt _ (List.getLast_mem hne)
      intro he
      exact hlast ((hexChar_digit _ hd).2.2.1.mp (Option.some.inj he))

/-! ## The buffer -/

/-- The buffer shows `cs` from cell `k` on. -/
def Cells (buf : BitVec 32) (m : Bytes) : Nat → List (BitVec 8) → Prop
  | _, [] => True
  | k, c :: cs => m (buf + BitVec.ofNat 32 k).toNat = c ∧ Cells buf m (k + 1) cs

/-- The eight addresses of the buffer. -/
def InBuffer (buf : BitVec 32) (a : Nat) : Prop := ∃ k, k < 8 ∧ a = (buf + BitVec.ofNat 32 k).toNat

variable {buf : BitVec 32} {m m' : Bytes} {s s' : Screen} {k : Nat} {cs ds : List (BitVec 8)}

theorem Cells.congr (h : Cells buf m k cs) (hle : k + cs.length ≤ 8) (hm : ∀ a, InBuffer buf a → m' a = m a) :
    Cells buf m' k cs := by
  induction cs generalizing k with
  | nil => trivial
  | cons c cs ih =>
    rw [List.length_cons] at hle
    exact ⟨(hm _ ⟨k, by omega, rfl⟩).trans h.1, ih h.2 (by omega)⟩

theorem Cells.concat {c : BitVec 8} (h : Cells buf m k cs) (hc : m (buf + BitVec.ofNat 32 (k + cs.length)).toNat = c) :
    Cells buf m k (cs ++ [c]) := by
  induction cs generalizing k with
  | nil => exact ⟨hc, trivial⟩
  | cons d cs ih =>
    refine ⟨h.1, ih h.2 ?_⟩
    rw [← hc, List.length_cons]
    congr 4
    omega

theorem cell_ne {i j : Nat} (hi : i < 8) (hj : j < 8) (h : i ≠ j) :
    (buf + BitVec.ofNat 32 i).toNat ≠ (buf + BitVec.ofNat 32 j).toNat := by
  intro he
  have hb : buf + BitVec.ofNat 32 i = buf + BitVec.ofNat 32 j := BitVec.eq_of_toNat_eq he
  bv_omega

/-! ## The digits are stored -/

/-- What the first loop has done: stores into the first `k` cells, where the digits are now. -/
structure Stored (buf : BitVec 32) (k : Nat) (n : BitVec 32) (s s' : Screen) : Prop where
  cells : Cells buf s'.mem 0 ((fixedDigits 16 k n.toNat).map hexChar)
  mem : ∀ a, (∀ i, i < k → a ≠ (buf + BitVec.ofNat 32 i).toNat) → s'.mem a = s.mem a
  writes : ∃ ws, s'.writes = ws ++ s.writes ∧ ∀ a ∈ ws, InBuffer buf a
  crtc : s'.crtc = s.crtc ∧ s'.index = s.index

/-- One digit: the low four bits in the cell, the rest of the number to the cells before. -/
theorem digitChar_low (n : BitVec 32) : digitChar (n &&& 0x0000000f) = hexChar (n.toNat % 16) := by
  have hand : n &&& 0x0000000f = BitVec.ofNat 32 (n.toNat % 16) := by
    apply BitVec.eq_of_toNat_eq
    rw [BitVec.toNat_and, BitVec.toNat_ofNat]
    show n.toNat &&& 15 = _
    rw [Nat.and_two_pow_sub_one_eq_mod n.toNat 4]
    omega
  rw [hand]
  exact (hexChar_digit _ (Nat.mod_lt _ (by decide))).2.2.2

theorem based4bits_stored (buf n : BitVec 32) (s : Screen) (hk : k ≤ 8) :
    ∃ s', based4bits buf k n n (BitVec.ofNat 32 k - 1) s = (-1, s') ∧ Stored buf k n s s' := by
  induction k generalizing n s with
  | zero => exact ⟨s, rfl, trivial, fun _ _ => rfl, ⟨[], rfl, by simp⟩, rfl, rfl⟩
  | succ k ih =>
    have hedi : BitVec.ofNat 32 (k + 1) - 1 = BitVec.ofNat 32 k := by bv_omega
    obtain ⟨s', he, hs⟩ := ih (n >>> 4) (s.write8 (buf + BitVec.ofNat 32 k).toNat (digitChar (n &&& 0x0000000f))) (by omega)
    have hlen : ((fixedDigits 16 k (n >>> 4).toNat).map hexChar).length = k := by simp
    have hdigits : fixedDigits 16 (k + 1) n.toNat = fixedDigits 16 k (n >>> 4).toNat ++ [n.toNat % 16] := by
      rw [fixedDigits, BitVec.toNat_ushiftRight, Nat.shiftRight_eq_div_pow]
    refine ⟨s', ?_, ?_, ?_, ?_, hs.crtc⟩
    · rw [based4bits, hedi]
      exact he
    · rw [hdigits, List.map_append]
      apply hs.cells.concat
      -- the cells before do not overlap this one
      rw [hlen, Nat.zero_add, hs.mem _ fun i hi => cell_ne (by omega) (by omega) (by omega)]
      exact (Bytes.write8_same ..).trans (digitChar_low n)
    · intro a ha
      rw [hs.mem a fun i hi => ha i (by omega)]
      exact Bytes.write8_ne _ _ (ha k (by omega))
    · obtain ⟨ws, hw, hin⟩ := hs.writes
      refine ⟨ws ++ [(buf + BitVec.ofNat 32 k).toNat], by rw [hw, List.append_assoc]; rfl, ?_⟩
      intro a ha
      rcases List.mem_append.mp ha with ha | ha
      · exact hin a ha
      · exact ⟨k, by omega, List.mem_singleton.mp ha⟩

/-! ## The zeros in front are skipped -/

/-- From cell `k` to the end of the buffer. -/
theorem skipPrefix0_spec {fuel : Nat} (h : Cells buf s.mem k cs) (hk : k + cs.length = 8) (hf : cs.length < fuel) :
    skipPrefix0 buf s fuel (BitVec.ofNat 32 k) =
      .ok (BitVec.ofNat 32 (8 - (cs.dropWhile (· = 0x30)).length), ((cs.dropWhile (· = 0x30)).head?).getD 0x30) ∧
      Cells buf s.mem (8 - (cs.dropWhile (· = 0x30)).length) (cs.dropWhile (· = 0x30)) := by
  induction cs generalizing k fuel with
  | nil =>
    obtain ⟨fuel, rfl⟩ := Nat.exists_eq_add_of_lt hf
    have h8 : k = 8 := hk
    subst h8
    exact ⟨by simp [skipPrefix0], trivial⟩
  | cons c cs ih =>
    rw [List.length_cons] at hk hf
    obtain ⟨fuel, rfl⟩ : ∃ f, fuel = f + 1 := ⟨fuel - 1, by omega⟩
    have hne : BitVec.ofNat 32 k ≠ 8 := by bv_omega
    have hnext : BitVec.ofNat 32 k + 1 = BitVec.ofNat 32 (k + 1) := by bv_omega
    obtain ⟨he, hc⟩ := ih h.2 (by omega) (by omega : cs.length < fuel)
    rw [skipPrefix0, if_neg hne, h.1, hnext]
    by_cases h0 : c = 0x30
    · rw [if_pos h0, List.dropWhile_cons_of_pos (by simpa using h0)]
      exact ⟨he, hc⟩
    · have hk' : 8 - (c :: cs).length = k := by rw [List.length_cons]; omega
      rw [if_neg h0, List.dropWhile_cons_of_neg (by simpa using h0), hk']
      refine ⟨?_, h⟩
      rw [← hnext, BitVec.add_sub_cancel]
      rfl

/-! ## The rest is printed -/

/-- What `gs` reaches. -/
def video : Set Nat := Set.Icc textBase (textBase + videoLimit)

theorem textBuffer_video : textBuffer ⊆ video := by
  intro a ha
  have h := Set.mem_Ico.mp ha
  exact Set.mem_Icc.mpr ⟨h.1, by unfold videoLimit; omega⟩

variable {a : Nat} {cl : BitVec 8}

theorem gsStore8_far {off : Nat} {v : BitVec 8} (h : s.gsStore8 off v = .ok s') (ha : a ∉ video) : s'.mem a = s.mem a := by
  unfold Screen.gsStore8 at h
  split at h
  · next hoff =>
    obtain rfl := Except.ok.inj h
    exact Bytes.write8_ne _ _ fun e => ha (e ▸ Set.mem_Icc.mpr ⟨by omega, by omega⟩)
  · cases h

theorem lineFeed_far {bx : BitVec 16} (h : lineFeed bx s = .ok s') (ha : a ∉ video) : s'.mem a = s.mem a := by
  unfold lineFeed at h
  simp only at h
  split at h
  · obtain rfl := Except.ok.inj h
    rfl
  · obtain ⟨s1, he, hd, -⟩ := rollScreen_spec s
    rw [he] at h
    obtain rfl := Except.ok.inj h
    exact hd.mem a fun hin => ha (textBuffer_video hin)

theorem backspace_far {bx : BitVec 16} (h : backspace bx s = .ok s') (ha : a ∉ video) : s'.mem a = s.mem a := by
  unfold backspace at h
  obtain ⟨s1, h1, h⟩ := bind_ok_iff.mp h
  obtain ⟨s2, h2, h⟩ := bind_ok_iff.mp h
  obtain rfl := Except.ok.inj h
  exact (gsStore8_far h2 ha).trans (gsStore8_far h1 ha)

theorem putOther_far {bx : BitVec 16} (h : putOther cl bx s = .ok s') (ha : a ∉ video) : s'.mem a = s.mem a := by
  unfold putOther at h
  obtain ⟨s1, h1, h⟩ := bind_ok_iff.mp h
  obtain ⟨s2, h2, h⟩ := bind_ok_iff.mp h
  have h12 : s2.mem a = s.mem a := (gsStore8_far h2 ha).trans (gsStore8_far h1 ha)
  simp only at h
  split at h
  · obtain rfl := Except.ok.inj h
    exact h12
  · exact (lineFeed_far h ha).trans h12

/-- Wherever the cursor is. -/
theorem putChar_far (h : putChar cl s = .ok s') (ha : a ∉ video) : s'.mem a = s.mem a := by
  by_cases hnl : cl = 0x0d ∨ cl = 0x0a
  · rw [putChar_newline hnl] at h
    have hfar := lineFeed_far h ha
    exact hfar
  · by_cases hb : cl = 0x08
    · subst hb
      rw [putChar_back] at h
      have hfar := backspace_far h ha
      exact hfar
    · rw [putChar_other hnl hb] at h
      have hfar := putOther_far h ha
      exact hfar

/-- The calls of put_char for a text. -/
def putChars (text : List (BitVec 8)) (s : Screen) : Except Stop Screen := text.foldlM (fun s cl => putChar cl s) s

/-- The last cell's round ends the loop, and so does the only one for 0. -/
theorem putEachNum_last {fuel : Nat} {edi : BitVec 32} (h : (edi + 1).slt 8 = false) :
    putEachNum buf (fuel + 1) edi cl s = putChar cl s := by
  unfold putEachNum
  simp only [h, Bool.false_eq_true, if_false]
  exact bind_pure (putChar cl s)

theorem slt_8 : ∀ k, k < 10 → (BitVec.ofNat 32 k).slt 8 = decide (k < 8) := by
  decide

theorem putEachNum_spec {fuel : Nat} (hbuf : ∀ a, InBuffer buf a → a ∉ video) (h : Cells buf s.mem k (cl :: cs))
    (hk : k + (cl :: cs).length = 8) (hf : cs.length < fuel) :
    putEachNum buf fuel (BitVec.ofNat 32 k) cl s = putChars (cl :: cs) s := by
  induction cs generalizing k cl fuel s with
  | nil =>
    obtain ⟨fuel, rfl⟩ : ∃ f, fuel = f + 1 := ⟨fuel - 1, by omega⟩
    rw [List.length_singleton] at hk
    obtain rfl : k = 7 := by omega
    rw [putEachNum_last (by decide)]
    exact (bind_pure (putChar cl s)).symm
  | cons c cs ih =>
    rw [List.length_cons, List.length_cons] at hk
    rw [List.length_cons] at hf
    obtain ⟨fuel, rfl⟩ : ∃ f, fuel = f + 1 := ⟨fuel - 1, by omega⟩
    have hnext : BitVec.ofNat 32 k + 1 = BitVec.ofNat 32 (k + 1) := by bv_omega
    unfold putEachNum
    simp only [hnext, slt_8 (k + 1) (by omega)]
    show (putChar cl s >>= _) = (putChar cl s >>= _)
    cases hput : putChar cl s with
    | error e => rfl
    | ok s' =>
      -- the cells still to be printed are as they were
      have hcells : Cells buf s'.mem (k + 1) (c :: cs) := Cells.congr h.2 (by rw [List.length_cons]; omega) fun a ha =>
        putChar_far hput (hbuf a ha)
      rw [ok_bind, ok_bind, hcells.1, if_pos (by simp; omega)]
      exact ih hcells (by rw [List.length_cons]; omega) (by omega)

/-! ## The whole -/

theorem dropWhile_text {n : Nat} (h : n < 2 ^ 32) :
    ((fixedDigits 16 8 n).map hexChar).dropWhile (· = 0x30) = (Nat.digits 16 n).reverse.map hexChar :=
  dropWhile_fixedDigits hexChar (fun d hd => (hexChar_digit d hd).2.2.1) (by decide) (by norm_num; omega)

theorem putInt_eq {fuel : Nat} (hbuf : ∀ a, InBuffer buf a → a ∉ video) (n : BitVec 32) (s : Screen) (hf : 9 ≤ fuel) :
    ∃ s1, Stored buf 8 n s s1 ∧ putInt buf fuel n s = putChars (hexText n.toNat) s1 := by
  obtain ⟨s1, he, hs⟩ := based4bits_stored buf n s (Nat.le_refl 8)
  refine ⟨s1, hs, ?_⟩
  obtain ⟨hskip, hcells⟩ := skipPrefix0_spec hs.cells (by simp) (by simp; omega : _ < fuel)
  rw [dropWhile_text n.isLt] at hskip hcells
  unfold putInt
  rw [show based4bits buf 8 n n 7 s = (-1, s1) from he]
  show (skipPrefix0 buf s1 fuel (BitVec.ofNat 32 0) >>= _) = _
  rw [hskip, ok_bind]
  simp only
  unfold hexText
  by_cases hn : n.toNat = 0
  · -- one '0', with edi at the end already
    obtain ⟨fuel, rfl⟩ : ∃ f, fuel = f + 1 := ⟨fuel - 1, by omega⟩
    rw [if_pos hn, hn, Nat.digits_zero]
    exact (putEachNum_last (by decide)).trans (bind_pure (putChar 0x30 s1)).symm
  · have hne : (Nat.digits 16 n.toNat).reverse.map hexChar ≠ [] := by
      simpa using Nat.digits_ne_nil_iff_ne_zero.mpr hn
    have hlen : ((Nat.digits 16 n.toNat).reverse.map hexChar).length ≤ 8 := by
      rw [List.length_map, List.length_reverse]
      exact (Nat.digits_length_le_iff (by decide) _).mpr (by norm_num; omega)
    rw [if_neg hn]
    obtain ⟨cl, cs, htext⟩ := List.exists_cons_of_ne_nil hne
    rw [htext] at hcells hlen ⊢
    have hlt : cs.length < fuel := by
      rw [List.length_cons] at hlen
      omega
    exact putEachNum_spec hbuf hcells (Nat.sub_add_cancel hlen) hlt

/-- Every number: the calls of put_char, and what the buffer's stores leave alone before them. -/
theorem put_int_text (buf : BitVec 32) (n : BitVec 32) (s : Screen) (fuel : Nat) (hf : 9 ≤ fuel)
    (hbuf : ∀ a, InBuffer buf a → a ∉ video) :
    HexText n.toNat (hexText n.toNat) ∧ ∃ s1, putInt buf fuel n s = putChars (hexText n.toNat) s1 ∧
      (∃ ws, s1.writes = ws ++ s.writes ∧ ∀ a ∈ ws, InBuffer buf a) ∧ (∀ a, ¬ InBuffer buf a → s1.mem a = s.mem a) ∧
      s1.crtc = s.crtc ∧ s1.index = s.index := by
  obtain ⟨s1, hs, he⟩ := putInt_eq hbuf n s hf
  refine ⟨hexText_ok n.isLt, s1, he, hs.writes, ?_, hs.crtc⟩
  intro a ha
  exact hs.mem a fun i hi e => ha ⟨i, hi, e⟩

/-- 0x2af0, with the buffer below the text buffer. -/
theorem put_int_2af0 : HexText 0x2af0 (hexText 0x2af0) ∧ ∃ s1, putInt 0x9000 9 0x2af0 blankScreen = putChars (hexText 0x2af0) s1 ∧
    (∃ ws, s1.writes = ws ++ blankScreen.writes ∧ ∀ a ∈ ws, InBuffer 0x9000 a) ∧
    (∀ a, ¬ InBuffer 0x9000 a → s1.mem a = blankScreen.mem a) ∧ s1.crtc = blankScreen.crtc ∧ s1.index = blankScreen.index := by
  apply put_int_text 0x9000 0x2af0 blankScreen 9 (Nat.le_refl 9)
  rintro a ⟨k, hk, rfl⟩ hv
  have hlow := (Set.mem_Icc.mp hv).1
  unfold textBase at hlow
  bv_omega

example : hexText 0x2af0 = [0x32, 0x41, 0x46, 0x30] := by simp [hexText, hexChar, hexDigits]

end TinyOs.Lib
