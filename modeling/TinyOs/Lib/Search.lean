/-
  TinyOs.Lib.Search — strchr, strrchr and strchrs (lib/string.c).

  The three loops compare `*p == ch` where `*p` is a signed char and `ch` a `uint8_t`:
  both become `int`, the first by its sign, the second by zeros. So a byte from 0x80 on
  is a negative number on the left and never equal to anything on the right
  (`isChar_iff`), although it is the byte that was asked for.

  The loops agree with one another on what they compare equal (`strchr_spec`,
  `strrchr_spec`, `strchrs_spec`), and with the bytes for a character below 0x80, or one that the
  string does not contain (`search_iff`).
-/

import Mathlib.Data.List.Basic
import TinyOs.Kernel.Debug
import TinyOs.Lib.PutStr

namespace TinyOs.Lib

open TinyOs.Kernel TinyOs.Logic

/-- `*p == ch`, of a `char` and a `uint8_t`. -/
def isChar (ch c : BitVec 8) : Bool := c.signExtend 32 == ch.setWidth 32

/-- The loop of `strchr`, NULL as 0; `fuel` bounds the rounds. -/
def strchrFrom (m : Bytes) (ch : BitVec 8) : Nat → Nat → Except Stop Nat
  | 0, _ => .error .diverge
  | fuel + 1, p =>
    if m p ≠ 0 then
      if isChar ch (m p) then .ok p else strchrFrom m ch fuel (p + 1)
    else .ok 0

def strrchrFrom (m : Bytes) (ch : BitVec 8) : Nat → Nat → Nat → Except Stop Nat
  | 0, _, _ => .error .diverge
  | fuel + 1, p, lastChar =>
    if m p ≠ 0 then strrchrFrom m ch fuel (p + 1) (if isChar ch (m p) then p else lastChar) else .ok lastChar

def strchrsFrom (m : Bytes) (ch : BitVec 8) : Nat → Nat → Nat → Except Stop Nat
  | 0, _, _ => .error .diverge
  | fuel + 1, p, chCnt =>
    if m p ≠ 0 then strchrsFrom m ch fuel (p + 1) (if isChar ch (m p) then chCnt + 1 else chCnt) else .ok chCnt

def strchr (m : Bytes) (fuel str : Nat) (ch : BitVec 8) : Except Stop Nat := do
  assert (str ≠ 0) .strchrStr
  strchrFrom m ch fuel str

def strrchr (m : Bytes) (fuel str : Nat) (ch : BitVec 8) : Except Stop Nat := do
  assert (str ≠ 0) .strrchrStr
  strrchrFrom m ch fuel str 0

def strchrs (m : Bytes) (fuel str : Nat) (ch : BitVec 8) : Except Stop Nat := do
  assert (str ≠ 0) .strchrsStr
  strchrsFrom m ch fuel str 0

/-- A string without a NUL in it, and the NUL behind. -/
structure CString (m : Bytes) (a : Nat) (s : List (BitVec 8)) : Prop where
  bytes : StringAt m a s
  nonZero : 0 ∉ s

/-- What the comparison is true for. -/
theorem isChar_iff (ch c : BitVec 8) : isChar ch c = true ↔ c = ch ∧ ch.toNat < 128 := by
  unfold isChar
  rw [beq_iff_eq]
  constructor
  · intro h
    have hn := congrArg BitVec.toNat h
    rw [BitVec.toNat_signExtend, BitVec.toNat_setWidth, BitVec.toNat_setWidth, BitVec.msb_eq_decide] at hn
    have hc := c.isLt
    have hch := ch.isLt
    refine ⟨BitVec.eq_of_toNat_eq ?_, ?_⟩
    · split at hn <;> simp at * <;> omega
    · split at hn <;> simp at * <;> omega
  · rintro ⟨rfl, h⟩
    have hmsb : c.msb = false := by
      rw [BitVec.msb_eq_decide]
      simpa using h
    exact BitVec.signExtend_eq_setWidth_of_msb_false hmsb

variable {m : Bytes} {ch : BitVec 8} {p a fuel : Nat} {s : List (BitVec 8)}

theorem CString.tail {c : BitVec 8} (h : CString m p (c :: s)) : m p = c ∧ c ≠ 0 ∧ CString m (p + 1) s :=
  ⟨h.bytes.1, fun e => h.nonZero (e ▸ List.mem_cons_self), h.bytes.2, fun hm => h.nonZero (List.mem_cons_of_mem c hm)⟩

/-! ## The loops -/

/-- The first byte that compares equal. -/
theorem strchr_spec (ch : BitVec 8) (h : CString m p s) (hf : s.length < fuel) :
    (∀ c ∈ s, isChar ch c = false) ∧ strchrFrom m ch fuel p = .ok 0 ∨
      ∃ pre c post, s = pre ++ c :: post ∧ isChar ch c = true ∧ (∀ x ∈ pre, isChar ch x = false) ∧
        strchrFrom m ch fuel p = .ok (p + pre.length) := by
  induction s generalizing p fuel with
  | nil =>
    obtain ⟨fuel, rfl⟩ : ∃ f, fuel = f + 1 := Nat.exists_eq_add_one.mpr hf
    exact .inl ⟨by simp, if_neg fun hne => hne h.bytes⟩
  | cons c s ih =>
    rw [List.length_cons] at hf
    obtain ⟨fuel, rfl⟩ : ∃ f, fuel = f + 1 := ⟨fuel - 1, by omega⟩
    obtain ⟨hc, hne, htail⟩ := h.tail
    have hstep : strchrFrom m ch (fuel + 1) p = if isChar ch c then .ok p else strchrFrom m ch fuel (p + 1) := by
      rw [strchrFrom, hc, if_pos hne]
    rw [hstep]
    by_cases hhit : isChar ch c = true
    · exact .inr ⟨[], c, s, rfl, hhit, by simp, by rw [if_pos hhit]; rfl⟩
    · have hmiss : isChar ch c = false := by simpa using hhit
      rw [if_neg hhit]
      rcases ih htail (by omega : s.length < fuel) with ⟨hno, he⟩ | ⟨pre, x, post, rfl, hx, hpre, he⟩
      · exact .inl ⟨by simpa using ⟨hmiss, hno⟩, he⟩
      · refine .inr ⟨c :: pre, x, post, rfl, hx, by simpa using ⟨hmiss, hpre⟩, ?_⟩
        rw [he, List.length_cons]
        congr 1
        omega

/-- The last one, or what was found before. -/
theorem strrchr_spec (ch : BitVec 8) (lastChar : Nat) (h : CString m p s) (hf : s.length < fuel) :
    (∀ c ∈ s, isChar ch c = false) ∧ strrchrFrom m ch fuel p lastChar = .ok lastChar ∨
      ∃ pre c post, s = pre ++ c :: post ∧ isChar ch c = true ∧ (∀ x ∈ post, isChar ch x = false) ∧
        strrchrFrom m ch fuel p lastChar = .ok (p + pre.length) := by
  induction s generalizing p fuel lastChar with
  | nil =>
    obtain ⟨fuel, rfl⟩ : ∃ f, fuel = f + 1 := Nat.exists_eq_add_one.mpr hf
    exact .inl ⟨by simp, if_neg fun hne => hne h.bytes⟩
  | cons c s ih =>
    rw [List.length_cons] at hf
    obtain ⟨fuel, rfl⟩ : ∃ f, fuel = f + 1 := ⟨fuel - 1, by omega⟩
    obtain ⟨hc, hne, htail⟩ := h.tail
    have hstep : strrchrFrom m ch (fuel + 1) p lastChar =
        strrchrFrom m ch fuel (p + 1) (if isChar ch c then p else lastChar) := by
      rw [strrchrFrom, hc, if_pos hne]
    rw [hstep]
    rcases ih (if isChar ch c then p else lastChar) htail (by omega : s.length < fuel) with
      ⟨hno, he⟩ | ⟨pre, x, post, rfl, hx, hpost, he⟩
    · by_cases hhit : isChar ch c = true
      · refine .inr ⟨[], c, s, rfl, hhit, hno, ?_⟩
        rw [he, if_pos hhit]
        rfl
      · refine .inl ⟨by simpa using ⟨by simpa using hhit, hno⟩, ?_⟩
        rw [he, if_neg hhit]
    · refine .inr ⟨c :: pre, x, post, rfl, hx, hpost, ?_⟩
      rw [he, List.length_cons]
      congr 1
      omega

theorem strchrs_spec {chCnt : Nat} (h : CString m p s) (hf : s.length < fuel) :
    strchrsFrom m ch fuel p chCnt = .ok (chCnt + s.countP (isChar ch)) := by
  induction s generalizing p fuel chCnt with
  | nil =>
    obtain ⟨fuel, rfl⟩ : ∃ f, fuel = f + 1 := Nat.exists_eq_add_one.mpr hf
    exact if_neg fun hne => hne h.bytes
  | cons c s ih =>
    rw [List.length_cons] at hf
    obtain ⟨fuel, rfl⟩ : ∃ f, fuel = f + 1 := ⟨fuel - 1, by omega⟩
    obtain ⟨hc, hne, htail⟩ := h.tail
    rw [strchrsFrom, hc, if_pos hne, ih htail (by omega), List.countP_cons]
    congr 1
    split <;> omega

/-! ## Against the bytes -/

/-- The answers for the byte `ch`: how often it occurs, where first, where last, and NULL where it does not. -/
structure Finds (m : Bytes) (fuel a : Nat) (s : List (BitVec 8)) (ch : BitVec 8) : Prop where
  count : strchrs m fuel a ch = .ok (s.count ch)
  first : ∀ pre post, s = pre ++ ch :: post → ch ∉ pre → strchr m fuel a ch = .ok (a + pre.length)
  last : ∀ pre post, s = pre ++ ch :: post → ch ∉ post → strrchr m fuel a ch = .ok (a + pre.length)
  none : s.count ch = 0 ↔ strchr m fuel a ch = .ok 0
  noneLast : s.count ch = 0 ↔ strrchr m fuel a ch = .ok 0

theorem strchr_eq (ha : a ≠ 0) : strchr m fuel a ch = strchrFrom m ch fuel a := by
  unfold strchr
  rw [decide_eq_true ha]
  rfl

theorem strrchr_eq (ha : a ≠ 0) : strrchr m fuel a ch = strrchrFrom m ch fuel a 0 := by
  unfold strrchr
  rw [decide_eq_true ha]
  rfl

theorem strchrs_eq (ha : a ≠ 0) : strchrs m fuel a ch = strchrsFrom m ch fuel a 0 := by
  unfold strchrs
  rw [decide_eq_true ha]
  rfl

/-- Two splits at a byte that comes in neither part before it. -/
theorem split_first {pre pre' post post' : List (BitVec 8)} (h : pre ++ ch :: post = pre' ++ ch :: post') (hpre : ch ∉ pre)
    (hpre' : ch ∉ pre') : pre.length = pre'.length := by
  have h1 : (pre ++ ch :: post).idxOf ch = pre.length := by rw [List.idxOf_append_of_notMem hpre, List.idxOf_cons_self]; rfl
  have h2 : (pre' ++ ch :: post').idxOf ch = pre'.length := by rw [List.idxOf_append_of_notMem hpre', List.idxOf_cons_self]; rfl
  rw [← h1, ← h2, h]

theorem split_last {pre pre' post post' : List (BitVec 8)} (h : pre ++ ch :: post = pre' ++ ch :: post') (hpost : ch ∉ post)
    (hpost' : ch ∉ post') : pre.length = pre'.length := by
  have hlen := congrArg List.length h
  have hrev : post.reverse ++ ch :: pre.reverse = post'.reverse ++ ch :: pre'.reverse := by
    simpa using congrArg List.reverse h
  have hpost := split_first hrev (by simpa using hpost) (by simpa using hpost')
  simp only [List.length_append, List.length_cons, List.length_reverse] at hlen hpost
  omega

/-! Where the comparison is true of the byte itself and of no other. -/

section

variable (hagree : ∀ c ∈ s, isChar ch c = true ↔ c = ch)

include hagree

theorem missed {l : List (BitVec 8)} (hl : l ⊆ s) (hno : ∀ x ∈ l, isChar ch x = false) : ch ∉ l := by
  intro hmem
  have hhit : isChar ch ch = true := (hagree ch (hl hmem)).mpr rfl
  rw [hno ch hmem] at hhit
  cases hhit

theorem strchr_byte (h : CString m a s) (ha : a ≠ 0) (hf : s.length < fuel) :
    ch ∉ s ∧ strchr m fuel a ch = .ok 0 ∨
      ∃ pre post, s = pre ++ ch :: post ∧ ch ∉ pre ∧ strchr m fuel a ch = .ok (a + pre.length) := by
  rw [strchr_eq ha]
  rcases strchr_spec ch h hf with ⟨hno, he⟩ | ⟨pre, c, post, hs, hc, hpre, he⟩
  · exact .inl ⟨missed hagree (List.Subset.refl s) hno, he⟩
  · obtain rfl := (hagree c (by rw [hs]; simp)).mp hc
    exact .inr ⟨pre, post, hs, missed hagree (by rw [hs]; exact List.subset_append_left ..) hpre, he⟩

theorem strrchr_byte (h : CString m a s) (ha : a ≠ 0) (hf : s.length < fuel) :
    ch ∉ s ∧ strrchr m fuel a ch = .ok 0 ∨
      ∃ pre post, s = pre ++ ch :: post ∧ ch ∉ post ∧ strrchr m fuel a ch = .ok (a + pre.length) := by
  rw [strrchr_eq ha]
  rcases strrchr_spec ch 0 h hf with ⟨hno, he⟩ | ⟨pre, c, post, hs, hc, hpost, he⟩
  · exact .inl ⟨missed hagree (List.Subset.refl s) hno, he⟩
  · obtain rfl := (hagree c (by rw [hs]; simp)).mp hc
    exact .inr ⟨pre, post, hs, missed hagree (by rw [hs]; intro x hx; simp [hx]) hpost, he⟩

end

/-- An address in the string is not NULL. -/
theorem null_iff {e : Except Stop Nat} {P : List (BitVec 8) → List (BitVec 8) → Prop} (ha : a ≠ 0)
    (h : ch ∉ s ∧ e = .ok 0 ∨ ∃ pre post, s = pre ++ ch :: post ∧ P pre post ∧ e = .ok (a + pre.length)) :
    s.count ch = 0 ↔ e = .ok 0 := by
  rw [List.count_eq_zero]
  rcases h with ⟨hno, he⟩ | ⟨pre, post, hs, -, he⟩
  · exact ⟨fun _ => he, fun _ => hno⟩
  · rw [he, Except.ok.injEq]
    exact ⟨fun hn => absurd (by rw [hs]; simp) hn, fun h0 => by omega⟩

theorem Finds.of_agree (h : CString m a s) (ha : a ≠ 0) (hf : s.length < fuel)
    (hagree : ∀ c ∈ s, isChar ch c = true ↔ c = ch) : Finds m fuel a s ch := by
  have hfirst := strchr_byte hagree h ha hf
  have hlast := strrchr_byte hagree h ha hf
  have hcount : s.countP (isChar ch) = s.count ch := by
    refine List.countP_congr fun c hc => ?_
    rw [hagree c hc, beq_iff_eq]
  refine ⟨?_, ?_, ?_, null_iff ha hfirst, null_iff ha hlast⟩
  · rw [strchrs_eq ha, strchrs_spec h hf, hcount, Nat.zero_add]
  · intro pre post hs hpre
    rcases hfirst with ⟨hno, -⟩ | ⟨pre', post', hs', hpre', he⟩
    · exact absurd (by rw [hs]; simp) hno
    · rw [he, split_first (hs.symm.trans hs') hpre hpre']
  · intro pre post hs hpost
    rcases hlast with ⟨hno, -⟩ | ⟨pre', post', hs', hpost', he⟩
    · exact absurd (by rw [hs]; simp) hno
    · rw [he, split_last (hs.symm.trans hs') hpost hpost']

theorem search_iff (m : Bytes) (fuel a : Nat) (s : List (BitVec 8)) (ch : BitVec 8) (h : CString m a s) (ha : a ≠ 0)
    (hf : s.length < fuel) : Finds m fuel a s ch ↔ ch.toNat < 128 ∨ ch ∉ s := by
  constructor
  · intro hfinds
    by_contra hno
    obtain ⟨hhigh, hmem⟩ := not_or.mp hno
    have hmem : ch ∈ s := by simpa using hmem
    have hzero : s.countP (isChar ch) = 0 :=
      List.countP_eq_zero.mpr fun c _ hc => hhigh ((isChar_iff ch c).mp hc).2
    have hcount := hfinds.count
    rw [strchrs_eq ha, strchrs_spec h hf, hzero, Except.ok.injEq] at hcount
    have hpos : 0 < s.count ch := List.count_pos_iff.mpr hmem
    omega
  · intro hor
    refine Finds.of_agree h ha hf fun c hc => ?_
    rw [isChar_iff]
    refine ⟨fun hcc => hcc.1, ?_⟩
    rintro rfl
    exact ⟨rfl, hor.resolve_right fun hn => hn hc⟩

/-- "abca" at 0x100. -/
def abca : Bytes := fun x => if x = 0x100 ∨ x = 0x103 then 0x61 else if x = 0x101 then 0x62 else if x = 0x102 then 0x63 else 0

theorem search_abca : Finds abca 5 0x100 [0x61, 0x62, 0x63, 0x61] 0x61 :=
  (search_iff abca 5 0x100 [0x61, 0x62, 0x63, 0x61] 0x61 ⟨⟨rfl, rfl, rfl, rfl, rfl⟩, by decide⟩ (by decide) (by decide)).mpr
    (.inl (by decide))

/-- A byte 0xe9 is not found in the string that consists of it. -/
theorem high_byte_lost : ∃ m fuel a s ch, CString m a s ∧ a ≠ 0 ∧ s.length < fuel ∧ ch ≠ 0 ∧ s.count ch = 1 ∧
    strchr m fuel a ch = .ok 0 ∧ strrchr m fuel a ch = .ok 0 ∧ strchrs m fuel a ch = .ok 0 ∧ ¬ Finds m fuel a s ch := by
  refine ⟨fun x => if x = 0x100 then 0xe9 else 0, 2, 0x100, [0xe9], 0xe9, ⟨⟨rfl, rfl⟩, by decide⟩, by decide, by decide, by decide,
    by decide, rfl, rfl, rfl, ?_⟩
  intro h
  exact absurd h.count (by decide)

end TinyOs.Lib
