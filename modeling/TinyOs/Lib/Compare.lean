/-
  TinyOs.Lib.Compare — strcmp, memcmp and strlen (lib/string.c).

  Characters are signed, and strcmp compares the NUL with them as one more. So it is the
  lexicographic order of the strings with their terminators, as numbers from -128 to 127
  (`Parting.strcmp_eq`), and equality, antisymmetry and transitivity are that order's. But
  a byte from 0x80 on comes before the NUL: a string is less than an extension of it only
  where the extension goes on with a byte below 0x80.

  memcmp casts its pointers to the same `char`, and of one byte more than the shorter
  string has it says what strcmp says (`Parting.memcmp_eq`).
-/

import TinyOs.Lib.Search
import TinyOs.Logic.Lex

namespace TinyOs.Lib

open TinyOs.Kernel TinyOs.Logic

/-- `*p`, of a `const char*`. -/
def charAt (m : Bytes) (p : Nat) : Int := (m p).toInt

/-- The loop of `memcmp`. -/
def memcmpFrom (m : Bytes) : Nat → Nat → Nat → Int
  | 0, _, _ => 0
  | size + 1, a, b =>
    if charAt m a ≠ charAt m b then
      if charAt m a > charAt m b then 1 else -1
    else memcmpFrom m size (a + 1) (b + 1)

def memcmp (m : Bytes) (a b size : Nat) : Except Stop Int := do
  assert (a ≠ 0 ∨ b ≠ 0) .memcmpA
  .ok (memcmpFrom m size a b)

/-- `while(*p++)`, with `p` behind it; `fuel` bounds the rounds. -/
def strlenFrom (m : Bytes) : Nat → Nat → Except Stop Nat
  | 0, _ => .error .diverge
  | fuel + 1, p => if charAt m p ≠ 0 then strlenFrom m fuel (p + 1) else .ok (p + 1)

def strlen (m : Bytes) (fuel str : Nat) : Except Stop Nat := do
  assert (str ≠ 0) .strlenStr
  let p ← strlenFrom m fuel str
  .ok ((p - str - 1) % 2 ^ 32)

def strcmpFrom (m : Bytes) : Nat → Nat → Nat → Except Stop Int
  | 0, _, _ => .error .diverge
  | fuel + 1, a, b =>
    if charAt m a ≠ 0 ∧ charAt m a = charAt m b then strcmpFrom m fuel (a + 1) (b + 1)
    else .ok (if charAt m a < charAt m b then -1 else if charAt m a > charAt m b then 1 else 0)

def strcmp (m : Bytes) (fuel a b : Nat) : Except Stop Int := do
  assert (a ≠ 0 ∧ b ≠ 0) .strcmpA
  strcmpFrom m fuel a b

/-- A string that a pointer can be to: in the address space, and not at NULL. -/
structure StringArg (m : Bytes) (a : Nat) (s : List (BitVec 8)) : Prop extends CString m a s where
  notNull : a ≠ 0
  inSpace : a + s.length < 2 ^ 32

/-- The characters, with the NUL. -/
def chars (s : List (BitVec 8)) : List Int := (s ++ [0]).map BitVec.toInt

def Less (m : Bytes) (fuel a b : Nat) : Prop := ∃ r, strcmp m fuel a b = .ok r ∧ r < 0

/-- What is answered for the strings `s` at `a` and `t` at `b`, and with another one at `c`. -/
structure Ordered (m : Bytes) (fuel a b c : Nat) (s t : List (BitVec 8)) : Prop where
  lex : strcmp m fuel a b = .ok (threeWay (chars s) (chars t))
  zero : strcmp m fuel a b = .ok 0 ↔ s = t
  swap : ∃ r, strcmp m fuel a b = .ok r ∧ strcmp m fuel b a = .ok (-r)
  trans : Less m fuel a b → Less m fuel b c → Less m fuel a c
  extension : ∀ x rest, t = s ++ x :: rest → (Less m fuel a b ↔ x.toNat < 128)
  bytes : ∃ la lb, strlen m fuel a = .ok la ∧ strlen m fuel b = .ok lb ∧
    strcmp m fuel a b = memcmp m a b ((min la lb + 1) % 2 ^ 32)

variable {m : Bytes} {a b fuel : Nat} {s t : List (BitVec 8)}

/-! ## Two strings -/

theorem charAt_eq_iff : charAt m a = charAt m b ↔ m a = m b := BitVec.toInt_inj

theorem charAt_eq_zero_iff : charAt m a = 0 ↔ m a = 0 := BitVec.toInt_inj (y := 0)

theorem CString.eq_nil_iff (h : CString m a s) : s = [] ↔ m a = 0 := by
  cases s with
  | nil => exact ⟨fun _ => h.bytes, fun _ => rfl⟩
  | cons c s =>
    obtain ⟨hc, hne, -⟩ := h.tail
    exact ⟨fun e => absurd e (List.cons_ne_nil c s), fun h0 => absurd (hc.symm.trans h0) hne⟩

/-- The first character of a string, or its NUL. -/
theorem CString.chars_head (h : CString m a s) : ∃ rest, chars s = charAt m a :: rest := by
  cases s with
  | nil => exact ⟨[], congrArg (fun c : BitVec 8 => [c.toInt]) h.bytes.symm⟩
  | cons c s => exact ⟨chars s, congrArg (fun c : BitVec 8 => c.toInt :: chars s) h.bytes.1.symm⟩

/-- How two strings come apart: in a character, the NUL among them, or not at all. -/
inductive Parting (m : Bytes) : Nat → Nat → List (BitVec 8) → List (BitVec 8) → Prop
  | differ {a b : Nat} {s t : List (BitVec 8)} (hs : CString m a s) (ht : CString m b t) (h : m a ≠ m b) : Parting m a b s t
  | ended {a b : Nat} (ha : m a = 0) (hb : m b = 0) : Parting m a b [] []
  | same {a b : Nat} {s t : List (BitVec 8)} {c : BitVec 8} (hc : c ≠ 0) (ha : m a = c) (hb : m b = c)
      (h : Parting m (a + 1) (b + 1) s t) : Parting m a b (c :: s) (c :: t)

theorem CString.parting (hs : CString m a s) (ht : CString m b t) : Parting m a b s t := by
  induction s generalizing a b t with
  | nil =>
    by_cases h : m a = m b
    · have ha : m a = 0 := hs.bytes
      have hb : m b = 0 := h.symm.trans ha
      obtain rfl := ht.eq_nil_iff.mpr hb
      exact .ended ha hb
    · exact .differ hs ht h
  | cons c s ih =>
    by_cases h : m a = m b
    · obtain ⟨ha, hc, hs'⟩ := hs.tail
      have hb : m b = c := h.symm.trans ha
      cases t with
      | nil => exact absurd (hb.symm.trans ht.bytes) hc
      | cons d t =>
        obtain ⟨hd, -, ht'⟩ := ht.tail
        obtain rfl := hb.symm.trans hd
        exact .same hc ha hb (ih hs' ht')
    · exact .differ hs ht h

/-! ## The loops -/

theorem strcmpFrom_differ (h : m a ≠ m b) (fuel : Nat) :
    strcmpFrom m (fuel + 1) a b = .ok (threeWay (charAt m a) (charAt m b)) :=
  if_neg fun hc => h (charAt_eq_iff.mp hc.2)

/-- At the NUL the loop ends, the other string having one too or not. -/
theorem strcmpFrom_ended (ha : m a = 0) (fuel : Nat) :
    strcmpFrom m (fuel + 1) a b = .ok (threeWay (charAt m a) (charAt m b)) :=
  if_neg fun hc => hc.1 (charAt_eq_zero_iff.mpr ha)

theorem strcmpFrom_same (ha : m a ≠ 0) (h : m a = m b) (fuel : Nat) :
    strcmpFrom m (fuel + 1) a b = strcmpFrom m fuel (a + 1) (b + 1) :=
  if_pos ⟨fun e => ha (charAt_eq_zero_iff.mp e), charAt_eq_iff.mpr h⟩

theorem memcmpFrom_differ (h : m a ≠ m b) (size : Nat) : memcmpFrom m (size + 1) a b = threeWay (charAt m a) (charAt m b) := by
  have hne : charAt m a ≠ charAt m b := fun e => h (charAt_eq_iff.mp e)
  rw [memcmpFrom, if_pos hne]
  rcases lt_or_gt_of_ne hne with hlt | hgt
  · rw [if_neg hlt.not_gt, threeWay_of_lt hlt]
  · rw [if_pos hgt, threeWay_of_gt hgt]

theorem memcmpFrom_same (h : m a = m b) (size : Nat) : memcmpFrom m (size + 1) a b = memcmpFrom m size (a + 1) (b + 1) :=
  if_neg fun hne => hne (charAt_eq_iff.mpr h)

theorem Parting.strcmp_eq (h : Parting m a b s t) (hf : s.length < fuel) :
    strcmpFrom m fuel a b = .ok (threeWay (chars s) (chars t)) := by
  induction h generalizing fuel with
  | differ hs ht h =>
    obtain ⟨fuel, rfl⟩ : ∃ f, fuel = f + 1 := ⟨fuel - 1, by omega⟩
    obtain ⟨rest, es⟩ := hs.chars_head
    obtain ⟨rest', et⟩ := ht.chars_head
    rw [strcmpFrom_differ h, es, et, threeWay_cons_of_ne fun e => h (charAt_eq_iff.mp e)]
  | ended ha hb =>
    obtain ⟨fuel, rfl⟩ : ∃ f, fuel = f + 1 := Nat.exists_eq_add_one.mpr hf
    rw [strcmpFrom_ended ha, charAt_eq_iff.mpr (ha.trans hb.symm), threeWay_self, threeWay_self]
  | same hc ha hb _ ih =>
    rw [List.length_cons] at hf
    obtain ⟨fuel, rfl⟩ : ∃ f, fuel = f + 1 := ⟨fuel - 1, by omega⟩
    rw [strcmpFrom_same (ha.trans_ne hc) (ha.trans hb.symm), ih (by omega)]
    exact congrArg _ (threeWay_cons_self _ _ _).symm

theorem Parting.memcmp_eq (h : Parting m a b s t) (hf : s.length < fuel) :
    strcmpFrom m fuel a b = .ok (memcmpFrom m (min s.length t.length + 1) a b) := by
  induction h generalizing fuel with
  | differ hs ht h =>
    obtain ⟨fuel, rfl⟩ : ∃ f, fuel = f + 1 := ⟨fuel - 1, by omega⟩
    rw [strcmpFrom_differ h, memcmpFrom_differ h]
  | ended ha hb =>
    have heq := ha.trans hb.symm
    obtain ⟨fuel, rfl⟩ : ∃ f, fuel = f + 1 := Nat.exists_eq_add_one.mpr hf
    rw [strcmpFrom_ended ha, memcmpFrom_same heq, charAt_eq_iff.mpr heq, threeWay_self]
    rfl
  | same hc ha hb _ ih =>
    have heq := ha.trans hb.symm
    rw [List.length_cons] at hf
    obtain ⟨fuel, rfl⟩ : ∃ f, fuel = f + 1 := ⟨fuel - 1, by omega⟩
    rw [strcmpFrom_same (ha.trans_ne hc) heq, ih (by omega), List.length_cons, List.length_cons, Nat.succ_min_succ,
      memcmpFrom_same heq]

theorem strlenFrom_eq (h : CString m a s) (hf : s.length < fuel) : strlenFrom m fuel a = .ok (a + s.length + 1) := by
  induction s generalizing a fuel with
  | nil =>
    obtain ⟨fuel, rfl⟩ : ∃ f, fuel = f + 1 := Nat.exists_eq_add_one.mpr hf
    exact if_neg fun hne => hne (charAt_eq_zero_iff.mpr h.bytes)
  | cons c s ih =>
    rw [List.length_cons] at hf ⊢
    obtain ⟨fuel, rfl⟩ : ∃ f, fuel = f + 1 := ⟨fuel - 1, by omega⟩
    obtain ⟨hc, hne, htail⟩ := h.tail
    rw [strlenFrom, if_pos fun e => hne (hc.symm.trans (charAt_eq_zero_iff.mp e)), ih htail (by omega)]
    congr 1
    omega

/-! ## The order -/

theorem chars_inj : chars s = chars t ↔ s = t := by
  have hinj : Function.Injective fun x : BitVec 8 => x.toInt := fun _ _ => BitVec.eq_of_toInt_eq
  exact hinj.list_map.eq_iff.trans (List.append_left_inj [0])

/-- What comes behind the NUL. -/
theorem positive_iff {x : BitVec 8} (h : x ≠ 0) : 0 < x.toInt ↔ x.toNat < 128 := by
  have hne : x.toNat ≠ 0 := fun e => h (BitVec.eq_of_toNat_eq e)
  rw [BitVec.toInt_eq_toNat_cond]
  split <;> omega

theorem StringArg.strcmp_eq (hs : StringArg m a s) (ht : StringArg m b t) (hf : s.length < fuel) :
    strcmp m fuel a b = .ok (threeWay (chars s) (chars t)) := by
  unfold strcmp
  rw [decide_eq_true (And.intro hs.notNull ht.notNull)]
  exact (hs.toCString.parting ht.toCString).strcmp_eq hf

theorem StringArg.less_iff (hs : StringArg m a s) (ht : StringArg m b t) (hf : s.length < fuel) :
    Less m fuel a b ↔ threeWay (chars s) (chars t) < 0 := by
  unfold Less
  rw [hs.strcmp_eq ht hf]
  constructor
  · intro h
    obtain ⟨r, hr, hneg⟩ := h
    rwa [Except.ok.inj hr]
  · intro h
    exact ⟨_, rfl, h⟩

theorem StringArg.strlen_eq (h : StringArg m a s) (hf : s.length < fuel) : strlen m fuel a = .ok s.length := by
  have hlen := h.inSpace
  have hsub : (a + s.length + 1 - a - 1) % 2 ^ 32 = s.length := by omega
  unfold strlen
  rw [decide_eq_true h.notNull, strlenFrom_eq h.toCString hf]
  exact congrArg _ hsub

/-- The size does not wrap. -/
theorem StringArg.memcmp_eq (hs : StringArg m a s) (ht : StringArg m b t) (hf : s.length < fuel) :
    strcmp m fuel a b = memcmp m a b ((min s.length t.length + 1) % 2 ^ 32) := by
  have hsize : (min s.length t.length + 1) % 2 ^ 32 = min s.length t.length + 1 := by
    have ha := hs.notNull
    have hin := hs.inSpace
    omega
  unfold strcmp memcmp
  rw [hsize, decide_eq_true (And.intro hs.notNull ht.notNull), decide_eq_true (Or.inl hs.notNull)]
  exact (hs.toCString.parting ht.toCString).memcmp_eq hf

theorem StringArg.extension_iff {x : BitVec 8} {rest : List (BitVec 8)} (hs : StringArg m a s)
    (ht : StringArg m b (s ++ x :: rest)) (hf : s.length < fuel) : Less m fuel a b ↔ x.toNat < 128 := by
  have hx : x ≠ 0 := by
    rintro rfl
    exact ht.nonZero (by simp)
  have hne : (0 : BitVec 8).toInt ≠ x.toInt := fun e => hx (BitVec.eq_of_toInt_eq e).symm
  have hchars : threeWay (chars s) (chars (s ++ x :: rest)) = threeWay (0 : BitVec 8).toInt x.toInt := by
    unfold chars
    rw [List.map_append, List.append_assoc, List.map_append]
    exact threeWay_extension hne _ _
  rw [hs.less_iff ht hf, hchars, threeWay_neg_iff]
  exact positive_iff hx

theorem strcmp_ordered (m : Bytes) (fuel a b c : Nat) (s t u : List (BitVec 8)) (hs : StringArg m a s) (ht : StringArg m b t)
    (hu : StringArg m c u) (hfs : s.length < fuel) (hft : t.length < fuel) : Ordered m fuel a b c s t := by
  refine ⟨hs.strcmp_eq ht hfs, ?_, ⟨_, hs.strcmp_eq ht hfs, ?_⟩, ?_, ?_, ?_⟩
  · rw [hs.strcmp_eq ht hfs, Except.ok.injEq, threeWay_eq_zero_iff, chars_inj]
  · rw [ht.strcmp_eq hs hft, threeWay_swap]
  · rw [hs.less_iff ht hfs, ht.less_iff hu hft, hs.less_iff hu hfs, threeWay_neg_iff, threeWay_neg_iff, threeWay_neg_iff]
    exact lt_trans
  · rintro x rest rfl
    exact hs.extension_iff ht hfs
  · exact ⟨_, _, hs.strlen_eq hfs, ht.strlen_eq hft, hs.memcmp_eq ht hfs⟩

/-- "a" at 0x100, "ab" at 0x200, "b" at 0x300. -/
def threeStrings : Bytes := fun x => if x = 0x100 ∨ x = 0x200 then 0x61 else if x = 0x201 ∨ x = 0x300 then 0x62 else 0

theorem three_ordered : Ordered threeStrings 3 0x100 0x200 0x300 [0x61] [0x61, 0x62] :=
  strcmp_ordered threeStrings 3 0x100 0x200 0x300 [0x61] [0x61, 0x62] [0x62]
    ⟨⟨⟨rfl, rfl⟩, by decide⟩, by decide, by decide⟩ ⟨⟨⟨rfl, rfl, rfl⟩, by decide⟩, by decide, by decide⟩
    ⟨⟨⟨rfl, rfl⟩, by decide⟩, by decide, by decide⟩ (by decide) (by decide)

/-- The byte 0xe9 at 0x200; the empty string is everywhere else. -/
def highByte : Bytes := fun x => if x = 0x200 then 0xe9 else 0

/-- The empty string is a proper prefix of every other one. -/
theorem prefix_greater : StringArg highByte 0x100 [] ∧ StringArg highByte 0x200 [0xe9] ∧
    strcmp highByte 2 0x100 0x200 = .ok 1 ∧
    ¬ ∀ m fuel a b s t x rest, StringArg m a s → StringArg m b t → s.length < fuel → t.length < fuel →
      t = s ++ x :: rest → Less m fuel a b := by
  have hs : StringArg highByte 0x100 [] := ⟨⟨rfl, by decide⟩, by decide, by decide⟩
  have ht : StringArg highByte 0x200 [0xe9] := ⟨⟨⟨rfl, rfl⟩, by decide⟩, by decide, by decide⟩
  refine ⟨hs, ht, rfl, ?_⟩
  intro hall
  obtain ⟨r, hr, hneg⟩ := hall highByte 2 0x100 0x200 [] [0xe9] 0xe9 [] hs ht (by decide) (by decide) rfl
  obtain rfl : 1 = r := Except.ok.inj hr
  exact absurd hneg (by decide)

end TinyOs.Lib
