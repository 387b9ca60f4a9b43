/-
  TinyOs.Lib.Overlap — memcpy, strcpy and strcat (lib/string.c) within one memory.

  All three copy upward from byte to byte, and pointers wrap. With the destination `d` bytes
  above the source, memcpy repeats the source's first `d` bytes, so it copies whatever
  is there exactly when `d` is 0 or not below the size (`memcpy_moves`). strcpy and
  strcat stop at the NUL they copy: where `d` is not 0 and not above the string's length
  they write over it before they come to it, and never return (`strcat_returns_iff`).
  So strcat(s, s) ends only on the empty string.
-/

import TinyOs.Lib.String
import TinyOs.Logic.CopyUp

namespace TinyOs.Lib.Overlap

open TinyOs.Logic TinyOs.Logic.X86

/-- How a call ends: with its value and the memory, in `panic_spin`, or not at all. -/
inductive Outcome (α : Type) where
  | returns (r : α) (m : Ram)
  | panics
  | loops

def memcpyLoop : Nat → Word → Word → Ram → Ram
  | 0, _, _, m => m
  | size + 1, dst, src, m => memcpyLoop size (dst + 1) (src + 1) (m.write8 dst (m src))

def memcpy (dst src size : Word) (m : Ram) : Outcome Unit :=
  if dst ≠ 0 ∧ src ≠ 0 then .returns () (memcpyLoop size.toNat dst src m) else .panics

/-- `while((*dst_++ = *src_++))`; `fuel` bounds the rounds. -/
def strcpyFrom : Nat → Word → Word → Ram → Option Ram
  | 0, _, _, _ => none
  | fuel + 1, dst, src, m =>
    let c := m src
    let m := m.write8 dst c
    if c ≠ 0 then strcpyFrom fuel (dst + 1) (src + 1) m else some m

def strcpy (fuel : Nat) (dst src : Word) (m : Ram) : Outcome Word :=
  if dst ≠ 0 ∧ src ≠ 0 then
    match strcpyFrom fuel dst src m with
    | some m => .returns dst m
    | none => .loops
  else .panics

/-- `while(*p1++)`. -/
def skipFrom : Nat → Word → Ram → Option Word
  | 0, _, _ => none
  | fuel + 1, p1, m => if m p1 ≠ 0 then skipFrom fuel (p1 + 1) m else some (p1 + 1)

def strcat (fuel : Nat) (dst src : Word) (m : Ram) : Outcome Word :=
  if dst ≠ 0 ∧ src ≠ 0 then
    match (skipFrom fuel dst m).bind fun p1 => strcpyFrom fuel (p1 - 1) src m with
    | some m => .returns dst m
    | none => .loops
  else .panics

/-- The place of byte `i`. -/
def place (a : Word) (i : Nat) : Word := a + BitVec.ofNat 32 i

/-- The string at `a` has `n` characters. -/
structure Terminated (m : Ram) (a : Word) (n : Nat) : Prop where
  nonZero : ∀ i, i < n → m (place a i) ≠ 0
  nul : m (place a n) = 0

/-- What a copy of `n` bytes is for: they are at `dst`, and the rest of memory is as it was. -/
structure Moved (m m' : Ram) (dst src : Word) (n : Nat) : Prop where
  inside : ∀ i, i < n → m' (place dst i) = m (place src i)
  outside : ∀ x, (∀ i, i < n → x ≠ place dst i) → m' x = m x

/-- A copy that does not write over what it is still to read. -/
def Clear (dst src : Word) (n : Nat) : Prop := dst = src ∨ n ≤ (dst - src).toNat

instance (dst src : Word) (n : Nat) : Decidable (Clear dst src n) := inferInstanceAs (Decidable (_ ∨ _))

/-! ## The places -/

variable {m : Ram} {dst src : Word} {n i j : Nat}

theorem place_succ (a : Word) (i : Nat) : place a i + 1 = place a (i + 1) := by
  unfold place
  rw [BitVec.ofNat_add, ← BitVec.add_assoc]
  rfl

theorem place_ne (a : Word) (h1 : i < j) (h2 : j < i + 2 ^ 32) : place a j ≠ place a i := by
  unfold place
  intro h
  bv_omega

/-- A destination that is not the source is ahead of it, perhaps round the address space. -/
theorem places_ahead (h : dst ≠ src) : Ahead (place src) (place dst) (dst - src).toNat := by
  have hlt := (dst - src).isLt
  refine ⟨?_, ?_, ?_, ?_⟩
  · bv_omega
  · intro i j hj hi
    unfold place
    bv_omega
  · intro i
    unfold place
    bv_omega
  · intro i j h1 h2
    exact place_ne dst h1 (by omega)

theorem took_eq (h : Clear dst src n) (hi : i < n) : took (place src) (place dst) m i = m (place src i) := by
  rcases h with rfl | h
  · unfold took
    rw [copyUp_self fun _ => rfl]
  · by_cases hne : dst = src
    · rw [hne, BitVec.sub_self] at h
      exact absurd (Nat.lt_of_lt_of_le hi h) (Nat.not_lt_zero i)
    · rw [(places_ahead hne).took_mod, Nat.mod_eq_of_lt (by omega)]

/-- After no more than 2^32 steps each place of the destination holds what its step has read. -/
theorem copyUp_place (hn : n ≤ 2 ^ 32) (hi : i < n) :
    copyUp (place src) (place dst) m n (place dst i) = took (place src) (place dst) m i :=
  copyUp_last hi rfl fun _ h1 h2 => place_ne dst h1 (by omega)

theorem Clear.moved (h : Clear dst src n) (hn : n ≤ 2 ^ 32) : Moved m (copyUp (place src) (place dst) m n) dst src n where
  inside _ hi := (copyUp_place hn hi).trans (took_eq h hi)
  outside _ hx := copyUp_far fun i hi e => hx i hi e.symm

/-! ## memcpy -/

theorem memcpyLoop_eq (n i : Nat) : memcpyLoop n (place dst i) (place src i) (copyUp (place src) (place dst) m i) =
    copyUp (place src) (place dst) m (i + n) := by
  induction n generalizing i with
  | zero => rfl
  | succ n ih =>
    rw [memcpyLoop, place_succ, place_succ]
    have hstep := ih (i + 1)
    rwa [Nat.add_right_comm i 1 n] at hstep

theorem memcpy_eq (hd : dst ≠ 0) (hs : src ≠ 0) (size : Word) (m : Ram) :
    memcpy dst src size m = .returns () (copyUp (place src) (place dst) m size.toNat) := by
  have hloop : memcpyLoop size.toNat (place dst 0) (place src 0) m = copyUp (place src) (place dst) m (0 + size.toNat) :=
    memcpyLoop_eq size.toNat 0
  rw [Nat.zero_add, place, place, BitVec.add_zero, BitVec.add_zero] at hloop
  unfold memcpy
  rw [if_pos ⟨hd, hs⟩]
  exact congrArg (Outcome.returns ()) hloop

/-- A byte that the copy loses: the one where the destination begins. -/
def mark (dst : Word) : Ram := fun x => if x = dst then 1 else 0

theorem mark_lost (hne : dst ≠ src) (hn : n ≤ 2 ^ 32) (h : (dst - src).toNat < n) :
    copyUp (place src) (place dst) (mark dst) n (place dst (dst - src).toNat) ≠ mark dst (place src (dst - src).toNat) := by
  have hsrc : place src (dst - src).toNat = dst := by
    unfold place
    bv_omega
  have hfirst : place src 0 ≠ dst := by
    unfold place
    bv_omega
  rw [copyUp_place hn h, (places_ahead hne).took_mod, Nat.mod_self, hsrc]
  unfold mark
  rw [if_neg hfirst, if_pos rfl]
  decide

theorem memcpy_moves (hd : dst ≠ 0) (hs : src ≠ 0) (size : Word) :
    (∀ m, ∃ m', memcpy dst src size m = .returns () m' ∧
      (∀ i, i < size.toNat → m' (place dst i) = m (place src (i % (dst - src).toNat))) ∧
      ∀ x, (∀ i, i < size.toNat → x ≠ place dst i) → m' x = m x) ∧
    ((∀ m, ∃ m', memcpy dst src size m = .returns () m' ∧ Moved m m' dst src size.toNat) ↔ Clear dst src size.toNat) := by
  have hlt := size.isLt
  refine ⟨fun m => ⟨_, memcpy_eq hd hs size m, ?_, fun x hx => copyUp_far fun i hi e => hx i hi e.symm⟩, ?_, ?_⟩
  · intro i hi
    rw [copyUp_place (by omega) hi]
    by_cases hne : dst = src
    · rw [hne, BitVec.sub_self]
      exact (took_eq (.inl rfl) hi).trans (congrArg (m ∘ place src) (Nat.mod_zero i).symm)
    · exact (places_ahead hne).took_mod m i
  · intro hall
    by_contra hno
    have hne : dst ≠ src := fun e => hno (.inl e)
    have hshort : (dst - src).toNat < size.toNat := Nat.not_le.mp fun hle => hno (.inr hle)
    obtain ⟨m', he, hmoved⟩ := hall (mark dst)
    rw [memcpy_eq hd hs] at he
    cases he
    exact mark_lost hne (by omega) hshort (hmoved.inside _ hshort)
  · intro hclear m
    exact ⟨_, memcpy_eq hd hs size m, hclear.moved (by omega)⟩

/-- Ten bytes up by one: the first of them ten times. -/
theorem memcpy_moves_up : (∀ m, ∃ m', memcpy 0x1001 0x1000 10 m = .returns () m' ∧
      (∀ i, i < (10 : Word).toNat → m' (place 0x1001 i) = m (place 0x1000 (i % ((0x1001 : Word) - 0x1000).toNat))) ∧
      ∀ x, (∀ i, i < (10 : Word).toNat → x ≠ place 0x1001 i) → m' x = m x) ∧
    ((∀ m, ∃ m', memcpy 0x1001 0x1000 10 m = .returns () m' ∧ Moved m m' 0x1001 0x1000 (10 : Word).toNat) ↔
      Clear 0x1001 0x1000 (10 : Word).toNat) :=
  memcpy_moves (by decide) (by decide) 10

/-! ## strcpy -/

variable {k fuel : Nat}

/-- The loop ends with the first 0 that it reads. -/
theorem strcpyFrom_ends (hgo : ∀ i, i < n → took (place src) (place dst) m i ≠ 0) (hstop : took (place src) (place dst) m n = 0)
    (hi : i ≤ n) (hf : n - i < fuel) : strcpyFrom fuel (place dst i) (place src i) (copyUp (place src) (place dst) m i) =
      some (copyUp (place src) (place dst) m (n + 1)) := by
  induction fuel generalizing i with
  | zero => omega
  | succ fuel ih =>
    rw [strcpyFrom]
    by_cases e : i = n
    · subst e
      exact if_neg (not_not_intro hstop)
    · refine (if_pos (hgo i (by omega))).trans ?_
      rw [place_succ, place_succ]
      exact ih (by omega) (by omega)

theorem strcpyFrom_loops (hgo : ∀ i, took (place src) (place dst) m i ≠ 0) (fuel i : Nat) :
    strcpyFrom fuel (place dst i) (place src i) (copyUp (place src) (place dst) m i) = none := by
  induction fuel generalizing i with
  | zero => rfl
  | succ fuel ih =>
    rw [strcpyFrom]
    refine (if_pos (hgo i)).trans ?_
    rw [place_succ, place_succ]
    exact ih (i + 1)

theorem place_zero (a : Word) : place a 0 = a := BitVec.add_zero a

theorem Terminated.copied (h : Terminated m src n) (hc : Clear dst src (n + 1)) (hf : n < fuel) :
    strcpyFrom fuel dst src m = some (copyUp (place src) (place dst) m (n + 1)) := by
  have hends : strcpyFrom fuel (place dst 0) (place src 0) m = some (copyUp (place src) (place dst) m (n + 1)) := by
    refine strcpyFrom_ends ?_ ?_ (Nat.zero_le n) (by omega)
    · intro i hi
      rw [took_eq hc (by omega)]
      exact h.nonZero i hi
    · rw [took_eq hc (by omega)]
      exact h.nul
  rwa [place_zero, place_zero] at hends

/-- The NUL is written over before it is read. -/
theorem Terminated.endless (h : Terminated m src n) (hc : ¬ Clear dst src (n + 1)) (fuel : Nat) :
    strcpyFrom fuel dst src m = none := by
  have hne : dst ≠ src := fun e => hc (.inl e)
  have hshort : (dst - src).toNat < n + 1 := Nat.not_le.mp fun hle => hc (.inr hle)
  have hahead := places_ahead hne
  have hpos := hahead.pos
  have hloops : strcpyFrom fuel (place dst 0) (place src 0) m = none := by
    refine strcpyFrom_loops ?_ fuel 0
    intro i
    have hmod := Nat.mod_lt i hpos
    rw [hahead.took_mod]
    exact h.nonZero _ (by omega)
  rwa [place_zero, place_zero] at hloops

/-- A string is shorter than the address space. -/
theorem Terminated.lt (h : Terminated m src n) : n < 2 ^ 32 := by
  by_contra hge
  have hnul := h.nul
  have hsame : place src n = place src (n % 2 ^ 32) := by
    unfold place
    bv_omega
  rw [hsame] at hnul
  exact h.nonZero _ (by omega) hnul

/-- Where it returns, it is the copy of a string that lies elsewhere. -/
theorem strcpyFrom_list {s : List (BitVec 8)} (hs : ∀ i, (hi : i < s.length) → m (place src i) = s[i])
    (h : Terminated m src s.length) (hc : Clear dst src (s.length + 1)) (hf : s.length < fuel) :
    strcpyFrom fuel dst src m = some (Lib.strcpy dst s m) := by
  have hlt := h.lt
  have hmoved : Moved m (copyUp (place src) (place dst) m (s.length + 1)) dst src (s.length + 1) := hc.moved (by omega)
  rw [h.copied hc hf]
  congr 1
  funext x
  have hx : x = place dst (x - dst).toNat := by
    unfold place
    bv_omega
  rcases Nat.lt_trichotomy (x - dst).toNat s.length with hin | hend | hout
  · rw [hx, hmoved.inside _ (by omega), hs _ hin]
    exact (strcpy_at hlt hin).symm
  · rw [hx, hmoved.inside _ (by omega), hend, h.nul]
    exact (strcpy_end hlt).symm
  · rw [strcpy_far hout]
    apply hmoved.outside
    intro i hi e
    rw [e] at hout
    unfold place at hout
    bv_omega

/-! ## strcat -/

theorem skipFrom_eq (h : Terminated m dst k) (hi : i ≤ k) :
    skipFrom fuel (place dst i) m = if k - i < fuel then some (place dst (k + 1)) else none := by
  induction fuel generalizing i with
  | zero => rfl
  | succ fuel ih =>
    rw [skipFrom]
    by_cases e : i = k
    · subst e
      rw [if_neg (not_not_intro h.nul), place_succ, if_pos (by omega)]
    · rw [if_pos (h.nonZero i (by omega)), place_succ, ih (by omega)]
      by_cases hf : k - (i + 1) < fuel
      · rw [if_pos hf, if_pos (by omega)]
      · rw [if_neg hf, if_neg (by omega)]

theorem skipFrom_copy (h : Terminated m dst k) :
    ((skipFrom fuel dst m).bind fun p1 => strcpyFrom fuel (p1 - 1) src m) =
      if k < fuel then strcpyFrom fuel (place dst k) src m else none := by
  have hback : place dst (k + 1) - 1 = place dst k := by
    rw [← place_succ]
    exact BitVec.add_sub_cancel ..
  have hskip : skipFrom fuel (place dst 0) m = if k - 0 < fuel then some (place dst (k + 1)) else none :=
    skipFrom_eq h (Nat.zero_le k)
  rw [place_zero, Nat.sub_zero] at hskip
  rw [hskip]
  by_cases hf : k < fuel
  · rw [if_pos hf, if_pos hf, Option.bind_some, hback]
  · rw [if_neg hf, if_neg hf, Option.bind_none]

/-- Character `n` of one string, counted from the start of the other. -/
theorem place_back (h : (place dst k - src).toNat ≤ k + n) : place src n = place dst (k + n - (place dst k - src).toNat) := by
  generalize hd : place dst k - src = d at h
  have hself : BitVec.ofNat 32 d.toNat = d := by simp
  have hsum : BitVec.ofNat 32 (k + n - d.toNat) + d = BitVec.ofNat 32 k + BitVec.ofNat 32 n := by
    rw [← BitVec.ofNat_add, ← Nat.sub_add_cancel h, BitVec.ofNat_add, hself, Nat.sub_add_cancel h]
  unfold place at *
  grind

/-- The NUL of `src` lies nowhere in the string at `dst`, so the two have room together. -/
theorem Terminated.room (hd : Terminated m dst k) (hs : Terminated m src n) (hc : Clear (place dst k) src (n + 1)) :
    k + n < 2 ^ 32 := by
  rcases hc with e | hle
  · have h0 : n = 0 := by
      by_contra hne
      have hfirst := hs.nonZero 0 (by omega)
      rw [place_zero, ← e] at hfirst
      exact hfirst hd.nul
    have hlt := hd.lt
    omega
  · have hlt := (place dst k - src).isLt
    by_contra hge
    have hin : place src n = place dst (k + n - (place dst k - src).toNat) := place_back (by omega)
    have hchar := hd.nonZero (k + n - (place dst k - src).toNat) (by omega)
    rw [← hin] at hchar
    exact hchar hs.nul

/-- The string of `k` characters at `dst` goes on with that of `n` characters at `src`. -/
theorem Moved.joined {m' : Ram} (h : Moved m m' (place dst k) src (n + 1)) (hd : Terminated m dst k) (hs : Terminated m src n)
    (hroom : k + n < 2 ^ 32) : Terminated m' dst (k + n) := by
  have hplace : ∀ i, place (place dst k) i = place dst (k + i) := by
    intro i
    unfold place
    rw [BitVec.ofNat_add, BitVec.add_assoc]
  refine ⟨?_, ?_⟩
  · intro i hi
    by_cases hk : i < k
    · rw [h.outside]
      · exact hd.nonZero i hk
      · intro j hj e
        rw [hplace] at e
        exact place_ne dst (i := i) (j := k + j) (by omega) (by omega) e.symm
    · have hin := h.inside (i - k) (by omega)
      rw [hplace, Nat.add_sub_cancel' (by omega)] at hin
      rw [hin]
      exact hs.nonZero _ (by omega)
  · have hin := h.inside n (by omega)
    rw [hplace] at hin
    rw [hin]
    exact hs.nul

/-- When strcpy and strcat return, and with what; else they never do. -/
theorem strcat_returns_iff (hd : dst ≠ 0) (hs : src ≠ 0) (hdst : Terminated m dst k) (hsrc : Terminated m src n) :
    (if Clear dst src (n + 1) then
      ∃ m', (∀ fuel, n < fuel → strcpy fuel dst src m = .returns dst m') ∧ Moved m m' dst src (n + 1)
    else ∀ fuel, strcpy fuel dst src m = .loops) ∧
    (if Clear (place dst k) src (n + 1) then
      ∃ m', (∀ fuel, k < fuel → n < fuel → strcat fuel dst src m = .returns dst m') ∧ Moved m m' (place dst k) src (n + 1) ∧
        Terminated m' dst (k + n)
    else ∀ fuel, strcat fuel dst src m = .loops) := by
  have hlt := hsrc.lt
  have hcpy : ∀ fuel, strcpy fuel dst src m = match strcpyFrom fuel dst src m with
      | some m => .returns dst m
      | none => .loops := fun fuel => if_pos ⟨hd, hs⟩
  have hcat : ∀ fuel, strcat fuel dst src m = match (if k < fuel then strcpyFrom fuel (place dst k) src m else none) with
      | some m => .returns dst m
      | none => .loops := by
    intro fuel
    rw [← skipFrom_copy hdst]
    exact if_pos ⟨hd, hs⟩
  constructor
  · by_cases hc : Clear dst src (n + 1)
    · rw [if_pos hc]
      refine ⟨_, ?_, hc.moved (by omega)⟩
      intro fuel hf
      rw [hcpy, hsrc.copied hc hf]
    · rw [if_neg hc]
      intro fuel
      rw [hcpy, hsrc.endless hc]
  · by_cases hc : Clear (place dst k) src (n + 1)
    · have hmoved := hc.moved (m := m) (by omega)
      rw [if_pos hc]
      refine ⟨_, ?_, hmoved, hmoved.joined hdst hsrc (hdst.room hsrc hc)⟩
      intro fuel hk hf
      rw [hcat, if_pos hk, hsrc.copied hc hf]
    · rw [if_neg hc]
      intro fuel
      rw [hcat]
      by_cases hk : k < fuel
      · rw [if_pos hk, hsrc.endless hc]
      · rw [if_neg hk]

/-- "aaa" at 0x1000. -/
def threeAs : Ram := fun x => if 0x1000 ≤ x.toNat ∧ x.toNat < 0x1003 then 0x61 else 0

theorem threeAs_terminated : Terminated threeAs 0x1000 3 := ⟨by decide, by decide⟩

theorem threeAs_returns_iff :
    (if Clear 0x1000 0x1000 (3 + 1) then
      ∃ m', (∀ fuel, 3 < fuel → strcpy fuel 0x1000 0x1000 threeAs = .returns 0x1000 m') ∧ Moved threeAs m' 0x1000 0x1000 (3 + 1)
    else ∀ fuel, strcpy fuel 0x1000 0x1000 threeAs = .loops) ∧
    (if Clear (place 0x1000 3) 0x1000 (3 + 1) then
      ∃ m', (∀ fuel, 3 < fuel → 3 < fuel → strcat fuel 0x1000 0x1000 threeAs = .returns 0x1000 m') ∧
        Moved threeAs m' (place 0x1000 3) 0x1000 (3 + 1) ∧ Terminated m' 0x1000 (3 + 3)
    else ∀ fuel, strcat fuel 0x1000 0x1000 threeAs = .loops) :=
  strcat_returns_iff (by decide) (by decide) threeAs_terminated threeAs_terminated

/-- Onto itself the string can be copied, and not appended. -/
example : Clear 0x1000 0x1000 (3 + 1) ∧ ¬ Clear (place 0x1000 3) 0x1000 (3 + 1) := by decide

end TinyOs.Lib.Overlap
