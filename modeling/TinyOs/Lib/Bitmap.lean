/-
  TinyOs.Lib.Bitmap — the allocation bitmaps of lib/kernel/bitmap.c.

  A bitmap is a length in bytes and the address of its bytes in the kernel's data; it
  does not own them, so a bit set past the length falls on whatever lies behind.
  `bitmap_scan` counts in an `int`, so a bitmap has fewer than 2^31 bits.

  `bitmapScan_one` and `bitmapScan_run` say what the scan answers: for one bit it is
  first fit over the bitmap, for a longer run it is first fit over one bit more than the
  bitmap has: its last iteration tests the bit behind the last byte.
-/

import TinyOs.Kernel.Debug
import TinyOs.Logic.Bytes
import TinyOs.Logic.FirstFit

namespace TinyOs.Lib

open TinyOs.Kernel TinyOs.Logic

structure Bitmap where
  btmpBytesLen : Nat
  bits : Nat
  small : 8 * btmpBytesLen < 2 ^ 31

/-- The loop of `memset` on kernel data. -/
def fill (value : BitVec 8) : Nat → Nat → Bytes → Bytes
  | 0, _, m => m
  | size + 1, dst, m => fill value size (dst + 1) (m.write8 dst value)

def bitmapInit (m : Bytes) (btmp : Bitmap) : Except Stop Bytes := do
  assert (btmp.bits ≠ 0) .memsetDst
  .ok (fill 0 btmp.btmpBytesLen btmp.bits m)

def bitmapScanTest (m : Bytes) (btmp : Bitmap) (bitIdx : Nat) : Bool :=
  m (btmp.bits + bitIdx / 8) &&& 1#8 <<< (bitIdx % 8) ≠ 0

/-- The first loop of `bitmap_scan`, at byte `idx` with `n` bytes left. -/
def skipFull (m : Bytes) (btmp : Bitmap) : Nat → Nat → Nat
  | 0, idx => idx
  | n + 1, idx => if m (btmp.bits + idx) = 0xff then skipFull m btmp n (idx + 1) else idx

/-- The second loop: the mask has left the byte after eight rounds. -/
def firstClear (b : BitVec 8) : Nat → Nat → Nat
  | 0, idxBit => idxBit
  | n + 1, idxBit => if 1#8 <<< idxBit &&& b ≠ 0 then firstClear b n (idxBit + 1) else idxBit

/-- The last loop, with `bitLeft` rounds to go. -/
def scanRun (m : Bytes) (btmp : Bitmap) (cnt : Nat) : Nat → Nat → Nat → Option Nat
  | 0, _, _ => none
  | bitLeft + 1, nextBit, count =>
    let count := if !bitmapScanTest m btmp nextBit then count + 1 else 0
    if count = cnt then some (nextBit + 1 - cnt) else scanRun m btmp cnt bitLeft (nextBit + 1) count

/-- `none` is the source's -1. -/
def bitmapScan (m : Bytes) (btmp : Bitmap) (cnt : Nat) : Option Nat :=
  let idxByte := skipFull m btmp btmp.btmpBytesLen 0
  if idxByte = btmp.btmpBytesLen then none
  else
    let bitIdxStart := idxByte * 8 + firstClear (m (btmp.bits + idxByte)) 8 0
    if cnt = 1 then some bitIdxStart
    else scanRun m btmp cnt (btmp.btmpBytesLen * 8 - bitIdxStart) (bitIdxStart + 1) 1

def bitmapSet (m : Bytes) (btmp : Bitmap) (bitIdx : Nat) (value : Int) : Except Stop Bytes := do
  assert (value = 0 ∨ value = 1) .bitmapSetValue
  let a := btmp.bits + bitIdx / 8
  .ok (if value ≠ 0 then m.write8 a (m a ||| 1#8 <<< (bitIdx % 8)) else m.write8 a (m a &&& ~~~(1#8 <<< (bitIdx % 8))))

/-! ## One bit -/

/-- Bit `i` of a bitmap is set. -/
def Bitmap.Used (btmp : Bitmap) (m : Bytes) (i : Nat) : Prop := (m (btmp.bits + i / 8)).getLsbD (i % 8) = true

/-- `m` with bit `i` set. -/
def Bitmap.mark (btmp : Bitmap) (m : Bytes) (i : Nat) : Bytes :=
  m.write8 (btmp.bits + i / 8) (m (btmp.bits + i / 8) ||| 1#8 <<< (i % 8))

@[simp] theorem bitmapSet_one (m : Bytes) (btmp : Bitmap) (i : Nat) : bitmapSet m btmp i 1 = .ok (btmp.mark m i) := rfl

theorem and_mask (b : BitVec 8) {i : Nat} (hi : i < 8) : b &&& 1#8 <<< i ≠ 0 ↔ b.getLsbD i = true := by
  have : ∀ (b : BitVec 8) (i : Fin 8), b &&& 1#8 <<< i.val ≠ 0 ↔ b.getLsbD i.val = true := by decide +kernel
  exact this b ⟨i, hi⟩

theorem or_mask (b : BitVec 8) {i j : Nat} (hi : i < 8) (hj : j < 8) :
    (b ||| 1#8 <<< i).getLsbD j = true ↔ b.getLsbD j = true ∨ j = i := by
  rw [BitVec.getLsbD_or, BitVec.getLsbD_shiftLeft, Bool.or_eq_true]
  simp only [BitVec.getLsbD_one, hj, decide_true, Bool.true_and, Bool.and_eq_true, Bool.not_eq_true', decide_eq_false_iff_not,
    decide_eq_true_eq]
  constructor
  · intro hex
    rcases hex with h | h
    · exact .inl h
    · exact .inr (by omega)
  · intro hex
    rcases hex with h | rfl
    · exact .inl h
    · exact .inr ⟨by omega, by omega⟩

theorem bitmapScanTest_iff {m : Bytes} {btmp : Bitmap} {i : Nat} : bitmapScanTest m btmp i = true ↔ btmp.Used m i := by
  unfold bitmapScanTest Bitmap.Used
  rw [decide_eq_true_eq]
  exact and_mask _ (Nat.mod_lt _ (by omega))

instance (btmp : Bitmap) (m : Bytes) (i : Nat) : Decidable (btmp.Used m i) :=
  inferInstanceAs (Decidable (_ = true))

theorem used_mark {m : Bytes} {btmp : Bitmap} {i j : Nat} : btmp.Used (btmp.mark m i) j ↔ btmp.Used m j ∨ j = i := by
  unfold Bitmap.Used Bitmap.mark Bytes.write8
  by_cases h : j / 8 = i / 8
  · rw [h, if_pos rfl, or_mask _ (Nat.mod_lt _ (by omega)) (Nat.mod_lt _ (by omega))]
    have : j % 8 = i % 8 ↔ j = i := by omega
    rw [this]
  · rw [if_neg (by omega)]
    have : j ≠ i := by rintro rfl; exact h rfl
    simp [this]

/-! ## Bits are only ever set -/

/-- Every bit set in `m` is set in `m'`. -/
def Grows (m m' : Bytes) : Prop := ∀ a i, (m a).getLsbD i = true → (m' a).getLsbD i = true

theorem Grows.refl (m : Bytes) : Grows m m := fun _ _ h => h

theorem Grows.trans {m m' m'' : Bytes} (h : Grows m m') (h' : Grows m' m'') : Grows m m'' :=
  fun a i hi => h' a i (h a i hi)

theorem grows_mark (m : Bytes) (btmp : Bitmap) (i : Nat) : Grows m (btmp.mark m i) := by
  intro a j hj
  unfold Bitmap.mark Bytes.write8
  split
  · next h => rw [← h, BitVec.getLsbD_or, hj, Bool.true_or]
  · exact hj

theorem Grows.used {m m' : Bytes} (h : Grows m m') {btmp : Bitmap} {i : Nat} (hi : btmp.Used m i) : btmp.Used m' i :=
  h _ _ hi

/-! ## The bytes of a bitmap -/

def Bitmap.area (btmp : Bitmap) : Set Nat := Set.Ico btmp.bits (btmp.bits + btmp.btmpBytesLen)

theorem used_congr {m m' : Bytes} {btmp : Bitmap} (h : Set.EqOn m' m btmp.area) {i : Nat}
    (hi : i < 8 * btmp.btmpBytesLen) : btmp.Used m' i ↔ btmp.Used m i := by
  unfold Bitmap.Used
  rw [h (Set.mem_Ico.mpr ⟨by omega, by omega⟩)]

theorem mark_of_ne {m : Bytes} {btmp : Bitmap} {i x : Nat} (h : x ≠ btmp.bits + i / 8) : btmp.mark m i x = m x :=
  Bytes.write8_ne _ _ h

theorem fill_apply (value : BitVec 8) (size dst : Nat) (m : Bytes) (x : Nat) :
    fill value size dst m x = if dst ≤ x ∧ x < dst + size then value else m x := by
  induction size generalizing dst m with
  | zero => rw [fill, if_neg (by omega)]
  | succ size ih =>
    rw [fill, ih]
    unfold Bytes.write8
    by_cases h : x = dst
    · subst h; rw [if_neg (by omega), if_pos rfl, if_pos (by omega)]
    · rw [if_neg h]
      congr 1
      exact propext ⟨fun h => by omega, fun h => by omega⟩

theorem bitmapInit_eq {m : Bytes} {btmp : Bitmap} (h : btmp.bits ≠ 0) :
    bitmapInit m btmp = .ok (fill 0 btmp.btmpBytesLen btmp.bits m) := by
  simp [bitmapInit, h]; rfl

theorem fill_zero {m : Bytes} {size dst x : Nat} (h : m x = 0) : fill 0 size dst m x = 0 := by
  rw [fill_apply]
  split
  · rfl
  · exact h

theorem fill_in {m : Bytes} {size dst x : Nat} (h1 : dst ≤ x) (h2 : x < dst + size) : fill 0 size dst m x = 0 := by
  rw [fill_apply, if_pos ⟨h1, h2⟩]

theorem not_used_of_zero {btmp : Bitmap} {m : Bytes} {i : Nat} (h : m (btmp.bits + i / 8) = 0) : ¬ btmp.Used m i := by
  unfold Bitmap.Used
  rw [h]
  simp

/-! ## What the scan answers -/

variable {m : Bytes} {btmp : Bitmap}

theorem full_iff (b : BitVec 8) : b = 0xff ↔ ∀ i, i < 8 → b.getLsbD i = true := by
  have : ∀ b : BitVec 8, b = 0xff ↔ ∀ i : Fin 8, b.getLsbD i.val = true := by decide +kernel
  rw [this b]
  exact ⟨fun h i hi => h ⟨i, hi⟩, fun h i => h i.val i.isLt⟩

theorem skipFull_le (m : Bytes) (btmp : Bitmap) (n idx : Nat) : idx ≤ skipFull m btmp n idx ∧ skipFull m btmp n idx ≤ idx + n := by
  induction n generalizing idx with
  | zero => exact ⟨Nat.le_refl _, Nat.le_refl _⟩
  | succ n ih =>
    rw [skipFull]
    split
    · have := ih (idx + 1); omega
    · omega

theorem skipFull_full (n idx : Nat) {j : Nat} (h1 : idx ≤ j) (h2 : j < skipFull m btmp n idx) : m (btmp.bits + j) = 0xff := by
  induction n generalizing idx with
  | zero => rw [skipFull] at h2; omega
  | succ n ih =>
    rw [skipFull] at h2
    split at h2
    · next h =>
      by_cases e : j = idx
      · rw [e]; exact h
      · exact ih (idx + 1) (by omega) h2
    · omega

theorem skipFull_stop (m : Bytes) (btmp : Bitmap) (n idx : Nat) (h : skipFull m btmp n idx < idx + n) :
    m (btmp.bits + skipFull m btmp n idx) ≠ 0xff := by
  induction n generalizing idx with
  | zero => rw [skipFull] at h; omega
  | succ n ih =>
    rw [skipFull] at h ⊢
    split
    · next hf => rw [if_pos hf] at h; exact ih (idx + 1) (by omega)
    · assumption

theorem firstClear_spec : ∀ b : BitVec 8, b ≠ 0xff →
    firstClear b 8 0 < 8 ∧ b.getLsbD (firstClear b 8 0) = false ∧ ∀ i : Fin 8, i.val < firstClear b 8 0 → b.getLsbD i.val = true := by
  decide +kernel

/-- The bit the first two loops find, if there is one: the first that is free. -/
theorem scan_start (h : skipFull m btmp btmp.btmpBytesLen 0 ≠ btmp.btmpBytesLen) :
    let s := skipFull m btmp btmp.btmpBytesLen 0 * 8 + firstClear (m (btmp.bits + skipFull m btmp btmp.btmpBytesLen 0)) 8 0
    s < 8 * btmp.btmpBytesLen ∧ ¬ btmp.Used m s ∧ ∀ i, i < s → btmp.Used m i := by
  intro s
  have hle := (skipFull_le m btmp btmp.btmpBytesLen 0).2
  obtain ⟨h8, hfree, hbelow⟩ := firstClear_spec _ (skipFull_stop m btmp btmp.btmpBytesLen 0 (by omega))
  refine ⟨by omega, ?_, fun i hi => ?_⟩
  · unfold Bitmap.Used
    rw [show s / 8 = skipFull m btmp btmp.btmpBytesLen 0 by omega,
      show s % 8 = firstClear (m (btmp.bits + skipFull m btmp btmp.btmpBytesLen 0)) 8 0 by omega, hfree]
    exact Bool.false_ne_true
  · unfold Bitmap.Used
    by_cases e : i / 8 < skipFull m btmp btmp.btmpBytesLen 0
    · rw [skipFull_full btmp.btmpBytesLen 0 (Nat.zero_le _) e]
      exact (full_iff 0xff).mp rfl _ (Nat.mod_lt _ (by omega))
    · rw [show i / 8 = skipFull m btmp btmp.btmpBytesLen 0 by omega]
      exact hbelow ⟨i % 8, Nat.mod_lt _ (by omega)⟩ (by simp only; omega)

theorem scan_full (h : skipFull m btmp btmp.btmpBytesLen 0 = btmp.btmpBytesLen) {i : Nat}
    (hi : i < 8 * btmp.btmpBytesLen) : btmp.Used m i := by
  have hb : m (btmp.bits + i / 8) = 0xff := skipFull_full btmp.btmpBytesLen 0 (Nat.zero_le _) (by omega)
  unfold Bitmap.Used
  rw [hb]
  exact (full_iff 0xff).mp rfl _ (Nat.mod_lt _ (by omega))

/-- For one bit: first fit over the bitmap. -/
theorem bitmapScan_one (m : Bytes) (btmp : Bitmap) :
    FirstFit (btmp.Used m) (8 * btmp.btmpBytesLen) 1 (bitmapScan m btmp 1) := by
  unfold bitmapScan
  simp only
  split
  · next h =>
    intro s hs hcl
    exact clear_one.mp hcl (scan_full h (by omega))
  · next h =>
    obtain ⟨hlt, hfree, hbelow⟩ := scan_start h
    refine ⟨clear_one.mpr hfree, by omega, fun s' hcl _ => ?_⟩
    by_contra hlt'
    exact clear_one.mp hcl (hbelow s' (by omega))

/-- The last loop. `count` free bits lie before `nextBit`, and no run starts before them. -/
theorem scanRun_spec {cnt bitLeft nextBit count : Nat} (hc : 0 < cnt) (hlt : count < cnt) (hle : count ≤ nextBit)
    (hclear : Clear (btmp.Used m) (nextBit - count) count)
    (hmin : ∀ s', s' < nextBit - count → ¬ Clear (btmp.Used m) s' cnt) :
    FirstFit (btmp.Used m) (nextBit + bitLeft) cnt (scanRun m btmp cnt bitLeft nextBit count) := by
  induction bitLeft generalizing nextBit count with
  | zero =>
    intro s' hs hcl
    exact hmin s' (by omega) hcl
  | succ n ih =>
    rw [scanRun]
    by_cases hu : btmp.Used m nextBit
    · -- a used bit: no run can contain it
      rw [bitmapScanTest_iff.mpr hu]
      simp only [Bool.not_true, Bool.false_eq_true, if_false, if_neg (Nat.ne_of_lt hc)]
      rw [show nextBit + (n + 1) = nextBit + 1 + n by omega]
      refine ih hc (Nat.zero_le _) (fun i h1 h2 => by omega) fun s' hs hcl => ?_
      by_cases e : s' < nextBit - count
      · exact hmin s' e hcl
      · exact hcl nextBit (by omega) (by omega) hu
    · have ht : bitmapScanTest m btmp nextBit = false := Bool.eq_false_iff.mpr fun h => hu (bitmapScanTest_iff.mp h)
      rw [ht]
      simp only [Bool.not_false, if_true]
      have hclear' : Clear (btmp.Used m) (nextBit - count) (count + 1) := by
        intro i h1 h2
        by_cases e : i = nextBit
        · rw [e]; exact hu
        · exact hclear i h1 (by omega)
      split
      · next e =>
        refine ⟨?_, by omega, fun s' hcl hs => ?_⟩
        · rw [← e, show nextBit + 1 - (count + 1) = nextBit - count by omega]; exact hclear'
        · by_contra hlt'
          exact hmin s' (by omega) hcl
      · next e =>
        rw [show nextBit + (n + 1) = nextBit + 1 + n by omega]
        refine ih (by omega) (by omega) ?_ fun s' hs hcl => hmin s' (by omega) hcl
        rw [show nextBit + 1 - (count + 1) = nextBit - count by omega]; exact hclear'

/-- For a longer run: first fit over one bit more than the bitmap has. -/
theorem bitmapScan_run (m : Bytes) (btmp : Bitmap) {cnt : Nat} (hc : 1 < cnt) :
    bitmapScan m btmp cnt = none ∧ (∀ i, i < 8 * btmp.btmpBytesLen → btmp.Used m i) ∨
      FirstFit (btmp.Used m) (8 * btmp.btmpBytesLen + 1) cnt (bitmapScan m btmp cnt) := by
  unfold bitmapScan
  simp only
  split
  · next h => exact .inl ⟨rfl, fun i hi => scan_full h hi⟩
  · next h =>
    obtain ⟨hlt, hfree, hbelow⟩ := scan_start h
    rw [if_neg (by omega)]
    generalize skipFull m btmp btmp.btmpBytesLen 0 * 8 + firstClear (m (btmp.bits + skipFull m btmp btmp.btmpBytesLen 0)) 8 0 = s
      at hlt hfree hbelow
    have hbound : 8 * btmp.btmpBytesLen + 1 = s + 1 + (btmp.btmpBytesLen * 8 - s) := by omega
    rw [hbound]
    refine .inr (scanRun_spec (by omega) hc (by omega) ?_ fun s' hs hcl => ?_)
    · rw [Nat.add_sub_cancel]; exact clear_one.mpr hfree
    · exact hcl s' (Nat.le_refl _) (by omega) (hbelow s' (by omega))

/-- What the scan answers is first fit over the bitmap, for a longer run over one bit more. -/
theorem bitmapScan_firstFit {cnt s : Nat} (hc : 0 < cnt) (h : bitmapScan m btmp cnt = some s) :
    ∃ hi, hi < 8 * btmp.btmpBytesLen + cnt ∧ hi ≤ 8 * btmp.btmpBytesLen + 1 ∧ FirstFit (btmp.Used m) hi cnt (some s) := by
  rw [← h]
  by_cases e : cnt = 1
  · subst e
    exact ⟨8 * btmp.btmpBytesLen, by omega, by omega, bitmapScan_one m btmp⟩
  · rcases bitmapScan_run m btmp (by omega : 1 < cnt) with ⟨hn, -⟩ | hf
    · rw [hn] at h; cases h
    · exact ⟨8 * btmp.btmpBytesLen + 1, by omega, by omega, hf⟩

/-- Whatever the scan answers, the run is free and ends at most one bit past the bitmap. -/
theorem bitmapScan_some {cnt s : Nat} (hc : 0 < cnt) (h : bitmapScan m btmp cnt = some s) :
    Clear (btmp.Used m) s cnt ∧ s + cnt ≤ 8 * btmp.btmpBytesLen + 1 ∧ s < 8 * btmp.btmpBytesLen := by
  obtain ⟨hi, hlt, hle, hf⟩ := bitmapScan_firstFit hc h
  have := hf.le
  exact ⟨hf.clear, by omega, by omega⟩

/-- Where the used bits are the first `u`, the scan can only answer `u`. -/
theorem bitmapScan_initial {cnt s u : Nat} (hc : 0 < cnt) (hu : ∀ i, i < 8 * btmp.btmpBytesLen → (btmp.Used m i ↔ i < u))
    (h : bitmapScan m btmp cnt = some s) : s = u := by
  obtain ⟨-, -, hs⟩ := bitmapScan_some hc h
  obtain ⟨hi, -, hle, hf⟩ := bitmapScan_firstFit hc h
  exact hf.initial hu hle hc hs

theorem bitmapScan_initial_none {cnt u : Nat} (hc : 0 < cnt) (hu : ∀ i, i < 8 * btmp.btmpBytesLen → (btmp.Used m i ↔ i < u))
    (h : bitmapScan m btmp cnt = none) : 8 * btmp.btmpBytesLen < u + cnt := by
  by_cases e : cnt = 1
  · subst e
    have hf := bitmapScan_one m btmp
    rw [h] at hf
    exact hf.initial_none hu (Nat.le_refl _)
  · rcases bitmapScan_run m btmp (by omega : 1 < cnt) with ⟨-, hall⟩ | hf
    · by_contra hle
      have := (hu u (by omega)).mp (hall u (by omega))
      omega
    · rw [h] at hf
      exact hf.initial_none hu (by omega)

/-- For one bit, the scan fails exactly on a full bitmap. -/
theorem bitmapScan_one_none : bitmapScan m btmp 1 = none ↔ ∀ i, i < 8 * btmp.btmpBytesLen → btmp.Used m i := by
  have hf := bitmapScan_one m btmp
  constructor
  · intro h i hi
    rw [h] at hf
    by_contra hu
    exact hf i (by omega) (clear_one.mpr hu)
  · intro h
    cases hs : bitmapScan m btmp 1 with
    | none => rfl
    | some s =>
      rw [hs] at hf
      have := hf.le
      exact absurd (h s (by omega)) (clear_one.mp hf.clear)

end TinyOs.Lib
