/-
  TinyOs.Lib.BitmapScan — what bitmap_scan reads, and which run it answers.

  The scan reads a byte before it tests the index (`0xff == btmp->bits[idx_byte]` stands
  left of `idx_byte < btmp_bytes_len`), and counts its last loop down from
  `8*btmp_bytes_len - bit_idx_start` though the first free bit is already behind it: one
  iteration too many. `Access` records what is read, in order.

  - `scan_first_fit`: where the bitmap has a run of `cnt` free bits the first is answered.
  - `scan_sound_iff`: nothing behind the bitmap is read or answered exactly then; without
    such a run the scan always reads on.
  - `scan_past_end_iff`: and when the run it answers ends behind the bitmap.
-/

import TinyOs.Lib.Bitmap

namespace TinyOs.Lib

open TinyOs.Kernel TinyOs.Logic

/-- A read of `btmp->bits[i]`, or of bit `i` by bitmap_scan_test. -/
inductive Access where
  | byte (i : Nat)
  | bit (i : Nat)
  deriving DecidableEq, Repr

def Access.Inside (btmp : Bitmap) : Access → Prop
  | .byte i => i < btmp.btmpBytesLen
  | .bit i => i < 8 * btmp.btmpBytesLen

/-- The first loop with its reads; the last one is the byte it stops at, or the one behind the bitmap. -/
def skipFullReads (m : Bytes) (btmp : Bitmap) : Nat → Nat → Nat × List Access
  | 0, idx => (idx, [.byte idx])
  | n + 1, idx =>
    if m (btmp.bits + idx) = 0xff then
      let (r, reads) := skipFullReads m btmp n (idx + 1)
      (r, .byte idx :: reads)
    else (idx, [.byte idx])

/-- The second loop reads the same byte in every round. -/
def firstClearReads (idxByte : Nat) (b : BitVec 8) : Nat → Nat → Nat × List Access
  | 0, idxBit => (idxBit, [])
  | n + 1, idxBit =>
    if 1#8 <<< idxBit &&& b ≠ 0 then
      let (r, reads) := firstClearReads idxByte b n (idxBit + 1)
      (r, .byte idxByte :: reads)
    else (idxBit, [.byte idxByte])

def scanRunReads (m : Bytes) (btmp : Bitmap) (cnt : Nat) : Nat → Nat → Nat → Option Nat × List Access
  | 0, _, _ => (none, [])
  | bitLeft + 1, nextBit, count =>
    let count := if !bitmapScanTest m btmp nextBit then count + 1 else 0
    if count = cnt then (some (nextBit + 1 - cnt), [.bit nextBit])
    else
      let (r, reads) := scanRunReads m btmp cnt bitLeft (nextBit + 1) count
      (r, .bit nextBit :: reads)

/-- `bitmap_scan`, with everything it reads of the bitmap. -/
def bitmapScanReads (m : Bytes) (btmp : Bitmap) (cnt : Nat) : Option Nat × List Access :=
  let (idxByte, reads) := skipFullReads m btmp btmp.btmpBytesLen 0
  if idxByte = btmp.btmpBytesLen then (none, reads)
  else
    let (idxBit, reads') := firstClearReads idxByte (m (btmp.bits + idxByte)) 8 0
    let bitIdxStart := idxByte * 8 + idxBit
    if cnt = 1 then (some bitIdxStart, reads ++ reads')
    else
      let (r, reads'') := scanRunReads m btmp cnt (btmp.btmpBytesLen * 8 - bitIdxStart) (bitIdxStart + 1) 1
      (r, reads ++ reads' ++ reads'')

variable {m : Bytes} {btmp : Bitmap} {cnt : Nat}

/-! ## The same scan -/

theorem skipFullReads_fst (n idx : Nat) : (skipFullReads m btmp n idx).1 = skipFull m btmp n idx := by
  induction n generalizing idx with
  | zero => rfl
  | succ n ih =>
    rw [skipFullReads, skipFull]
    split
    · exact ih (idx + 1)
    · rfl

theorem firstClearReads_fst (idxByte : Nat) (b : BitVec 8) (n idxBit : Nat) :
    (firstClearReads idxByte b n idxBit).1 = firstClear b n idxBit := by
  induction n generalizing idxBit with
  | zero => rfl
  | succ n ih =>
    rw [firstClearReads, firstClear]
    split
    · exact ih (idxBit + 1)
    · rfl

theorem scanRunReads_fst (bitLeft nextBit count : Nat) :
    (scanRunReads m btmp cnt bitLeft nextBit count).1 = scanRun m btmp cnt bitLeft nextBit count := by
  induction bitLeft generalizing nextBit count with
  | zero => rfl
  | succ n ih =>
    rw [scanRunReads, scanRun]
    simp only
    split
    · split
      · rfl
      · exact ih (nextBit + 1) _
    · split
      · rfl
      · exact ih (nextBit + 1) _

theorem bitmapScanReads_fst (m : Bytes) (btmp : Bitmap) (cnt : Nat) : (bitmapScanReads m btmp cnt).1 = bitmapScan m btmp cnt := by
  unfold bitmapScanReads bitmapScan
  simp only [skipFullReads_fst]
  split
  · rfl
  · simp only [firstClearReads_fst]
    split
    · rfl
    · exact scanRunReads_fst _ _ _

/-! ## The run -/

/-- A run of `cnt` free bits lies in the bitmap. -/
def Bitmap.HasRun (btmp : Bitmap) (m : Bytes) (cnt : Nat) : Prop :=
  ∃ i, i + cnt ≤ 8 * btmp.btmpBytesLen ∧ Clear (btmp.Used m) i cnt

/-- Completeness, and first fit. -/
theorem scan_first_fit (hc : 1 ≤ cnt) (h : btmp.HasRun m cnt) :
    ∃ i, bitmapScan m btmp cnt = some i ∧ i + cnt ≤ 8 * btmp.btmpBytesLen ∧ Clear (btmp.Used m) i cnt ∧
      ∀ j, j + cnt ≤ 8 * btmp.btmpBytesLen → Clear (btmp.Used m) j cnt → i ≤ j := by
  obtain ⟨j, hj, hcl⟩ := h
  -- what is least over one bit more is least over the bitmap
  have hfit : ∃ n, n ≤ 8 * btmp.btmpBytesLen + 1 ∧ 8 * btmp.btmpBytesLen ≤ n ∧
      FirstFit (btmp.Used m) n cnt (bitmapScan m btmp cnt) := by
    by_cases e : cnt = 1
    · subst e
      exact ⟨_, by omega, Nat.le_refl _, bitmapScan_one m btmp⟩
    · rcases bitmapScan_run m btmp (by omega : 1 < cnt) with ⟨-, hall⟩ | hf
      · exact absurd (hall j (by omega)) (hcl j (by omega) (by omega))
      · exact ⟨_, Nat.le_refl _, by omega, hf⟩
  obtain ⟨n, -, hn, hf⟩ := hfit
  cases hs : bitmapScan m btmp cnt with
  | none =>
    rw [hs] at hf
    exact absurd hcl (hf j (by omega))
  | some i =>
    rw [hs] at hf
    obtain ⟨hci, -, hmin⟩ := hf
    have hij := hmin j hcl (by omega)
    refine ⟨i, rfl, by omega, hci, ?_⟩
    intro k hk hck
    exact hmin k hck (by omega)

/-- Two bytes: bits 2 and 3 are free, and 5 to 8, across the bytes. -/
def twoBytes : Bitmap := ⟨2, 0, by decide⟩

def brokenFree : Bytes := fun a => if a = 0 then 0x13 else 0xfe

theorem brokenFree_run : twoBytes.HasRun brokenFree 3 := by
  refine ⟨6, by decide, fun i h1 h2 => ?_⟩
  obtain ⟨j, rfl⟩ := Nat.exists_eq_add_of_le h1
  have hfree : ∀ j < 3, ¬ twoBytes.Used brokenFree (6 + j) := by decide
  exact hfree j (by omega)

/-- The two free bits are passed over. -/
theorem brokenFree_first_fit : ∃ i, bitmapScan brokenFree twoBytes 3 = some i ∧ i + 3 ≤ 8 * twoBytes.btmpBytesLen ∧
    Clear (twoBytes.Used brokenFree) i 3 ∧
      ∀ j, j + 3 ≤ 8 * twoBytes.btmpBytesLen → Clear (twoBytes.Used brokenFree) j 3 → i ≤ j :=
  scan_first_fit (by decide) brokenFree_run

example : bitmapScan brokenFree twoBytes 3 = some 5 := by decide

/-- A run that ends one bit behind the bitmap is answered where there is no other. -/
theorem scan_past_end_iff (hc : 1 ≤ cnt) : (∃ i, bitmapScan m btmp cnt = some i ∧ 8 * btmp.btmpBytesLen < i + cnt) ↔
    1 < cnt ∧ cnt ≤ 8 * btmp.btmpBytesLen + 1 ∧ ¬ btmp.HasRun m cnt ∧
      Clear (btmp.Used m) (8 * btmp.btmpBytesLen + 1 - cnt) cnt := by
  constructor
  · intro h
    obtain ⟨i, hs, hlt⟩ := h
    obtain ⟨hcl, hle, hi⟩ := bitmapScan_some hc hs
    have he : 8 * btmp.btmpBytesLen + 1 - cnt = i := by omega
    refine ⟨by omega, by omega, ?_, he ▸ hcl⟩
    intro hrun
    obtain ⟨j, hj, hfit, -⟩ := scan_first_fit hc hrun
    rw [hs] at hj
    cases hj
    omega
  · intro h
    obtain ⟨hc1, hle, hno, hcl⟩ := h
    rcases bitmapScan_run m btmp hc1 with ⟨-, hall⟩ | hf
    · exact absurd (hall (8 * btmp.btmpBytesLen + 1 - cnt) (by omega)) (hcl _ (Nat.le_refl _) (by omega))
    · cases hs : bitmapScan m btmp cnt with
      | none =>
        rw [hs] at hf
        exact absurd hcl (hf _ (by omega))
      | some i =>
        rw [hs] at hf
        refine ⟨i, rfl, ?_⟩
        by_contra hge
        exact hno ⟨i, by omega, hf.clear⟩

/-! ## The reads -/

theorem skipFullReads_bytes (n idx : Nat) : ∀ a ∈ (skipFullReads m btmp n idx).2,
    ∃ j, a = .byte j ∧ j ≤ skipFull m btmp n idx := by
  induction n generalizing idx with
  | zero =>
    intro a ha
    exact ⟨idx, List.mem_singleton.mp ha, Nat.le_refl _⟩
  | succ n ih =>
    rw [skipFullReads, skipFull]
    split
    · intro a ha
      rcases List.mem_cons.mp ha with rfl | ha
      · have hle := (skipFull_le m btmp n (idx + 1)).1
        exact ⟨idx, rfl, by omega⟩
      · exact ih (idx + 1) a ha
    · intro a ha
      exact ⟨idx, List.mem_singleton.mp ha, Nat.le_refl _⟩

/-- The byte the first loop stops at has been read. -/
theorem skipFullReads_last (m : Bytes) (btmp : Bitmap) (n idx : Nat) : .byte (skipFull m btmp n idx) ∈ (skipFullReads m btmp n idx).2 := by
  induction n generalizing idx with
  | zero => exact List.mem_singleton_self _
  | succ n ih =>
    rw [skipFullReads, skipFull]
    split
    · exact List.mem_cons_of_mem _ (ih (idx + 1))
    · exact List.mem_singleton_self _

theorem firstClearReads_byte (idxByte : Nat) (b : BitVec 8) (n idxBit : Nat) :
    ∀ a ∈ (firstClearReads idxByte b n idxBit).2, a = .byte idxByte := by
  induction n generalizing idxBit with
  | zero =>
    intro a ha
    cases ha
  | succ n ih =>
    rw [firstClearReads]
    split
    · intro a ha
      rcases List.mem_cons.mp ha with rfl | ha
      · rfl
      · exact ih (idxBit + 1) a ha
    · intro a ha
      exact List.mem_singleton.mp ha

/-- A round of the last loop: it answers, or goes on with a count `c`. -/
theorem scanRunReads_round (m : Bytes) (btmp : Bitmap) (cnt n nextBit count : Nat) :
    scanRunReads m btmp cnt (n + 1) nextBit count = (some (nextBit + 1 - cnt), [.bit nextBit]) ∨
      ∃ c, scanRunReads m btmp cnt (n + 1) nextBit count =
        ((scanRunReads m btmp cnt n (nextBit + 1) c).1, .bit nextBit :: (scanRunReads m btmp cnt n (nextBit + 1) c).2) := by
  rw [scanRunReads]
  simp only
  generalize (if !bitmapScanTest m btmp nextBit then count + 1 else 0) = c
  by_cases e : c = cnt
  · exact .inl (if_pos e)
  · exact .inr ⟨c, if_neg e⟩

/-- The last loop reads no bit behind the run it answers. -/
theorem scanRunReads_bits {s bitLeft nextBit count : Nat}
    (h : (scanRunReads m btmp cnt bitLeft nextBit count).1 = some s) :
    nextBit < s + cnt ∧ ∀ a ∈ (scanRunReads m btmp cnt bitLeft nextBit count).2, ∃ j, a = .bit j ∧ j < s + cnt := by
  induction bitLeft generalizing nextBit count with
  | zero => cases h
  | succ n ih =>
    rcases scanRunReads_round m btmp cnt n nextBit count with e | ⟨c, e⟩
    · rw [e] at h ⊢
      cases h
      have hlt : nextBit < nextBit + 1 - cnt + cnt := by omega
      exact ⟨hlt, fun a ha => ⟨nextBit, List.mem_singleton.mp ha, hlt⟩⟩
    · rw [e] at h ⊢
      obtain ⟨hlt, hbits⟩ := ih h
      exact ⟨by omega, List.forall_mem_cons.mpr ⟨⟨nextBit, rfl, by omega⟩, hbits⟩⟩

/-- Where it answers none it has read its last bit. -/
theorem scanRunReads_last {bitLeft nextBit count : Nat} (hpos : 0 < bitLeft)
    (h : (scanRunReads m btmp cnt bitLeft nextBit count).1 = none) :
    .bit (nextBit + bitLeft - 1) ∈ (scanRunReads m btmp cnt bitLeft nextBit count).2 := by
  induction bitLeft generalizing nextBit count with
  | zero => omega
  | succ n ih =>
    rcases scanRunReads_round m btmp cnt n nextBit count with e | ⟨c, e⟩
    · rw [e] at h
      cases h
    · rw [e] at h ⊢
      rcases Nat.eq_zero_or_pos n with rfl | hn
      · exact List.mem_cons_self
      · have hlast := ih hn h
        rw [show nextBit + 1 + n - 1 = nextBit + (n + 1) - 1 by omega] at hlast
        exact List.mem_cons_of_mem _ hlast

/-! ## Soundness -/

structure ScanSound (m : Bytes) (btmp : Bitmap) (cnt : Nat) : Prop where
  answer : ∀ i, bitmapScan m btmp cnt = some i → i + cnt ≤ 8 * btmp.btmpBytesLen ∧ Clear (btmp.Used m) i cnt
  reads : ∀ a ∈ (bitmapScanReads m btmp cnt).2, a.Inside btmp

/-- The reads before the last loop, on a bitmap that is not full. -/
theorem early_reads (h : skipFull m btmp btmp.btmpBytesLen 0 ≠ btmp.btmpBytesLen) (b : BitVec 8) :
    ∀ a ∈ (skipFullReads m btmp btmp.btmpBytesLen 0).2 ++ (firstClearReads (skipFull m btmp btmp.btmpBytesLen 0) b 8 0).2,
      a.Inside btmp := by
  have hle := (skipFull_le m btmp btmp.btmpBytesLen 0).2
  intro a ha
  rcases List.mem_append.mp ha with ha | ha
  · obtain ⟨j, rfl, hj⟩ := skipFullReads_bytes _ _ a ha
    show j < btmp.btmpBytesLen
    omega
  · rw [firstClearReads_byte _ _ _ _ a ha]
    show skipFull m btmp btmp.btmpBytesLen 0 < btmp.btmpBytesLen
    omega

/-- The ways through the scan: a full bitmap, or `s` is the first free bit and nothing behind the bitmap is read before
    the last loop. -/
theorem bitmapScanReads_cases (m : Bytes) (btmp : Bitmap) (cnt : Nat) :
    (bitmapScanReads m btmp cnt).1 = none ∧ .byte btmp.btmpBytesLen ∈ (bitmapScanReads m btmp cnt).2 ∨
      ∃ s reads, s < 8 * btmp.btmpBytesLen ∧ (∀ a ∈ reads, a.Inside btmp) ∧
        (bitmapScanReads m btmp cnt = (some s, reads) ∨
          bitmapScanReads m btmp cnt = ((scanRunReads m btmp cnt (btmp.btmpBytesLen * 8 - s) (s + 1) 1).1,
            reads ++ (scanRunReads m btmp cnt (btmp.btmpBytesLen * 8 - s) (s + 1) 1).2)) := by
  unfold bitmapScanReads
  simp only [skipFullReads_fst, firstClearReads_fst]
  by_cases hfull : skipFull m btmp btmp.btmpBytesLen 0 = btmp.btmpBytesLen
  · have hlast := skipFullReads_last m btmp btmp.btmpBytesLen 0
    rw [hfull] at hlast
    rw [if_pos hfull]
    exact .inl ⟨rfl, hlast⟩
  · rw [if_neg hfull]
    have hearly := early_reads hfull (m (btmp.bits + skipFull m btmp btmp.btmpBytesLen 0))
    refine .inr ⟨_, _, (scan_start hfull).1, hearly, ?_⟩
    by_cases hone : cnt = 1
    · exact .inl (if_pos hone)
    · exact .inr (if_neg hone)

/-- Where the scan answers a run inside the bitmap, it reads nothing behind it. -/
theorem reads_inside {i : Nat} (hs : bitmapScan m btmp cnt = some i) (hi : i + cnt ≤ 8 * btmp.btmpBytesLen) :
    ∀ a ∈ (bitmapScanReads m btmp cnt).2, a.Inside btmp := by
  rw [← bitmapScanReads_fst] at hs
  rcases bitmapScanReads_cases m btmp cnt with ⟨hnone, -⟩ | ⟨s, reads, -, hearly, e | e⟩
  · rw [hnone] at hs
    cases hs
  · rw [e]
    exact hearly
  · rw [e] at hs ⊢
    intro a ha
    rcases List.mem_append.mp ha with ha | ha
    · exact hearly a ha
    · obtain ⟨j, rfl, hj⟩ := (scanRunReads_bits hs).2 a ha
      show j < 8 * btmp.btmpBytesLen
      omega

/-- A scan that fails has read the byte or the bit behind the bitmap. -/
theorem reads_past_end (hs : bitmapScan m btmp cnt = none) :
    .byte btmp.btmpBytesLen ∈ (bitmapScanReads m btmp cnt).2 ∨ .bit (8 * btmp.btmpBytesLen) ∈ (bitmapScanReads m btmp cnt).2 := by
  rw [← bitmapScanReads_fst] at hs
  rcases bitmapScanReads_cases m btmp cnt with ⟨-, hbyte⟩ | ⟨s, reads, hlt, -, e | e⟩
  · exact .inl hbyte
  · rw [e] at hs
    cases hs
  · rw [e] at hs ⊢
    have hlast := scanRunReads_last (by omega) hs
    rw [show s + 1 + (btmp.btmpBytesLen * 8 - s) - 1 = 8 * btmp.btmpBytesLen by omega] at hlast
    exact .inr (List.mem_append_right _ hlast)

theorem scan_sound_iff (hc : 1 ≤ cnt) : ScanSound m btmp cnt ↔ btmp.HasRun m cnt := by
  constructor
  · intro h
    cases hs : bitmapScan m btmp cnt with
    | none =>
      rcases reads_past_end hs with hb | hb
      · exact absurd (h.reads _ hb) (Nat.lt_irrefl _)
      · exact absurd (h.reads _ hb) (Nat.lt_irrefl _)
    | some i => exact ⟨i, h.answer i hs⟩
  · intro h
    obtain ⟨i, hs, hi, hcl, -⟩ := scan_first_fit hc h
    refine ⟨?_, reads_inside hs hi⟩
    intro j hj
    rw [hs] at hj
    cases hj
    exact ⟨hi, hcl⟩

/-- One byte, its last bit free. -/
def oneByte : Bitmap := ⟨1, 0, by decide⟩

def lastFree : Bytes := fun a => if a = 0 then 0x7f else 0

theorem lastFree_run : oneByte.HasRun lastFree 1 := by
  refine ⟨7, by decide, clear_one.mpr ?_⟩
  decide

theorem lastFree_sound : ScanSound lastFree oneByte 1 := (scan_sound_iff (Nat.le_refl 1)).mpr lastFree_run

/-- Asked for two bits it answers bit 7 and the bit behind the bitmap. -/
theorem lastFree_unsound : bitmapScan lastFree oneByte 2 = some 7 ∧ .bit 8 ∈ (bitmapScanReads lastFree oneByte 2).2 ∧
    ¬ ScanSound lastFree oneByte 2 := by
  have hscan : bitmapScan lastFree oneByte 2 = some 7 := by decide
  refine ⟨hscan, by decide, ?_⟩
  intro h
  exact absurd (h.answer 7 hscan).1 (by decide)

end TinyOs.Lib
