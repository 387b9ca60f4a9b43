/-
  TinyOs.Boot.DiskTransfer — what `rd_disk_m_32` and `rd_disk_m_16` put into memory.

  The words read are those of the first sector, which the routine has waited for, then
  those of the sectors that follow without a pause, and from the first pause on noise.
  - `rd_disk_iff`: the buffer gets the sectors, whatever is read meanwhile, exactly where
    the drive never makes the routine wait for a sector after the first.
-/

import TinyOs.Boot.ReadDisk

namespace TinyOs.Boot

open TinyOs.Logic
open TinyOs.Logic.X86

open DiskMachine

variable {s s' : DiskMachine} {b : Mode} {lba n : Nat}

/-! ## The words -/

/-- In 16-bit code `n` more bytes fit in the segment. -/
structure Room (b : Mode) (s : DiskMachine) (n : Nat) : Prop where
  fits : b = .bits16 → s.bx.toNat + n ≤ 65536

/-- What a round has read. -/
def DiskMachine.afterRead (s : DiskMachine) : DiskMachine :=
  { s.setAx (s.drive.pio.read s.drive.noise).1 with drive := { s.drive with pio := (s.drive.pio.read s.drive.noise).2 } }

theorem inAx_eq (hdx : s.dx = 0x1f0) : s.inAx = s.afterRead := by
  unfold inAx
  rw [hdx]
  rfl

theorem round_mem (b : Mode) (hdx : s.dx = 0x1f0) :
    (b.round s).mem = s.mem.write16 (b.dest s) (s.drive.pio.read s.drive.noise).1 := by
  have hax : s.inAx.ax = (s.drive.pio.read s.drive.noise).1 := by
    rw [inAx_eq hdx]
    exact ax_setAx ..
  have hmem : (b.round s).mem = s.inAx.mem.write16 (b.dest s.inAx) s.inAx.ax := by cases b <;> rfl
  have hdest : b.dest s.inAx = b.dest s := by
    rw [inAx_eq hdx]
    cases b <;> rfl
  rw [hmem, hdest, hax, inAx_eq hdx]
  rfl

theorem round_drive (b : Mode) (hdx : s.dx = 0x1f0) :
    (b.round s).drive = { s.drive with pio := (s.drive.pio.read s.drive.noise).2 } := by
  have hdrive : (b.round s).drive = s.inAx.drive := by cases b <;> rfl
  rw [hdrive, inAx_eq hdx]
  rfl

theorem round_dx (b : Mode) (s : DiskMachine) : (b.round s).dx = s.dx := by cases b <;> rfl

theorem round_counter {k : Nat} (hk : (b.counter s).toNat = k + 1) : (b.counter (b.round s)).toNat = k := by
  cases b with
  | bits16 =>
    have hcx : (Mode.bits16.round s).cx = s.cx - 1 := cx_setCx ..
    have hk : (s.cx.setWidth 32).toNat = k + 1 := hk
    show ((Mode.bits16.round s).cx.setWidth 32).toNat = k
    rw [hcx]
    bv_omega
  | bits32 =>
    have hk : s.ecx.toNat = k + 1 := hk
    show (s.ecx - 1).toNat = k
    bv_omega

theorem round_ds (b : Mode) (s : DiskMachine) : (b.round s).ds = s.ds := by cases b <;> rfl

theorem round_ebx (b : Mode) (s : DiskMachine) : (b.round s).ebx = (b.addTwo s).ebx := by cases b <;> rfl

theorem round_dest {k : Nat} (hroom : Room b s (2 * (k + 2))) : b.dest (b.round s) = b.dest s + 2 ∧ Room b (b.round s) (2 * (k + 1)) := by
  have hds := round_ds b s
  have hebx := round_ebx b s
  cases b with
  | bits16 =>
    have hle := hroom.fits rfl
    have hbx : (Mode.bits16.round s).bx = s.bx + 2 := by
      unfold DiskMachine.bx
      rw [hebx]
      exact bx_setBx ..
    have hsum : (s.bx + 2).toNat = s.bx.toNat + 2 := BitVec.toNat_add_of_lt (by
      show s.bx.toNat + 2 < 65536
      omega)
    have hwide : (s.bx + 2).setWidth 32 = s.bx.setWidth 32 + 2 := by
      apply BitVec.eq_of_toNat_eq
      rw [BitVec.toNat_setWidth, hsum, BitVec.toNat_add, BitVec.toNat_setWidth, Nat.mod_add_mod]
      rfl
    refine ⟨?_, ⟨fun _ => ?_⟩⟩
    · unfold Mode.dest
      simp only
      rw [hds, hbx, hwide, BitVec.add_assoc]
    · rw [hbx, hsum]
      omega
  | bits32 =>
    have hadd : (Mode.bits32.addTwo s).ebx = s.ebx + 2 := rfl
    refine ⟨?_, ⟨fun e => by cases e⟩⟩
    unfold Mode.dest
    simp only
    rw [hds, hebx, hadd, BitVec.add_assoc]

/-- The two bytes of a word stored. -/
theorem write16_at (m : Ram) (a : Word) (v : BitVec 16) {i : Nat} (hi : i < 2) :
    m.write16 a v (a + BitVec.ofNat 32 i) = v.extractLsb' (8 * i) 8 := by
  have hd : (a + BitVec.ofNat 32 i - a).toNat = i := by bv_omega
  unfold Ram.write16
  rw [hd, if_pos hi]

/-- `n` words have gone from the data port of `s` to the buffer; word `j` lies at 2 * `j`. -/
structure Filled (b : Mode) (n : Nat) (s s' : DiskMachine) : Prop where
  commands : s'.drive.commands = s.drive.commands
  inside : ∀ i, i < 2 * n →
    s'.mem (b.dest s + BitVec.ofNat 32 i) = (s.drive.pio.word s.drive.noise (i / 2)).extractLsb' (8 * (i % 2)) 8
  outside : ∀ x, (∀ i, i < 2 * n → x ≠ b.dest s + BitVec.ofNat 32 i) → s'.mem x = s.mem x

/-- One round. -/
theorem round_filled (b : Mode) (hdx : s.dx = 0x1f0) : Filled b 1 s (b.round s) := by
  refine ⟨?_, ?_, ?_⟩
  · rw [round_drive b hdx]
  · intro i hi
    have h0 : i / 2 = 0 := by omega
    have h1 : i % 2 = i := by omega
    rw [round_mem b hdx, write16_at _ _ _ (by omega), Pio.read_word, h0, h1]
  · intro x hx
    rw [round_mem b hdx]
    apply Ram.write16_far
    have hx0 := hx 0 (by omega)
    have hx1 := hx 1 (by omega)
    bv_omega

/-- A round, and the rounds behind it, which write behind it. -/
theorem Filled.round {k : Nat} (hlt : k < 2 ^ 16) (hdx : s.dx = 0x1f0) (hdest : b.dest (b.round s) = b.dest s + 2)
    (h : Filled b k (b.round s) s') : Filled b (k + 1) s s' := by
  have hone := round_filled b hdx
  have hin := h.inside
  have hout := h.outside
  rw [hdest] at hin hout
  refine ⟨h.commands.trans hone.commands, ?_, ?_⟩
  · intro i hi
    by_cases h2 : i < 2
    · rw [← hone.inside i h2]
      apply hout _
      intro j hj
      bv_omega
    · have haddr : b.dest s + BitVec.ofNat 32 i = b.dest s + 2 + BitVec.ofNat 32 (i - 2) := by bv_omega
      have hword : (b.round s).drive.pio.word (b.round s).drive.noise ((i - 2) / 2) = s.drive.pio.word s.drive.noise (i / 2) := by
        have hsucc : i / 2 = (i - 2) / 2 + 1 := by omega
        rw [hsucc, Pio.word_succ, round_drive b hdx]
      have hpar : (i - 2) % 2 = i % 2 := by omega
      rw [haddr, hin (i - 2) (by omega), hword, hpar]
  · intro x hx
    have hround : (b.round s).mem x = s.mem x := hone.outside x fun i hi => hx i (by omega)
    rw [← hround]
    apply hout x
    intro j hj e
    apply hx (j + 2) (by omega)
    rw [e]
    bv_omega

/-- `loop` runs to its end. -/
theorem goOnRead_spec {k : Nat} (hk : (b.counter s).toNat = k + 1) (hlt : k < 2 ^ 16) (hdx : s.dx = 0x1f0)
    (hroom : Room b s (2 * (k + 1))) : ∃ s', (∀ fuel, k < fuel → b.goOnRead fuel s = some s') ∧ Filled b (k + 1) s s' := by
  induction k generalizing s with
  | zero =>
    have hend : b.counter (b.round s) = 0 := BitVec.eq_of_toNat_eq (round_counter hk)
    refine ⟨b.round s, ?_, round_filled b hdx⟩
    intro fuel hf
    obtain ⟨fuel, rfl⟩ : ∃ m, fuel = m + 1 := ⟨fuel - 1, by omega⟩
    exact if_pos hend
  | succ k ih =>
    have hk' := round_counter hk
    have hgo : b.counter (b.round s) ≠ 0 := by
      intro e
      rw [e] at hk'
      cases hk'
    obtain ⟨hdest, hroom'⟩ := round_dest hroom
    obtain ⟨s', he, hfilled⟩ := ih hk' (by omega) ((round_dx b s).trans hdx) hroom'
    refine ⟨s', ?_, hfilled.round hlt hdx hdest⟩
    intro fuel hf
    obtain ⟨fuel, rfl⟩ : ∃ m, fuel = m + 1 := ⟨fuel - 1, by omega⟩
    exact (if_neg hgo).trans (he fuel (by omega))

/-! ## The sectors -/

/-- Sector `i`, which is ready, and `n` sectors behind it. -/
def Drive.front (d : Drive) (lba i n : Nat) : List (Block (BitVec 16)) :=
  ⟨0, (d.sector lba i).head, (d.sector lba i).tail⟩ :: d.sectors lba (i + 1) n

variable {d : Drive}

theorem sector_words (d : Drive) (lba i : Nat) : (d.sector lba i).words = (List.range 256).map (d.disk (lba + i)) := by
  rw [List.range_succ_eq_map, List.map_cons, List.map_map]
  rfl

theorem ready_front (d : Drive) (lba i n : Nat) :
    Pio.ready (d.front lba i n) = (List.range 256).map (d.disk (lba + i)) ++ Pio.ready (d.sectors lba (i + 1) n) := by
  rw [← sector_words]
  rfl

theorem ready_sectors_zero {i : Nat} (h : d.busy i = 0) (lba n : Nat) : d.sectors lba i (n + 1) = d.front lba i n := by
  have hsector : d.sector lba i = ⟨0, (d.sector lba i).head, (d.sector lba i).tail⟩ := by
    unfold Drive.sector
    rw [h]
  rw [Drive.sectors, hsector]
  rfl

theorem ready_sectors_busy {i : Nat} (h : d.busy i ≠ 0) (lba n : Nat) : Pio.ready (d.sectors lba i (n + 1)) = [] := by
  obtain ⟨c, hc⟩ := Nat.exists_eq_succ_of_ne_zero h
  have hsector : d.sector lba i = ⟨c + 1, (d.sector lba i).head, (d.sector lba i).tail⟩ := by
    unfold Drive.sector
    rw [hc]
  rw [Drive.sectors, hsector]
  rfl

/-- Without a pause the words of all sectors can be read. -/
theorem front_word {i k : Nat} (hz : ∀ j, i < j → j ≤ i + n → d.busy j = 0) (hk : k < 256 * (n + 1)) :
    (Pio.ready (d.front lba i n))[k]? = some (d.disk (lba + i + k / 256) (k % 256)) := by
  rw [ready_front]
  induction n generalizing i k with
  | zero =>
    have hdiv : k / 256 = 0 := by omega
    rw [List.getElem?_append_left (by simp; omega), List.getElem?_map, List.getElem?_range (by omega), hdiv,
      Nat.mod_eq_of_lt (by omega)]
    rfl
  | succ n ih =>
    by_cases h : k < 256
    · rw [List.getElem?_append_left (by simp; omega), List.getElem?_map, List.getElem?_range h, Nat.div_eq_of_lt h,
        Nat.mod_eq_of_lt h]
      rfl
    · have hlen : ((List.range 256).map (d.disk (lba + i))).length = 256 := by simp
      rw [List.getElem?_append_right (by omega), hlen, ready_sectors_zero (hz (i + 1) (by omega) (by omega)), ready_front,
        ih (fun j h1 h2 => hz j (by omega) (by omega)) (by omega)]
      have hsector : lba + (i + 1) + (k - 256) / 256 = lba + i + k / 256 := by omega
      have hword : (k - 256) % 256 = k % 256 := by omega
      rw [hsector, hword]

/-- Nothing behind a pause. -/
theorem front_short {i j : Nat} (h1 : i < j) (h2 : j ≤ i + n) (hbusy : d.busy j ≠ 0) :
    (Pio.ready (d.front lba i n)).length ≤ 256 * (j - i) := by
  rw [ready_front, List.length_append, List.length_map, List.length_range]
  induction n generalizing i with
  | zero => omega
  | succ n ih =>
    by_cases h0 : d.busy (i + 1) = 0
    · have hne : i + 1 ≠ j := by
        rintro rfl
        exact hbusy h0
      have hlen := ih (i := i + 1) (by omega) (by omega)
      rw [ready_sectors_zero h0, ready_front, List.length_append, List.length_map, List.length_range]
      omega
    · rw [ready_sectors_busy h0, List.length_nil]
      omega

/-! ## A call -/

theorem countWords_ecx (s : DiskMachine) :
    s.countWords.ecx = setLow16 s.ecx ((s.di.setWidth 32 * (256 : BitVec 16).setWidth 32).setWidth 16) := by
  simp only [countWords, mulDx, setAx, setDx, setCx, ax, dx, setLow16_low]

theorem countWords_dx (s : DiskMachine) : s.countWords.dx = 0x1f0 := dx_setDx ..

theorem words_toNat {v : BitVec 16} (h : v.toNat ≤ 255) :
    ((v.setWidth 32 * (256 : BitVec 16).setWidth 32).setWidth 16).toNat = 256 * v.toNat := by
  simp only [BitVec.toNat_setWidth, BitVec.toNat_mul]
  have h256 : (256 : BitVec 16).toNat = 256 := rfl
  rw [h256]
  omega

theorem Asked.cx (h : Asked b lba n s) : s.cx.toNat = n := by
  have hc := h.count
  have hle := h.le
  cases b with
  | bits16 =>
    have hcx : (s.cx.setWidth 32).toNat = n := hc
    rwa [BitVec.toNat_setWidth, Nat.mod_eq_of_lt (by have := s.cx.isLt; omega)] at hcx
  | bits32 =>
    have hecx : s.ecx.toNat = n := hc
    unfold DiskMachine.cx
    rw [BitVec.toNat_setWidth]
    omega

/-- The counter holds the number of words. -/
theorem Asked.words (h : Asked b lba n s) (s2 : DiskMachine) (hecx : s2.ecx = setLow8 s.ecx 8) (hdi : s2.di = s.cx) :
    (b.counter s2.countWords).toNat = 256 * n := by
  have hcx := h.cx
  have hle := h.le
  have hw := words_toNat (v := s.cx) (by omega)
  have he : s2.countWords.ecx = setLow16 (setLow8 s.ecx 8) ((s.cx.setWidth 32 * (256 : BitVec 16).setWidth 32).setWidth 16) := by
    rw [countWords_ecx, hecx, hdi]
  cases b with
  | bits16 =>
    show (s2.countWords.cx.setWidth 32).toNat = 256 * n
    unfold DiskMachine.cx
    rw [he, setLow16_low, BitVec.toNat_setWidth, hw, hcx]
    omega
  | bits32 =>
    have hecx : s.ecx.toNat = n := h.count
    have h8 := setLow8_toNat (r := s.ecx) (by omega) 8
    have h8' : (8 : BitVec 8).toNat = 8 := rfl
    show s2.countWords.ecx.toNat = 256 * n
    rw [he, setLow16_toNat (by omega), hw, hcx]

/-- The first sector is ready; the buffer's address and the number of sectors are as they were asked. -/
structure Waited (b : Mode) (lba n : Nat) (s s2 : DiskMachine) (p : Pio (BitVec 16)) : Prop where
  drive : s2.drive = { s.program.drive with pio := p }
  left : p.left = s.drive.front lba 0 (n - 1)
  ecx : s2.ecx = setLow8 s.ecx 8
  di : s2.di = s.cx
  dest : b.dest s2 = b.dest s
  bx : s2.bx = s.bx
  mem : s2.mem = s.mem

theorem Asked.waited (h : Asked b lba n s) : ∃ k s2 p, (∀ fuel, k ≤ fuel → notReady fuel s.program = some s2) ∧ Waited b lba n s s2 p := by
  have hpos := h.pos
  obtain ⟨m, rfl⟩ : ∃ m, n = m + 1 := ⟨n - 1, by omega⟩
  have hleft : s.program.drive.pio.left =
      ⟨s.drive.busy 0, (s.drive.sector lba 0).head, (s.drive.sector lba 0).tail⟩ :: s.drive.sectors lba 1 m := by
    rw [h.program.1]
    rfl
  have hdx := program_dx s
  obtain ⟨eax, p, hwait, hfront, -⟩ := notReady_spec hdx hleft
  generalize hs2 : ({ s.program with eax := eax, drive := { s.program.drive with pio := p } } : DiskMachine) = s2 at hwait
  have hebx : s2.ebx = s.ebx := by rw [← hs2]; exact program_ebx s
  have hds : s2.ds = s.ds := by rw [← hs2]; exact program_ds s
  have hedi : s2.edi = setLow16 s.edi s.cx := by rw [← hs2]; exact program_edi s
  have hbx : s2.bx = s.bx := by
    unfold DiskMachine.bx
    rw [hebx]
  refine ⟨s.drive.busy 0 + 1, s2, p, hwait, ?_, hfront, ?_, ?_, ?_, hbx, ?_⟩
  · rw [← hs2]
  · rw [← hs2]
    exact program_ecx s
  · unfold DiskMachine.di
    rw [hedi, setLow16_low]
  · cases b with
    | bits16 =>
      unfold Mode.dest
      simp only
      rw [hds, hbx]
    | bits32 =>
      unfold Mode.dest
      simp only
      rw [hds, hebx]
  · rw [← hs2]
    exact program_mem s

theorem countWords_dest (b : Mode) (s : DiskMachine) : b.dest s.countWords = b.dest s := by cases b <;> rfl

/-- A call puts the words that are read into the buffer: first the sector it has waited for. -/
theorem rdDisk_spec (h : Asked b lba n s) : ∃ k s' p, (∀ fuel, k ≤ fuel → b.rdDisk fuel s = some s') ∧
    p.left = s.drive.front lba 0 (n - 1) ∧ s'.drive.commands = (lba, n) :: s.drive.commands ∧
    (∀ i, i < 512 * n →
      s'.mem (b.dest s + BitVec.ofNat 32 i) = (Pio.word s.drive.noise p (i / 2)).extractLsb' (8 * (i % 2)) 8) ∧
    ∀ x, (∀ i, i < 512 * n → x ≠ b.dest s + BitVec.ofNat 32 i) → s'.mem x = s.mem x := by
  have hpos := h.pos
  have hle := h.le
  obtain ⟨-, hcmd, hnoise⟩ := h.program
  obtain ⟨k, s2, p, hwait, hw⟩ := h.waited
  have hcount := h.words s2 hw.ecx hw.di
  have hroom : Room b s2.countWords (2 * (256 * n - 1 + 1)) := by
    refine ⟨fun e => ?_⟩
    have hbx : s2.countWords.bx = s.bx := hw.bx
    have hfits := h.room e
    rw [hbx]
    omega
  obtain ⟨s', hgo, hfilled⟩ := goOnRead_spec (k := 256 * n - 1) (by rw [hcount]; omega) (by omega) (countWords_dx s2) hroom
  have hc := hfilled.commands
  have hin := hfilled.inside
  have hout := hfilled.outside
  have hdrive : s2.countWords.drive = { s.program.drive with pio := p } := hw.drive
  have hmem : s2.countWords.mem = s.mem := hw.mem
  have hdest := (countWords_dest b s2).trans hw.dest
  rw [hdest, hdrive] at hin
  rw [hdest, hmem] at hout
  rw [hdrive] at hc
  refine ⟨k + 256 * n, s', p, ?_, hw.left, hc.trans hcmd, ?_, ?_⟩
  · intro fuel hf
    unfold Mode.rdDisk
    rw [hwait fuel (by omega)]
    exact hgo fuel (by omega)
  · intro i hi
    rw [← hnoise]
    exact hin i (by omega)
  · intro x hx
    exact hout x fun i hi => hx i (by omega)

theorem Asked.withNoise (h : Asked b lba n s) (noise : Nat → BitVec 16) : Asked b lba n (s.withNoise noise) := by
  refine ⟨h.first, h.lbaLt, ?_, h.pos, h.le, h.room⟩
  rw [← h.count]
  cases b <;> rfl

theorem front_withNoise (s : DiskMachine) (noise : Nat → BitVec 16) (lba i n : Nat) :
    (s.withNoise noise).drive.front lba i n = s.drive.front lba i n := by
  have hsectors := @sectors_congr s.drive (s.withNoise noise).drive rfl rfl lba (i + 1) n
  unfold Drive.front
  rw [hsectors]
  rfl

/-- Each byte of a buffer is a half of its word. -/
theorem byte_of_word {w : BitVec 16} {i : Nat} (h : w = d.disk (lba + i / 2 / 256) (i / 2 % 256)) :
    w.extractLsb' (8 * (i % 2)) 8 = d.byte lba i := by
  have hsector : i / 2 / 256 = i / 512 := by omega
  have hword : i / 2 % 256 = i % 512 / 2 := by omega
  rw [h, hsector, hword]
  rfl

theorem Asked.delivers (h : Asked b lba n s) (hz : ∀ i, 0 < i → i < n → s.drive.busy i = 0) :
    Delivers b.rdDisk lba n (b.dest s) s := by
  have hpos := h.pos
  obtain ⟨k, s', p, he, hp, hc, hin, hout⟩ := rdDisk_spec h
  refine ⟨k, s', he, hc, ?_, hout⟩
  intro i hi
  rw [hin i hi]
  apply byte_of_word
  have hfront : (Pio.ready (s.drive.front lba 0 (n - 1)))[i / 2]? = some (s.drive.disk (lba + 0 + i / 2 / 256) (i / 2 % 256)) :=
    front_word (fun j h1 h2 => hz j h1 (by omega)) (by omega)
  rw [← hp] at hfront
  exact Pio.word_of_ready hfront

/-- Of a word and its complement the low bytes differ. -/
theorem not_low (w : BitVec 16) : (~~~w).extractLsb' 0 8 ≠ w.extractLsb' 0 8 := by
  intro e
  have h0 := congrArg (fun v : BitVec 8 => v.getLsbD 0) e
  simp at h0

/-- The drive pauses before sector `j`: the first word read then may be another one. -/
theorem Asked.astray {j : Nat} (h : Asked b lba n s) (h0 : 0 < j) (hj : j < n) (hbusy : s.drive.busy j ≠ 0) :
    ¬ Delivers b.rdDisk lba n (b.dest s) (s.withNoise fun _ => ~~~s.drive.disk (lba + j) 0) := by
  generalize hnoise : (fun _ => ~~~s.drive.disk (lba + j) 0 : Nat → BitVec 16) = noise
  intro hall
  obtain ⟨k1, s1, he1, -, hin1, -⟩ := hall
  obtain ⟨k, s', p, he, hp, -, hin, -⟩ := rdDisk_spec (h.withNoise noise)
  have hsame : s1 = s' := Option.some.inj ((he1 (k + k1) (by omega)).symm.trans (he (k + k1) (by omega)))
  have hdest : b.dest (s.withNoise noise) = b.dest s := by cases b <;> rfl
  rw [front_withNoise] at hp
  rw [hdest] at hin
  have hshort : (Pio.ready (s.drive.front lba 0 (n - 1))).length ≤ 256 * (j - 0) := front_short h0 (by omega) hbusy
  rw [← hp] at hshort
  have hread : Pio.word noise p (512 * j / 2) = noise (p.reads + 512 * j / 2) := Pio.word_of_noise (by omega)
  have hbyte := (hin1 (512 * j) (by omega)).symm.trans (hsame ▸ hin (512 * j) (by omega))
  have hpar : 512 * j % 2 = 0 := by omega
  have hsector : 512 * j / 512 = j := by omega
  have hfirst : 512 * j % 512 / 2 = 0 := by omega
  have hdisk : (s.withNoise noise).drive.byte lba (512 * j) = (s.drive.disk (lba + j) 0).extractLsb' 0 8 := by
    unfold Drive.byte
    rw [hsector, hfirst, hpar]
    rfl
  have hstored : Pio.word (s.withNoise noise).drive.noise p (512 * j / 2) = ~~~s.drive.disk (lba + j) 0 := by
    have hvalue : noise (p.reads + 512 * j / 2) = ~~~s.drive.disk (lba + j) 0 := by rw [← hnoise]
    exact hread.trans hvalue
  rw [hdisk, hstored, hpar] at hbyte
  exact not_low _ hbyte.symm

/-- Of a mode: whatever is read while no sector is ready, the call delivers exactly where no sector but the first is waited for. -/
theorem Asked.delivers_iff (h : Asked b lba n s) :
    (∀ noise, Delivers b.rdDisk lba n (b.dest s) (s.withNoise noise)) ↔ ∀ i, 0 < i → i < n → s.drive.busy i = 0 := by
  constructor
  · intro hall i h0 hi
    by_contra hbusy
    exact h.astray h0 hi hbusy (hall _)
  · intro hz noise
    have hdest : b.dest (s.withNoise noise) = b.dest s := by cases b <;> rfl
    have hdel := (h.withNoise noise).delivers hz
    rwa [hdest] at hdel

theorem rd_disk_iff (lba n : Nat) (s : DiskMachine) :
    (Asked .bits32 lba n s → ((∀ noise, Delivers rdDiskM32 lba n (s.ds + s.ebx) (s.withNoise noise)) ↔
      ∀ i, 0 < i → i < n → s.drive.busy i = 0)) ∧
    (Asked .bits16 lba n s → ((∀ noise, Delivers rdDiskM16 lba n (s.ds + s.bx.setWidth 32) (s.withNoise noise)) ↔
      ∀ i, 0 < i → i < n → s.drive.busy i = 0)) := ⟨Asked.delivers_iff, Asked.delivers_iff⟩

/-- The drive before the first command; every sector is `0xaa55`s. -/
def quietDrive (busy : Nat → Nat) : Drive where
  sectorCount := 0
  lbaLow := 0
  lbaMid := 0
  lbaHigh := 0
  device := 0
  pio := ⟨[], 0, 0⟩
  commands := []
  disk _ _ := 0xaa55
  busy := busy
  junk _ := 0x50
  noise _ := 0

/-- The loader's call for the kernel: 200 sectors from sector 9, to 0x70000. -/
def kernelCall (busy : Nat → Nat) : DiskMachine where
  eax := 9
  ebx := 0x70000
  ecx := 200
  edx := 0
  esi := 0
  edi := 0
  ds := 0
  mem _ := 0
  drive := quietDrive busy

/-- The MBR's call for the loader: 4 sectors from sector 2, to 0x900. -/
def loaderCall (busy : Nat → Nat) : DiskMachine := { kernelCall busy with eax := 2, ebx := 0x900, ecx := 4 }

theorem kernelCall_asked (busy : Nat → Nat) : Asked .bits32 9 200 (kernelCall busy) :=
  ⟨rfl, by decide, rfl, by decide, by decide, fun e => by cases e⟩

theorem loaderCall_asked (busy : Nat → Nat) : Asked .bits16 2 4 (loaderCall busy) := by
  have hbx : (loaderCall busy).bx.toNat = 0x900 := rfl
  refine ⟨rfl, by decide, rfl, by decide, by decide, fun _ => ?_⟩
  rw [hbx]
  decide

/-- A drive that is busy before the first sector only. -/
theorem calls_deliver :
    (∀ noise, Delivers rdDiskM32 9 200 0x70000 ((kernelCall fun i => if i = 0 then 3 else 0).withNoise noise)) ∧
    ∀ noise, Delivers rdDiskM16 2 4 0x900 ((loaderCall fun i => if i = 0 then 3 else 0).withNoise noise) :=
  ⟨((rd_disk_iff 9 200 _).1 (kernelCall_asked _)).mpr fun _ h0 _ => if_neg (by omega),
    ((rd_disk_iff 2 4 _).2 (loaderCall_asked _)).mpr fun _ h0 _ => if_neg (by omega)⟩

/-- It is busy for one poll before the second sector of the kernel. -/
theorem second_sector_lost : ¬ ∀ lba n s, Asked .bits32 lba n s → Delivers rdDiskM32 lba n (s.ds + s.ebx) s := by
  intro hall
  have hbusy : (kernelCall fun i => if i = 1 then 1 else 0).drive.busy 1 ≠ 0 := by decide
  have h := kernelCall_asked fun i => if i = 1 then 1 else 0
  exact h.astray (by decide) (by decide) hbusy (hall _ _ _ (h.withNoise _))

end TinyOs.Boot
