/-
  TinyOs.Boot.ReadDisk — `rd_disk_m_32` (loader.s) and `rd_disk_m_16` (mbr.s).

  The drive takes its registers at ports 0x1f2 to 0x1f6 and a command at 0x1f7, where its
  status is read; the words come through 0x1f0. A read command starts a transfer. Before
  sector `i` of it the drive shows BSY for `busy i` reads of the status; the other bits of
  a status, and the words read while no sector is ready, are whatever they are.

  Both routines are one, but for the width of the registers that count and address. They
  wait for the first sector and then read all words of all sectors. Here are the code,
  the command it gives (`Asked.program`) and the wait (`notReady_spec`); the transfer is
  in `TinyOs.Boot.DiskTransfer`.
-/

import TinyOs.Logic.Pio
import TinyOs.Logic.X86

namespace TinyOs.Boot

open TinyOs.Logic
open TinyOs.Logic.X86

/-! ## The drive -/

structure Drive where
  sectorCount : BitVec 8
  lbaLow : BitVec 8
  lbaMid : BitVec 8
  lbaHigh : BitVec 8
  device : BitVec 8
  /-- The sectors on their way. -/
  pio : Pio (BitVec 16)
  /-- First sector and number of sectors of the read commands, the last one first. -/
  commands : List (Nat × Nat)
  /-- Word `j` of sector `i`. -/
  disk : Nat → Nat → BitVec 16
  busy : Nat → Nat
  /-- The other bits of a status, by the number of its read. -/
  junk : Nat → BitVec 8
  noise : Nat → BitVec 16

namespace Drive

/-- The bits of the LBA in the four registers. -/
def lba (d : Drive) : Nat :=
  d.lbaLow.toNat + 2 ^ 8 * d.lbaMid.toNat + 2 ^ 16 * d.lbaHigh.toNat + 2 ^ 24 * (d.device &&& 0x0f).toNat

/-- 0 stands for 256. -/
def count (d : Drive) : Nat := if d.sectorCount = 0 then 256 else d.sectorCount.toNat

def sector (d : Drive) (lba i : Nat) : Block (BitVec 16) :=
  ⟨d.busy i, d.disk (lba + i) 0, (List.range 255).map fun j => d.disk (lba + i) (j + 1)⟩

/-- Sectors `i` to `i + n - 1` of a transfer. -/
def sectors (d : Drive) (lba : Nat) : Nat → Nat → List (Block (BitVec 16))
  | _, 0 => []
  | i, n + 1 => d.sector lba i :: sectors d lba (i + 1) n

/-- READ SECTORS, with LBA addressing. -/
def command (v : BitVec 8) (d : Drive) : Drive :=
  if v = 0x20 ∧ d.device &&& 0x40 ≠ 0 then
    { d with pio := { d.pio with left := d.sectors d.lba 0 d.count }, commands := (d.lba, d.count) :: d.commands }
  else d

def outb (port : BitVec 16) (v : BitVec 8) (d : Drive) : Drive :=
  if port = 0x1f2 then { d with sectorCount := v }
  else if port = 0x1f3 then { d with lbaLow := v }
  else if port = 0x1f4 then { d with lbaMid := v }
  else if port = 0x1f5 then { d with lbaHigh := v }
  else if port = 0x1f6 then { d with device := v }
  else if port = 0x1f7 then d.command v
  else d

/-- BSY is bit 7, and DRQ bit 3. -/
def status (d : Drive) : BitVec 8 :=
  match d.pio.phase with
  | .idle => d.junk d.pio.polls &&& 0x77
  | .busy => d.junk d.pio.polls ||| 0x80
  | .ready => d.junk d.pio.polls &&& 0x77 ||| 0x08

/-- The byte that a read gives, and the drive after it. -/
def inb (port : BitVec 16) (d : Drive) : BitVec 8 × Drive :=
  if port = 0x1f7 then (d.status, { d with pio := d.pio.poll }) else (0xff, d)

def inw (port : BitVec 16) (d : Drive) : BitVec 16 × Drive :=
  if port = 0x1f0 then ((d.pio.read d.noise).1, { d with pio := (d.pio.read d.noise).2 }) else (0xffff, d)

end Drive

/-! ## The processor -/

/-- `r` with another low byte, or low half. -/
def setLow8 (r : Word) (v : BitVec 8) : Word := r.extractLsb' 8 24 ++ v

def setLow16 (r : Word) (v : BitVec 16) : Word := r.extractLsb' 16 16 ++ v

structure DiskMachine where
  eax : Word
  ebx : Word
  ecx : Word
  edx : Word
  esi : Word
  edi : Word
  /-- The base of ds. -/
  ds : Word
  mem : Ram
  drive : Drive

namespace DiskMachine

def al (s : DiskMachine) : BitVec 8 := s.eax.setWidth 8
def ax (s : DiskMachine) : BitVec 16 := s.eax.setWidth 16
def bx (s : DiskMachine) : BitVec 16 := s.ebx.setWidth 16
def cl (s : DiskMachine) : BitVec 8 := s.ecx.setWidth 8
def cx (s : DiskMachine) : BitVec 16 := s.ecx.setWidth 16
def dx (s : DiskMachine) : BitVec 16 := s.edx.setWidth 16
def di (s : DiskMachine) : BitVec 16 := s.edi.setWidth 16

def setAl (v : BitVec 8) (s : DiskMachine) : DiskMachine := { s with eax := setLow8 s.eax v }
def setAx (v : BitVec 16) (s : DiskMachine) : DiskMachine := { s with eax := setLow16 s.eax v }
def setBx (v : BitVec 16) (s : DiskMachine) : DiskMachine := { s with ebx := setLow16 s.ebx v }
def setCl (v : BitVec 8) (s : DiskMachine) : DiskMachine := { s with ecx := setLow8 s.ecx v }
def setCx (v : BitVec 16) (s : DiskMachine) : DiskMachine := { s with ecx := setLow16 s.ecx v }
def setDx (v : BitVec 16) (s : DiskMachine) : DiskMachine := { s with edx := setLow16 s.edx v }
def setDi (v : BitVec 16) (s : DiskMachine) : DiskMachine := { s with edi := setLow16 s.edi v }

/-- `out dx, al` -/
def outAl (s : DiskMachine) : DiskMachine := { s with drive := s.drive.outb s.dx s.al }

/-- `in al, dx` -/
def inAl (s : DiskMachine) : DiskMachine :=
  let r := s.drive.inb s.dx
  { s.setAl r.1 with drive := r.2 }

/-- `in ax, dx` -/
def inAx (s : DiskMachine) : DiskMachine :=
  let r := s.drive.inw s.dx
  { s.setAx r.1 with drive := r.2 }

/-- `shr eax, cl` -/
def shrEax (s : DiskMachine) : DiskMachine := { s with eax := s.eax >>> (s.cl &&& 0x1f).toNat }

/-- `mul dx` -/
def mulDx (s : DiskMachine) : DiskMachine :=
  let p := s.ax.setWidth 32 * s.dx.setWidth 32
  (s.setAx (p.setWidth 16)).setDx (p.extractLsb' 16 16)

/-- To the command. -/
def program (s : DiskMachine) : DiskMachine :=
  let s := { s with esi := s.eax }
  let s := s.setDi s.cx
  let s := s.setDx 0x1f2
  let s := s.setAl s.cl
  let s := s.outAl
  let s := { s with eax := s.esi }
  let s := s.setDx 0x1f3
  let s := s.outAl
  let s := s.setCl 8
  let s := s.shrEax
  let s := s.setDx 0x1f4
  let s := s.outAl
  let s := s.shrEax
  let s := s.setDx 0x1f5
  let s := s.outAl
  let s := s.shrEax
  let s := s.setAl (s.al &&& 0x0f)
  let s := s.setAl (s.al ||| 0xe0)
  let s := s.setDx 0x1f6
  let s := s.outAl
  let s := s.setDx 0x1f7
  let s := s.setAl 0x20
  s.outAl

/-- `.not_ready`; `fuel` bounds the rounds. -/
def notReady : Nat → DiskMachine → Option DiskMachine
  | 0, _ => none
  | fuel + 1, s =>
    let s := s.inAl
    let s := s.setAl (s.al &&& 0x88)
    if s.al = 0x08 then some s else notReady fuel s

/-- From `.not_ready` to `.go_on_read`. -/
def countWords (s : DiskMachine) : DiskMachine :=
  let s := s.setAx s.di
  let s := s.setDx 256
  let s := s.mulDx
  let s := s.setCx s.ax
  s.setDx 0x1f0

end DiskMachine

open DiskMachine

/-- The mode: which registers address and count. -/
inductive Mode where
  | bits16 | bits32
  deriving DecidableEq, Repr

namespace Mode

/-- `[bx]`, or `[ebx]`. -/
def dest (s : DiskMachine) : Mode → Word
  | bits16 => s.ds + s.bx.setWidth 32
  | bits32 => s.ds + s.ebx

/-- `add bx, 2`, or `add ebx, 2`. -/
def addTwo (s : DiskMachine) : Mode → DiskMachine
  | bits16 => s.setBx (s.bx + 2)
  | bits32 => { s with ebx := s.ebx + 2 }

/-- `loop` counts with cx, or with ecx. -/
def countDown (s : DiskMachine) : Mode → DiskMachine
  | bits16 => s.setCx (s.cx - 1)
  | bits32 => { s with ecx := s.ecx - 1 }

def counter (s : DiskMachine) : Mode → Word
  | bits16 => s.cx.setWidth 32
  | bits32 => s.ecx

/-- A round of `.go_on_read`, up to `loop`'s test. -/
def round (b : Mode) (s : DiskMachine) : DiskMachine :=
  let s := s.inAx
  let s := { s with mem := s.mem.write16 (b.dest s) s.ax }
  let s := b.addTwo s
  b.countDown s

/-- `.go_on_read`; `fuel` bounds the rounds. -/
def goOnRead (b : Mode) : Nat → DiskMachine → Option DiskMachine
  | 0, _ => none
  | fuel + 1, s =>
    let s := b.round s
    if b.counter s = 0 then some s else goOnRead b fuel s

def rdDisk (b : Mode) (fuel : Nat) (s : DiskMachine) : Option DiskMachine :=
  (notReady fuel s.program).bind fun s => goOnRead b fuel s.countWords

end Mode

def rdDiskM16 : Nat → DiskMachine → Option DiskMachine := Mode.bits16.rdDisk

def rdDiskM32 : Nat → DiskMachine → Option DiskMachine := Mode.bits32.rdDisk

/-! ## What is asked -/

namespace Drive

/-- Byte `i` of the sectors from `lba` on. -/
def byte (d : Drive) (lba i : Nat) : BitVec 8 := (d.disk (lba + i / 512) (i % 512 / 2)).extractLsb' (8 * (i % 2)) 8

end Drive

/-- `n` sectors from `lba` are asked for; in 16-bit code they fit in the segment. -/
structure Asked (b : Mode) (lba n : Nat) (s : DiskMachine) : Prop where
  first : s.eax.toNat = lba
  lbaLt : lba < 2 ^ 28
  count : (b.counter s).toNat = n
  pos : 1 ≤ n
  le : n ≤ 255
  room : b = .bits16 → s.bx.toNat + 512 * n ≤ 65536

/-- `rd` returns, after one command; the sectors are at `a`, and the other bytes of memory are as they were. -/
def Delivers (rd : Nat → DiskMachine → Option DiskMachine) (lba n : Nat) (a : Word) (s : DiskMachine) : Prop :=
  ∃ k s', (∀ fuel, k ≤ fuel → rd fuel s = some s') ∧ s'.drive.commands = (lba, n) :: s.drive.commands ∧
    (∀ i, i < 512 * n → s'.mem (a + BitVec.ofNat 32 i) = s.drive.byte lba i) ∧
    ∀ x, (∀ i, i < 512 * n → x ≠ a + BitVec.ofNat 32 i) → s'.mem x = s.mem x

/-- Other words are read while no sector is ready. -/
def DiskMachine.withNoise (s : DiskMachine) (noise : Nat → BitVec 16) : DiskMachine :=
  { s with drive := { s.drive with noise := noise } }

/-! ## The registers -/

variable {s s' : DiskMachine} {b : Mode} {lba n : Nat}

theorem setLow8_low (r : Word) (v : BitVec 8) : (setLow8 r v).setWidth 8 = v := by
  apply BitVec.eq_of_getLsbD_eq
  intro i hi
  simp only [setLow8, BitVec.getLsbD_setWidth, BitVec.getLsbD_append]
  simp [hi]

theorem setLow16_low (r : Word) (v : BitVec 16) : (setLow16 r v).setWidth 16 = v := by
  apply BitVec.eq_of_getLsbD_eq
  intro i hi
  simp only [setLow16, BitVec.getLsbD_setWidth, BitVec.getLsbD_append]
  simp [hi]

/-- A register that held less than 2^16 holds what is loaded into its low half. -/
theorem setLow16_toNat {r : Word} (h : r.toNat < 2 ^ 16) (v : BitVec 16) : (setLow16 r v).toNat = v.toNat := by
  have hhi : r.extractLsb' 16 16 = 0 := by
    apply BitVec.eq_of_toNat_eq
    rw [BitVec.extractLsb'_toNat, Nat.shiftRight_eq_div_pow, Nat.div_eq_of_lt h]
    rfl
  unfold setLow16
  rw [hhi, BitVec.toNat_append]
  simp

theorem setLow8_toNat {r : Word} (h : r.toNat < 2 ^ 8) (v : BitVec 8) : (setLow8 r v).toNat = v.toNat := by
  have hhi : r.extractLsb' 8 24 = 0 := by
    apply BitVec.eq_of_toNat_eq
    rw [BitVec.extractLsb'_toNat, Nat.shiftRight_eq_div_pow, Nat.div_eq_of_lt h]
    rfl
  unfold setLow8
  rw [hhi, BitVec.toNat_append]
  simp

@[simp] theorem al_setAl (s : DiskMachine) (v : BitVec 8) : (s.setAl v).al = v := setLow8_low ..
@[simp] theorem ax_setAx (s : DiskMachine) (v : BitVec 16) : (s.setAx v).ax = v := setLow16_low ..
@[simp] theorem bx_setBx (s : DiskMachine) (v : BitVec 16) : (s.setBx v).bx = v := setLow16_low ..
@[simp] theorem cl_setCl (s : DiskMachine) (v : BitVec 8) : (s.setCl v).cl = v := setLow8_low ..
@[simp] theorem cx_setCx (s : DiskMachine) (v : BitVec 16) : (s.setCx v).cx = v := setLow16_low ..
@[simp] theorem dx_setDx (s : DiskMachine) (v : BitVec 16) : (s.setDx v).dx = v := setLow16_low ..
@[simp] theorem di_setDi (s : DiskMachine) (v : BitVec 16) : (s.setDi v).di = v := setLow16_low ..

/-! ## The command -/

theorem program_ebx (s : DiskMachine) : s.program.ebx = s.ebx := rfl

theorem program_ds (s : DiskMachine) : s.program.ds = s.ds := rfl

theorem program_mem (s : DiskMachine) : s.program.mem = s.mem := rfl

theorem program_ecx (s : DiskMachine) : s.program.ecx = setLow8 s.ecx 8 := rfl

theorem program_edi (s : DiskMachine) : s.program.edi = setLow16 s.edi s.cx := rfl

theorem program_dx (s : DiskMachine) : s.program.dx = 0x1f7 := by
  have hedx : ∃ r, s.program.edx = setLow16 r 0x1f7 := ⟨_, rfl⟩
  obtain ⟨r, hr⟩ := hedx
  unfold DiskMachine.dx
  rw [hr, setLow16_low]

/-- What the drive gets. -/
theorem program_drive (s : DiskMachine) : s.program.drive =
    (((((s.drive.outb 0x1f2 s.cl).outb 0x1f3 (s.eax.setWidth 8)).outb 0x1f4 ((s.eax >>> 8).setWidth 8)).outb 0x1f5
      ((s.eax >>> 8 >>> 8).setWidth 8)).outb 0x1f6 ((s.eax >>> 8 >>> 8 >>> 8).setWidth 8 &&& 0x0f ||| 0xe0)).outb 0x1f7 0x20 := by
  have h8 : ((8 : BitVec 8) &&& 0x1f).toNat = 8 := by decide
  simp only [program, outAl, shrEax, setDi, setDx, setAl, setCl, al, cl, dx, setLow8_low, setLow16_low, h8]

theorem device_bits : ∀ v : BitVec 8, ((v &&& 0x0f ||| 0xe0) &&& 0x0f).toNat = v.toNat % 16 ∧ (v &&& 0x0f ||| 0xe0) &&& 0x40 ≠ 0 := by
  decide +kernel

/-- The four bytes hold an LBA of 28 bits. -/
theorem lba_bytes {w : Word} (h : w.toNat < 2 ^ 28) : (w.setWidth 8).toNat + 2 ^ 8 * ((w >>> 8).setWidth 8).toNat +
    2 ^ 16 * ((w >>> 8 >>> 8).setWidth 8).toNat +
    2 ^ 24 * (((w >>> 8 >>> 8 >>> 8).setWidth 8 &&& 0x0f ||| 0xe0) &&& 0x0f).toNat = w.toNat := by
  rw [(device_bits _).1]
  simp only [BitVec.toNat_setWidth, BitVec.toNat_ushiftRight, Nat.shiftRight_eq_div_pow]
  omega

theorem Asked.cl (h : Asked b lba n s) : s.cl.toNat = n := by
  have hc := h.count
  have hle := h.le
  unfold DiskMachine.cl
  rw [BitVec.toNat_setWidth]
  cases b with
  | bits16 =>
    have hcx : (s.cx.setWidth 32).toNat = n := hc
    unfold cx at hcx
    rw [BitVec.toNat_setWidth, BitVec.toNat_setWidth] at hcx
    omega
  | bits32 =>
    have hecx : s.ecx.toNat = n := hc
    omega

theorem sectors_congr {d d' : Drive} (hd : d'.disk = d.disk) (hb : d'.busy = d.busy) (lba i n : Nat) :
    d'.sectors lba i n = d.sectors lba i n := by
  induction n generalizing i with
  | zero => rfl
  | succ n ih =>
    have hsector : d'.sector lba i = d.sector lba i := by
      unfold Drive.sector
      rw [hd, hb]
    rw [Drive.sectors, Drive.sectors, hsector, ih]

/-- The drive with these values in its registers. -/
def Drive.load (d : Drive) (count low mid high device : BitVec 8) : Drive :=
  { d with sectorCount := count, lbaLow := low, lbaMid := mid, lbaHigh := high, device := device }

theorem outb_registers (d : Drive) (count low mid high device : BitVec 8) :
    ((((d.outb 0x1f2 count).outb 0x1f3 low).outb 0x1f4 mid).outb 0x1f5 high).outb 0x1f6 device =
      d.load count low mid high device := rfl

theorem outb_read {d : Drive} (h : d.device &&& 0x40 ≠ 0) : d.outb 0x1f7 0x20 =
    { d with pio := { d.pio with left := d.sectors d.lba 0 d.count }, commands := (d.lba, d.count) :: d.commands } := by
  have hcommand : d.outb 0x1f7 0x20 = d.command 0x20 := rfl
  rw [hcommand, Drive.command, if_pos ⟨rfl, h⟩]

/-- The drive has got one command: for the sectors that are asked. -/
theorem Asked.program (h : Asked b lba n s) :
    s.program.drive.pio = ⟨s.drive.sectors lba 0 n, s.drive.pio.polls, s.drive.pio.reads⟩ ∧
      s.program.drive.commands = (lba, n) :: s.drive.commands ∧ s.program.drive.noise = s.drive.noise := by
  have hcl := h.cl
  have hpos := h.pos
  have hne : s.cl ≠ 0 := by
    intro e
    rw [e] at hcl
    have hz : (0 : BitVec 8).toNat = 0 := rfl
    omega
  have hdev := (device_bits ((s.eax >>> 8 >>> 8 >>> 8).setWidth 8)).2
  rw [program_drive, outb_registers]
  generalize hd : s.drive.load s.cl (s.eax.setWidth 8) ((s.eax >>> 8).setWidth 8) ((s.eax >>> 8 >>> 8).setWidth 8)
    ((s.eax >>> 8 >>> 8 >>> 8).setWidth 8 &&& 0x0f ||| 0xe0) = d
  have hlba : d.lba = lba := by
    rw [← hd, ← h.first]
    exact lba_bytes (by rw [h.first]; exact h.lbaLt)
  have hcount : d.count = n := by
    rw [← hd]
    exact (if_neg hne).trans hcl
  have hmode : d.device &&& 0x40 ≠ 0 := by
    rw [← hd]
    exact hdev
  have hdisk : d.disk = s.drive.disk := by rw [← hd]; rfl
  have hbusy : d.busy = s.drive.busy := by rw [← hd]; rfl
  have hsectors := sectors_congr hdisk hbusy lba 0 n
  rw [outb_read hmode, hlba, hcount, hsectors, ← hd]
  exact ⟨rfl, rfl, rfl⟩

/-! ## The wait -/

theorem busy_bits : ∀ v : BitVec 8, (v ||| 0x80) &&& 0x88 ≠ 0x08 := by decide +kernel

theorem ready_bits : ∀ v : BitVec 8, (v &&& 0x77 ||| 0x08) &&& 0x88 = 0x08 := by decide +kernel

/-- After one round. -/
def DiskMachine.polled (s : DiskMachine) : DiskMachine :=
  { s with eax := setLow8 (setLow8 s.eax s.drive.status) (s.drive.status &&& 0x88), drive := { s.drive with pio := s.drive.pio.poll } }

theorem notReady_round (hdx : s.dx = 0x1f7) (fuel : Nat) : notReady (fuel + 1) s =
    if s.drive.status &&& 0x88 = 0x08 then some s.polled else notReady fuel s.polled := by
  have hin : s.inAl = { s.setAl s.drive.status with drive := { s.drive with pio := s.drive.pio.poll } } := by
    unfold inAl
    rw [hdx]
    rfl
  have hal : s.inAl.al = s.drive.status := by
    rw [hin]
    exact al_setAl ..
  have hround : s.inAl.setAl (s.drive.status &&& 0x88) = s.polled := by
    rw [hin]
    rfl
  show (if (s.inAl.setAl (s.inAl.al &&& 0x88)).al = 0x08 then some (s.inAl.setAl (s.inAl.al &&& 0x88))
    else notReady fuel (s.inAl.setAl (s.inAl.al &&& 0x88))) = _
  rw [hal, al_setAl, hround]

/-- The loop ends when the sector in front is ready. -/
theorem notReady_spec {k : Nat} {w : BitVec 16} {ws : List (BitVec 16)} {rest : List (Block (BitVec 16))} (hdx : s.dx = 0x1f7)
    (hl : s.drive.pio.left = ⟨k, w, ws⟩ :: rest) : ∃ eax p, (∀ fuel, k < fuel →
      notReady fuel s = some { s with eax := eax, drive := { s.drive with pio := p } }) ∧
      p.left = ⟨0, w, ws⟩ :: rest ∧ p.reads = s.drive.pio.reads := by
  induction k generalizing s with
  | zero =>
    have hstatus : s.drive.status &&& 0x88 = 0x08 := by
      unfold Drive.status
      rw [Pio.phase_ready hl]
      exact ready_bits _
    refine ⟨s.polled.eax, s.drive.pio.poll, ?_, ?_, Pio.poll_reads _⟩
    · intro fuel hf
      obtain ⟨fuel, rfl⟩ : ∃ m, fuel = m + 1 := ⟨fuel - 1, by omega⟩
      rw [notReady_round hdx, if_pos hstatus]
      rfl
    · rw [Pio.poll_left hl, hl]
  | succ k ih =>
    have hstatus : s.drive.status &&& 0x88 ≠ 0x08 := by
      unfold Drive.status
      rw [Pio.phase_busy hl]
      exact busy_bits _
    have hnext : s.polled.drive.pio.left = ⟨k, w, ws⟩ :: rest := by
      show s.drive.pio.poll.left = _
      rw [Pio.poll_busy hl]
    obtain ⟨eax, p, he, hp, hr⟩ := ih (s := s.polled) hdx hnext
    refine ⟨eax, p, ?_, hp, hr.trans (Pio.poll_reads _)⟩
    intro fuel hf
    obtain ⟨fuel, rfl⟩ : ∃ m, fuel = m + 1 := ⟨fuel - 1, by omega⟩
    rw [notReady_round hdx, if_neg hstatus, he fuel (by omega)]
    rfl

end TinyOs.Boot
