/-
  TinyOs.Boot.Startup — from the loader's first instruction to the kernel's (boot/loader.s).

  The loader stores the memory's size, reads 200 sectors of the disk to 0x70000, builds the
  page tables, moves the GDT to the kernel's addresses and turns paging on; then
  `kernel_init` copies the segments of what it has read to where they are linked.

  `kernel_booted`: if the drive does not pause and an executable of at most 200 sectors is on
  the disk, linked behind the loader and below the buffer, every linear address of a
  segment shows the disk's byte when the kernel is entered, a bss what memory held before
  the loader came, and no step has written over what a later one needs. As long as the
  kernel leaves them alone mem_init finds the size and the tables, and on memory that held no
  present entry there its pools are a start of `runs_isolated`.
-/

import TinyOs.Boot.DiskTransfer
import TinyOs.Boot.KernelInit
import TinyOs.Boot.MemoryDetect
import TinyOs.Memory.Isolation

namespace TinyOs.Boot

open TinyOs.Kernel TinyOs.Lib TinyOs.Logic TinyOs.Memory
open TinyOs.Logic.X86

/-! ## The loader -/

/-- `LOADER_STACK_TOP` -/
def loaderStackTop : Nat := 0x900

def kernelStartSector : Word := 9

/-- Memory by words, and by numbers. -/
def ram (m : Bytes) : Ram := fun a => m a.toNat

def bytes (m : Ram) : Bytes := fun a => m (BitVec.ofNat 32 a)

/-- A call from the loader's top level; `none` also where it would return elsewhere. -/
def call (back : Nat) (routine : Bytes → Option Bytes) (m : Bytes) : Option Bytes :=
  (routine (m.write32 (loaderStackTop - 4) back)).bind fun m => if m.read32 (loaderStackTop - 4) = back then some m else none

/-- `rd_disk_m_32` for the kernel, with the other registers and the drive of `s`. -/
def readKernel (fuel : Nat) (s : DiskMachine) (m : Bytes) : Option Bytes :=
  (rdDiskM32 fuel { s with eax := kernelStartSector, ebx := kernelBinBaseAddr, ecx := 200, ds := 0, mem := ram m }).map
    fun s => bytes s.mem

/-- `gdt_ptr`: a limit of 16 bits and a base. -/
def gdtPtr : Nat := 0xb04

/-- `sgdt` stores what `lgdt` has loaded: GDT_LIMIT and GDT_BASE. -/
def sgdt (m : Bytes) : Bytes := ((m.write8 gdtPtr 31).write8 (gdtPtr + 1) 0).write32 (gdtPtr + 2) 0x900

/-- From `sgdt` to `add dword [gdt_ptr + 2], 0xc0000000`. -/
def moveGdt (m : Bytes) : Bytes :=
  let m := sgdt m
  let ebx := m.read32 (gdtPtr + 2)
  let m := m.write32 (ebx + 0x18 + 4) (m.read32 (ebx + 0x18 + 4) ||| 0xc0000000)
  m.write32 (gdtPtr + 2) ((m.read32 (gdtPtr + 2) + 0xc0000000) % 2 ^ 32)

/-- Where the two calls return to. -/
structure Backs where
  rdDisk : BitVec 32
  setupPage : BitVec 32

/-- Up to the second `lgdt`, the memory; `s` is the machine after the BIOS's answers. -/
def loader (fuel : Nat) (b : Backs) (e801 e88 : Answer) (s : DiskMachine) : Option Bytes :=
  (detect e801 e88).bind fun total =>
    (call b.rdDisk.toNat (readKernel fuel s) ((bytes s.mem).write32 totalMemBytes total.toNat)).bind fun m =>
      (call b.setupPage.toNat (fun m => some (setupPage m)) m).map moveGdt

/-- What `kernel_init` takes for memory is what the page tables show. -/
def Paged (e : Env) (m : Bytes) : Prop :=
  ∀ (a : Word) (p : Nat), translate m pageDirTablePos a.toNat = some p → e.phys a = BitVec.ofNat 32 p

/-- A load of a byte; `none` is a page fault. -/
def loadByte (m : Ram) (v : Nat) : Option (BitVec 8) := (translate (bytes m) pageDirTablePos v).map (bytes m)

/-! ## The file -/

namespace File

def half (f : Bytes) (l : Nat) : BitVec 16 := f (l + 1) ++ f l

def word (f : Bytes) (l : Nat) : Word := f (l + 3) ++ f (l + 2) ++ f (l + 1) ++ f l

def ePhoff (f : Bytes) : Nat := (word f 28).toNat

def ePhentsize (f : Bytes) : Nat := (half f 42).toNat

def ePhnum (f : Bytes) : Nat := (half f 44).toNat

def phdr (f : Bytes) (i : Nat) : Phdr :=
  let a := ePhoff f + i * ePhentsize f
  { pType := word f a
    pOffset := word f (a + 4)
    pVaddr := word f (a + 8)
    pFilesz := word f (a + 16)
    pMemsz := word f (a + 20) }

def phdrs (f : Bytes) : List Phdr := (List.range (ePhnum f)).map (phdr f)

end File

open File

/-- An executable of `len` bytes that fits in 200 sectors, linked behind the loader's four and
below the buffer, with a loadable segment for all that it has copied. -/
structure Kernel (f : Bytes) (len : Nat) : Prop where
  header : 52 ≤ len
  fits : len ≤ 200 * 512
  counted : ePhnum f ≠ 0
  entsize : 32 ≤ ePhentsize f
  table : ePhoff f + ePhnum f * ePhentsize f ≤ len
  segments : ∀ p ∈ phdrs f, p.pType ≠ ptNull → p.pOffset.toNat + p.pFilesz.toNat ≤ len
  sizes : ∀ p ∈ phdrs f, p.pType = ptLoad → p.pFilesz.toNat ≤ p.pMemsz.toNat
  others : ∀ p ∈ phdrs f, p.Copied → p.pType ≠ ptLoad → p.pFilesz.toNat = 0
  placed : ∀ p ∈ phdrs f, p.pType = ptLoad → 0xc0001100 ≤ p.pVaddr.toNat ∧ p.pVaddr.toNat + p.pMemsz.toNat ≤ 0xc0070000
  disjoint : ∀ i j, i < ePhnum f → j < ePhnum f → (phdr f i).pType = ptLoad → (phdr f j).pType = ptLoad → i ≠ j →
    (phdr f i).pVaddr.toNat + (phdr f i).pMemsz.toNat ≤ (phdr f j).pVaddr.toNat ∨
      (phdr f j).pVaddr.toNat + (phdr f j).pMemsz.toNat ≤ (phdr f i).pVaddr.toNat

/-! ## Up to paging -/

variable {s : DiskMachine} {b : Backs} {e801 e88 : Answer} {total : BitVec 32} {m : Bytes}

theorem bytes_ram {a : Nat} (h : a < 2 ^ 32) : bytes (ram m) a = m a := by
  unfold bytes ram
  rw [BitVec.toNat_ofNat, Nat.mod_eq_of_lt h]

/-- The kernel's sectors at 0x70000, and nothing else written. -/
theorem readKernel_spec (s : DiskMachine) (m : Bytes) (hquiet : ∀ i, 0 < i → i < 200 → s.drive.busy i = 0) :
    ∃ k m', (∀ fuel, k ≤ fuel → readKernel fuel s m = some m') ∧
      (∀ l, l < 200 * 512 → m' (0x70000 + l) = s.drive.byte 9 l) ∧
      ∀ a, a < 2 ^ 32 → ¬ (0x70000 ≤ a ∧ a < 0x89000) → m' a = m a := by
  generalize hc : ({ s with eax := kernelStartSector, ebx := kernelBinBaseAddr, ecx := 200, ds := 0, mem := ram m } :
    DiskMachine) = c
  have hdrive : c.drive = s.drive := by rw [← hc]
  have hmem : c.mem = ram m := by rw [← hc]
  have hdest : Mode.bits32.dest c = 0x70000 := by
    rw [← hc]
    exact BitVec.zero_add kernelBinBaseAddr
  have hask : Asked .bits32 9 200 c := by
    rw [← hc]
    refine ⟨?_, by decide, ?_, by decide, by decide, nofun⟩
    · show kernelStartSector.toNat = 9
      rfl
    · show (200 : Word).toNat = 200
      rfl
  rw [← hdrive] at hquiet ⊢
  obtain ⟨k, s', he, -, hin, hout⟩ := hask.delivers hquiet
  rw [hdest] at hin hout
  rw [hmem] at hout
  refine ⟨k, bytes s'.mem, ?_, ?_, ?_⟩
  · intro fuel hf
    unfold readKernel
    rw [hc]
    exact congrArg (Option.map _) (he fuel hf)
  · intro l hl
    rw [← hin l (by omega)]
    unfold bytes
    rw [BitVec.ofNat_add, BitVec.ofNat_eq_ofNat]
  · intro a ha hno
    rw [← bytes_ram (m := m) ha]
    refine hout _ ?_
    intro i hi
    bv_omega

/-- A routine that leaves its return address alone returns. -/
theorem call_eq {back : BitVec 32} {routine : Bytes → Option Bytes} {m' : Bytes}
    (h : routine (m.write32 (loaderStackTop - 4) back.toNat) = some m')
    (hkeep : Set.EqOn m' (m.write32 (loaderStackTop - 4) back.toNat) (Bytes.word (loaderStackTop - 4))) :
    call back.toNat routine m = some m' := by
  unfold call
  rw [h, Option.bind_some, Bytes.read32_congr hkeep, Bytes.read32_write32 _ _ back.isLt]
  exact if_pos rfl

theorem moveGdt_outside {x : Nat} (hdesc : ¬ (0x91c ≤ x ∧ x < 0x920)) (hptr : ¬ (0xb04 ≤ x ∧ x < 0xb0a)) :
    moveGdt m x = m x := by
  have hbase : (sgdt m).read32 (gdtPtr + 2) = 0x900 := Bytes.read32_write32 _ _ (by decide)
  have hx : ∀ a, ¬ (a ≤ x ∧ x < a + 4) → x ∉ Bytes.word a := fun a h hx => h (Set.mem_Ico.mp hx)
  unfold moveGdt
  simp only [hbase]
  rw [Bytes.write32_of_notMem (hx _ (by unfold gdtPtr; omega)), Bytes.write32_of_notMem (hx _ (by omega))]
  unfold sgdt gdtPtr
  rw [Bytes.write32_of_notMem (hx _ (by omega)), Bytes.write8_ne _ _ (by omega), Bytes.write8_ne _ _ (by omega)]

/-- The size and the tables are in memory, as the loader leaves them. -/
def Tabled (total : BitVec 32) (m : Bytes) : Prop :=
  ∃ m', Set.EqOn m (loaderMem total m') (Bytes.word totalMemBytes ∪ Set.Ico 0x100000 (2 ^ 32))

/-- What the loader's steps have left for `kernel_init`, and for the kernel. -/
structure Prepared (s : DiskMachine) (total : BitVec 32) (m : Bytes) : Prop where
  file : ∀ l, l < 200 * 512 → m (0x70000 + l) = s.drive.byte 9 l
  kept : ∀ a, 0xc00 ≤ a → a < 0x70000 → m a = bytes s.mem a
  above : ∀ a, 0x101400 ≤ a → a < 2 ^ 32 → m a = bytes s.mem a
  tables : Tabled total m

theorem loader_spec (h : detect e801 e88 = some total) (hquiet : ∀ i, 0 < i → i < 200 → s.drive.busy i = 0) (b : Backs) :
    ∃ k m, (∀ fuel, k ≤ fuel → loader fuel b e801 e88 s = some m) ∧ Prepared s total m := by
  generalize h0 : (bytes s.mem).write32 totalMemBytes total.toNat = m0
  have hsize : ∀ x, ¬ (0xb00 ≤ x ∧ x < 0xb04) → m0 x = bytes s.mem x := by
    intro x hx
    rw [← h0]
    exact Bytes.write32_of_notMem fun hmem => hx (Set.mem_Ico.mp hmem)
  have hpush : ∀ (m : Bytes) (back : BitVec 32) x, ¬ (0x8fc ≤ x ∧ x < 0x900) →
      m.write32 (loaderStackTop - 4) back.toNat x = m x :=
    fun m back x hx => Bytes.write32_of_notMem fun hmem => hx (Set.mem_Ico.mp hmem)
  obtain ⟨k, m2, hread, hfile, hkeep⟩ := readKernel_spec s (m0.write32 (loaderStackTop - 4) b.rdDisk.toNat) hquiet
  generalize h3 : m2.write32 (loaderStackTop - 4) b.setupPage.toNat = m3
  have hm3 : ∀ x, ¬ (0x8fc ≤ x ∧ x < 0x900) → m3 x = m2 x := by
    rw [← h3]
    exact hpush m2 b.setupPage
  have hlow : ∀ x, x < 0x100000 → setupPage m3 x = m3 x := fun x hx => setupPage_outside (.inl hx)
  -- below the tables, past the stack
  have hafter : ∀ x, 0xb00 ≤ x → x < 0xb04 ∨ 0xc00 ≤ x → x < 0x100000 → moveGdt (setupPage m3) x = m2 x := by
    intro x h1 h2 h4
    rw [moveGdt_outside (by omega) (by omega), hlow x h4, hm3 x (by omega)]
  have hfirst : ∀ x, 0xb00 ≤ x → x < 0x70000 → m2 x = m0 x := by
    intro x h1 h2
    rw [hkeep x (by omega) (by omega), hpush m0 _ x (by omega)]
  refine ⟨k, moveGdt (setupPage m3), ?_, ?_, ?_, ?_, ?_⟩
  · intro fuel hf
    have hcall : call b.rdDisk.toNat (readKernel fuel s) m0 = some m2 := by
      refine call_eq (hread fuel hf) ?_
      intro x hx
      have hx := Set.mem_Ico.mp hx
      unfold loaderStackTop at hx
      exact hkeep x (by omega) (by omega)
    have hsetup : call b.setupPage.toNat (fun m => some (setupPage m)) m2 = some (setupPage m3) := by
      refine call_eq (congrArg (some ∘ setupPage) h3) ?_
      intro x hx
      have hx := Set.mem_Ico.mp hx
      unfold loaderStackTop at hx
      rw [hlow x (by omega), h3]
    unfold loader
    rw [h, Option.bind_some, h0, hcall, Option.bind_some, hsetup]
    rfl
  · intro l hl
    rw [hafter _ (by omega) (by omega) (by omega), hfile l hl]
  · intro a h1 h2
    rw [hafter a (by omega) (.inr h1) (by omega), hfirst a (by omega) h2, hsize a (by omega)]
  · intro a h1 h2
    rw [moveGdt_outside (by omega) (by omega), setupPage_outside (by unfold pageDirTablePos; omega), hm3 a (by omega),
      hkeep a h2 (by omega), hpush m0 _ a (by omega), hsize a (by omega)]
  · refine ⟨m3, ?_⟩
    -- m3 has the size already
    have hsame : m3.write32 totalMemBytes total.toNat = m3 := by
      funext x
      by_cases hx : x ∈ Bytes.word totalMemBytes
      · obtain ⟨h1, h2⟩ := Set.mem_Ico.mp hx
        unfold totalMemBytes at h1 h2
        rw [hm3 x (by omega), hfirst x h1 (by omega), ← h0]
        unfold Bytes.write32
        rw [if_pos ⟨h1, h2⟩, if_pos ⟨h1, h2⟩]
      · exact Bytes.write32_of_notMem hx
    unfold loaderMem
    rw [hsame]
    intro x hx
    refine moveGdt_outside ?_ ?_ <;> rcases hx with hx | hx <;> have hx := Set.mem_Ico.mp hx <;>
      unfold totalMemBytes at * <;> omega

/-! ## Under paging -/

variable {e : Env} {f : Bytes} {len : Nat}

theorem Tabled.walked (h : Tabled total m) : ∃ m', Set.EqOn m (setupPage m') (Set.Ico 0x100000 0x102000) := by
  obtain ⟨m', he⟩ := h
  exact ⟨_, he.mono ((Set.Ico_subset_Ico_right (by decide)).trans Set.subset_union_right)⟩

theorem Tabled.low (h : Tabled total m) {a : Nat} (ha : a < 0x100000) : translate m pageDirTablePos a = some a := by
  obtain ⟨m', he⟩ := h.walked
  rw [megabyte_walk he (.inl (by unfold pdeIdx; omega)) (by unfold pteIdx; omega)]
  unfold pteIdx
  exact congrArg some (by omega)

theorem Tabled.high (h : Tabled total m) {a : Nat} (ha : a < 0x100000) :
    translate m pageDirTablePos (0xc0000000 + a) = some a := by
  obtain ⟨m', he⟩ := h.walked
  rw [megabyte_walk he (.inr (by unfold pdeIdx; omega)) (by unfold pteIdx; omega)]
  unfold pteIdx
  exact congrArg some (by omega)

theorem filePlace_eq (h : Prepared s total m) (he : Paged e m) {l : Nat} (hl : l < 0x90000) :
    e.filePlace l = BitVec.ofNat 32 (0x70000 + l) := by
  refine he _ _ ?_
  have ha : (kernelBinBaseAddr + BitVec.ofNat 32 l).toNat = 0x70000 + l := by
    unfold kernelBinBaseAddr
    bv_omega
  rw [ha]
  exact h.tables.low (by omega)

theorem stackPlace_eq (h : Prepared s total m) (he : Paged e m) {k : Nat} (hk : k < 28) :
    e.stackPlace 0xc0000900 k = BitVec.ofNat 32 (0x8e4 + k) := by
  refine he _ _ ?_
  have ha : ((0xc0000900 : Word) - 28 + BitVec.ofNat 32 k).toNat = 0xc0000000 + (0x8e4 + k) := by bv_omega
  rw [ha]
  exact h.tables.high (by omega)

/-- A byte of a segment that is placed goes to the same offset in physical memory. -/
theorem target_eq (h : Prepared s total m) (he : Paged e m) {p : Phdr} {k : Nat} (h1 : 0xc0000000 ≤ p.pVaddr.toNat)
    (h2 : p.pVaddr.toNat + k < 0xc0100000) : e.target p k = BitVec.ofNat 32 (p.pVaddr.toNat + k - 0xc0000000) := by
  refine he _ _ ?_
  have ha : (p.pVaddr + BitVec.ofNat 32 k).toNat = 0xc0000000 + (p.pVaddr.toNat + k - 0xc0000000) := by bv_omega
  rw [ha]
  exact h.tables.high (by omega)

/-- What `kernel_init` sees at the buffer is the file. -/
theorem view_file (h : Prepared s total m) (he : Paged e m) {l : Nat} (hl : l < 200 * 512) :
    e.view (ram m) (kernelBinBaseAddr + BitVec.ofNat 32 l) = s.drive.byte 9 l := by
  rw [← h.file l hl, ← bytes_ram (m := m) (a := 0x70000 + l) (by omega)]
  exact congrArg (ram m) (filePlace_eq h he (by omega))

theorem view_word (h : Prepared s total m) (he : Paged e m) {l : Nat} (hl : l + 4 ≤ 200 * 512) :
    (e.view (ram m)).read32 (kernelBinBaseAddr + BitVec.ofNat 32 l) = word (s.drive.byte 9) l := by
  unfold Ram.read32 word
  rw [← view_file h he (l := l) (by omega), ← view_file h he (l := l + 1) (by omega), ← view_file h he (l := l + 2) (by omega),
    ← view_file h he (l := l + 3) (by omega)]
  simp only [BitVec.add_assoc, BitVec.ofNat_add, BitVec.ofNat_eq_ofNat]

theorem view_half (h : Prepared s total m) (he : Paged e m) {l : Nat} (hl : l + 2 ≤ 200 * 512) :
    (e.view (ram m)).read16 (kernelBinBaseAddr + BitVec.ofNat 32 l) = half (s.drive.byte 9) l := by
  unfold Ram.read16 half
  rw [← view_file h he (l := l) (by omega), ← view_file h he (l := l + 1) (by omega)]
  simp only [BitVec.add_assoc, BitVec.ofNat_add, BitVec.ofNat_eq_ofNat]

theorem Kernel.phdr_room (hk : Kernel f len) {i : Nat} (hi : i < ePhnum f) : ePhoff f + i * ePhentsize f + 32 ≤ len := by
  have hmul : (i + 1) * ePhentsize f ≤ ePhnum f * ePhentsize f := Nat.mul_le_mul_right _ hi
  have hent := hk.entsize
  have htable := hk.table
  rw [Nat.add_mul] at hmul
  omega

/-- `kernel_init` sees the file's headers. -/
theorem phdrs_eq (h : Prepared s total m) (he : Paged e m) (hk : Kernel (s.drive.byte 9) len) :
    e.ePhnum (ram m) = ePhnum (s.drive.byte 9) ∧ e.ePhoff (ram m) = ePhoff (s.drive.byte 9) ∧
      e.ePhentsize (ram m) = ePhentsize (s.drive.byte 9) ∧
      ∀ i, i < ePhnum (s.drive.byte 9) → e.phdr (ram m) i = phdr (s.drive.byte 9) i := by
  have hnum : e.ePhnum (ram m) = ePhnum (s.drive.byte 9) := congrArg BitVec.toNat (view_half h he (l := 44) (by omega))
  have hoff : e.ePhoff (ram m) = ePhoff (s.drive.byte 9) := congrArg BitVec.toNat (view_word h he (l := 28) (by omega))
  have hent : e.ePhentsize (ram m) = ePhentsize (s.drive.byte 9) := congrArg BitVec.toNat (view_half h he (l := 42) (by omega))
  refine ⟨hnum, hoff, hent, ?_⟩
  intro i hi
  have hroom := hk.phdr_room hi
  have hfits := hk.fits
  have hplace : e.phdrOffset (ram m) i = ePhoff (s.drive.byte 9) + i * ePhentsize (s.drive.byte 9) := by
    unfold Env.phdrOffset
    rw [hoff, hent]
  unfold Env.phdr phdr
  rw [hplace]
  generalize ePhoff (s.drive.byte 9) + i * ePhentsize (s.drive.byte 9) = a at *
  have hw : ∀ c, a + c + 4 ≤ 200 * 512 → (e.view (ram m)).read32 (kernelBinBaseAddr + BitVec.ofNat 32 a + BitVec.ofNat 32 c) =
      word (s.drive.byte 9) (a + c) := by
    intro c hc
    rw [BitVec.add_assoc, ← BitVec.ofNat_add]
    exact view_word h he hc
  simp only [Phdr.mk.injEq]
  exact ⟨view_word h he (by omega), hw 4 (by omega), hw 8 (by omega), hw 16 (by omega), hw 20 (by omega)⟩

/-! ## Into the kernel -/

theorem mem_file_phdrs {p : Phdr} : p ∈ phdrs f ↔ ∃ i < ePhnum f, phdr f i = p := by
  unfold phdrs
  simp only [List.mem_map, List.mem_range]

/-- The places of a loadable segment. -/
theorem Kernel.target (hk : Kernel f len) (h : Prepared s total m) (he : Paged e m) {p : Phdr} (hp : p ∈ phdrs f)
    (hl : p.pType = ptLoad) {k : Nat} (hlt : k < p.pMemsz.toNat) :
    e.target p k = BitVec.ofNat 32 (p.pVaddr.toNat + k - 0xc0000000) ∧ 0xc0001100 ≤ p.pVaddr.toNat + k ∧
      p.pVaddr.toNat + k < 0xc0070000 := by
  obtain ⟨h1, h2⟩ := hk.placed p hp hl
  exact ⟨target_eq h he (by omega) (by omega), by omega, by omega⟩

/-- The loader's memory is one that `kernel_init` is made for. -/
theorem Kernel.ready (hk : Kernel (s.drive.byte 9) len) (h : Prepared s total m) (he : Paged e m) :
    e.phdrs (ram m) = phdrs (s.drive.byte 9) ∧ e.Image (ram m) len ∧ e.Apart (ram m) len 0xc0000900 ∧
      e.Spares (ram m) len 0xc0000900 := by
  obtain ⟨hnum, hoff, hent, hphdr⟩ := phdrs_eq h he hk
  have hfits := hk.fits
  have hall : e.phdrs (ram m) = phdrs (s.drive.byte 9) := by
    unfold Env.phdrs phdrs
    rw [hnum]
    exact List.map_congr_left fun i hi => hphdr i (List.mem_range.mp hi)
  have hin : ∀ i, i < ePhnum (s.drive.byte 9) → phdr (s.drive.byte 9) i ∈ phdrs (s.drive.byte 9) :=
    fun i hi => mem_file_phdrs.mpr ⟨i, hi, rfl⟩
  have hne : ∀ {a b : Nat}, a < 2 ^ 32 → b < 2 ^ 32 → BitVec.ofNat 32 a = BitVec.ofNat 32 b → a = b := by
    intro a b ha hb hab
    bv_omega
  refine ⟨hall, ⟨hk.header, ?_, ?_, ?_, ?_⟩, ⟨?_, ?_, ?_, ?_, ?_⟩, ?_⟩
  · rw [hent]; exact hk.entsize
  · rw [hnum, hoff, hent]; exact hk.table
  · rw [hall]; exact hk.segments
  · rw [hall]; exact hk.sizes
  · intro i j hi hj hil hjl k l hkl hll heq
    rw [hnum] at hi hj
    rw [hphdr i hi] at hil hkl heq
    rw [hphdr j hj] at hjl hll heq
    obtain ⟨ht, h1, h2⟩ := hk.target h he (hin i hi) hil hkl
    obtain ⟨hu, h3, h4⟩ := hk.target h he (hin j hj) hjl hll
    have hab := hne (by omega) (by omega) (ht.symm.trans (heq.trans hu))
    by_cases hij : i = j
    · subst hij
      exact ⟨rfl, by omega⟩
    · have hdis := hk.disjoint i j hi hj hil hjl hij
      omega
  · rw [hall]
    intro p hp hl k hlt l hll heq
    obtain ⟨ht, h1, h2⟩ := hk.target h he hp hl hlt
    have hab := hne (by omega) (by omega) (ht.symm.trans (heq.trans (filePlace_eq h he (by omega))))
    omega
  · rw [hall]
    intro p hp hl k hlt l hll heq
    obtain ⟨ht, h1, h2⟩ := hk.target h he hp hl hlt
    have hab := hne (by omega) (by omega) (ht.symm.trans (heq.trans (stackPlace_eq h he hll)))
    omega
  · intro k hkl l hll heq
    have hab := hne (by omega) (by omega) ((stackPlace_eq h he hkl).symm.trans (heq.trans (filePlace_eq h he (by omega))))
    omega
  · intro k hkl l hll heq
    have hab := hne (by omega) (by omega) ((stackPlace_eq h he hkl).symm.trans (heq.trans (stackPlace_eq h he hll)))
    omega
  · rw [Env.Spares, hall]
    intro p hp hc hl k hlt
    rw [hk.others p hp hc hl] at hlt
    exact absurd hlt (Nat.not_lt_zero k)

/-- A move to `x` is the only one, and what is there then is its byte of the file. -/
theorem Kernel.moved (hk : Kernel (s.drive.byte 9) len) (h : Prepared s total m) (he : Paged e m) {p : Phdr}
    (hp : p ∈ phdrs (s.drive.byte 9)) (hl : p.pType = ptLoad) {k : Nat} (hlt : k < p.pFilesz.toNat) :
    writes ((e.moves (ram m)).map (e.move (ram m))) (ram m) (e.target p k) = s.drive.byte 9 (p.pOffset.toNat + k) := by
  obtain ⟨hall, hi, ha, -⟩ := hk.ready h he
  have hmem : ∀ q ∈ phdrs (s.drive.byte 9), q ∈ e.phdrs (ram m) := fun q hq => by rwa [hall]
  have hlen := hk.segments p hp (by rw [hl]; decide)
  have hfits := hk.fits
  have hsizes := hk.sizes p hp hl
  have hw : (p, k) ∈ e.moves (ram m) := mem_moves.mpr ⟨hmem p hp, copied_of_load hl, hlt⟩
  rcases last_write ((e.moves (ram m)).map (e.move (ram m))) (e.target p k) with hno | ⟨us, v, vs, hus, hv, hvs⟩
  · exact absurd rfl (hno _ (List.mem_map_of_mem hw))
  · have hmv : v ∈ (e.moves (ram m)).map (e.move (ram m)) := by
      rw [hus]
      exact List.mem_append_right us List.mem_cons_self
    obtain ⟨⟨q, j⟩, hqj, rfl⟩ := List.mem_map.mp hmv
    obtain ⟨hq, hc, hj⟩ := mem_moves.mp hqj
    have hql : q.pType = ptLoad := by
      by_contra hql
      rw [hk.others q (hall ▸ hq) hc hql] at hj
      exact Nat.not_lt_zero j hj
    have hjm := Nat.lt_of_lt_of_le hj (hi.sizes q hq hql)
    obtain ⟨rfl, rfl⟩ := ha.unique (hmem p hp) hq hl hql (by omega) hjm hv.symm
    rw [hus, ← hv]
    rw [← hv] at hvs
    refine (writes_last us hvs).trans ?_
    show ram m (e.filePlace (p.pOffset.toNat + k)) = _
    rw [filePlace_eq h he (by omega), ← h.file _ (by omega)]
    exact bytes_ram (by omega)

/-- Nothing is moved anywhere else. -/
theorem Kernel.unmoved (hk : Kernel (s.drive.byte 9) len) (h : Prepared s total m) (he : Paged e m) {a : Nat} (ha : a < 2 ^ 32)
    (hno : ∀ p ∈ phdrs (s.drive.byte 9), p.pType = ptLoad → ∀ k < p.pFilesz.toNat, a ≠ p.pVaddr.toNat + k - 0xc0000000) :
    writes ((e.moves (ram m)).map (e.move (ram m))) (ram m) (BitVec.ofNat 32 a) = m a := by
  obtain ⟨hall, -, -, -⟩ := hk.ready h he
  refine (writes_of_notMem ?_).trans (bytes_ram ha)
  intro w hw heq
  obtain ⟨⟨p, k⟩, hpk, rfl⟩ := List.mem_map.mp hw
  obtain ⟨hp, hc, hlt⟩ := mem_moves.mp hpk
  rw [hall] at hp
  by_cases hl : p.pType = ptLoad
  · have hsizes := hk.sizes p hp hl
    obtain ⟨ht, h1, h2⟩ := hk.target h he hp hl (Nat.lt_of_lt_of_le hlt hsizes)
    have heq := ht.symm.trans heq
    exact hno p hp hl k hlt (by bv_omega)
  · rw [hk.others p hp hc hl] at hlt
    exact Nat.not_lt_zero k hlt

/-! ## At the kernel's first instruction -/

/-- Memory after `kernel_init`'s moves; where its stack was, it may hold anything. -/
def Landed (e : Env) (m : Bytes) (r : Ram) : Prop :=
  ∀ x, (∀ k < 28, x ≠ e.stackPlace 0xc0000900 k) → r x = writes ((e.moves (ram m)).map (e.move (ram m))) (ram m) x

variable {r : Ram}

theorem Landed.above_stack (hr : Landed e m r) (h : Prepared s total m) (he : Paged e m) {a : Nat} (h1 : 0x900 ≤ a)
    (h2 : a < 2 ^ 32) : bytes r a = writes ((e.moves (ram m)).map (e.move (ram m))) (ram m) (BitVec.ofNat 32 a) := by
  refine hr _ fun k hk => ?_
  rw [stackPlace_eq h he hk]
  bv_omega

/-- A byte that is the place of no byte of a segment is as the loader left it. -/
theorem Kernel.spared (hk : Kernel (s.drive.byte 9) len) (h : Prepared s total m) (he : Paged e m) (hr : Landed e m r)
    {a : Nat} (h1 : 0x900 ≤ a) (h2 : a < 2 ^ 32)
    (hno : ∀ p ∈ phdrs (s.drive.byte 9), p.pType = ptLoad → ∀ k < p.pFilesz.toNat, a ≠ p.pVaddr.toNat + k - 0xc0000000) :
    bytes r a = m a := by
  rw [hr.above_stack h he h1 h2, hk.unmoved h he h2 hno]

theorem Kernel.outside (hk : Kernel (s.drive.byte 9) len) (h : Prepared s total m) (he : Paged e m) (hr : Landed e m r)
    {a : Nat} (h1 : 0x900 ≤ a) (h2 : a < 2 ^ 32) (hout : ¬ (0x1100 ≤ a ∧ a < 0x70000)) : bytes r a = m a := by
  refine hk.spared h he hr h1 h2 ?_
  intro p hp hl k hlt
  obtain ⟨-, h3, h4⟩ := hk.target h he hp hl (Nat.lt_of_lt_of_le hlt (hk.sizes p hp hl))
  omega

theorem Kernel.tabled (hk : Kernel (s.drive.byte 9) len) (h : Prepared s total m) (he : Paged e m) (hr : Landed e m r) :
    Tabled total (bytes r) := by
  obtain ⟨m', hm⟩ := h.tables
  refine ⟨m', fun x hx => ?_⟩
  rw [← hm hx]
  have hx : (0xb00 ≤ x ∧ x < 0xb04) ∨ (0x100000 ≤ x ∧ x < 2 ^ 32) := hx.imp Set.mem_Ico.mp Set.mem_Ico.mp
  exact hk.outside h he hr (by omega) (by omega) (by omega)

/-- A byte of a bss lies in no segment that has a byte of the file there. -/
theorem Kernel.bss (hk : Kernel (s.drive.byte 9) len) (h : Prepared s total m) (he : Paged e m) {p q : Phdr}
    (hp : p ∈ phdrs (s.drive.byte 9)) (hl : p.pType = ptLoad) {k : Nat} (hlt : k < p.pMemsz.toNat) (hf : ¬ k < p.pFilesz.toNat)
    (hq : q ∈ phdrs (s.drive.byte 9)) (hql : q.pType = ptLoad) {j : Nat} (hj : j < q.pFilesz.toNat) :
    p.pVaddr.toNat + k - 0xc0000000 ≠ q.pVaddr.toNat + j - 0xc0000000 := by
  intro heq
  obtain ⟨hall, -, ha, -⟩ := hk.ready h he
  have hjm := Nat.lt_of_lt_of_le hj (hk.sizes q hq hql)
  obtain ⟨ht, -, -⟩ := hk.target h he hp hl hlt
  obtain ⟨hu, -, -⟩ := hk.target h he hq hql hjm
  obtain ⟨rfl, rfl⟩ := ha.unique (by rwa [hall]) (by rwa [hall]) hl hql hlt hjm (by rw [ht, hu, heq])
  exact hf hj

/-- mem_init finds the size, and on clean tables a directory that the loader has just set up. -/
theorem Tabled.memInit_start (h : Tabled total m) {s' : Mem} (hcr3 : s'.cr3 = pageDirTablePos)
    (hagree : Set.EqOn s'.phys m (Bytes.word totalMemBytes ∪ Set.Ico 0x100000 (2 ^ 32))) :
    memInit s' = .ok (poolsInit total.toNat s') ∧
      (CleanTables s'.phys → CleanStart ⟨poolsInit total.toNat s', [pageDirTablePos]⟩) := by
  obtain ⟨m', hm⟩ := h
  have hall := hagree.trans hm
  have htables : Set.Ico 0x100000 0x102000 ⊆ Set.Ico 0x100000 (2 ^ 32) := Set.Ico_subset_Ico_right (by decide)
  have hpages : Set.Ico 0x100000 0x101400 ⊆ Set.Ico 0x100000 (2 ^ 32) := Set.Ico_subset_Ico_right (by decide)
  have hbuilt := hall.mono (hpages.trans Set.subset_union_right)
  refine ⟨memInit_eq ⟨hcr3, hall.mono (Set.union_subset_union_right _ htables)⟩, fun hclean => ⟨?_, rfl⟩⟩
  exact ⟨total.toNat, s', s'.phys, hclean, (setupPage_again hbuilt).symm, memPoolInit_eq _ _⟩

/-- When the loader jumps to the kernel. -/
structure Entered (s : DiskMachine) (total : BitVec 32) (r : Ram) : Prop where
  segments : ∀ p ∈ phdrs (s.drive.byte 9), p.pType = ptLoad → ∀ k < p.pMemsz.toNat, loadByte r (p.pVaddr.toNat + k) =
    some (if k < p.pFilesz.toNat then s.drive.byte 9 (p.pOffset.toNat + k) else bytes s.mem (p.pVaddr.toNat + k - 0xc0000000))
  others : ∀ a, 0xc00 ≤ a → a < 0x70000 → (∀ p ∈ phdrs (s.drive.byte 9), p.pType = ptLoad → ∀ k < p.pFilesz.toNat,
    a ≠ p.pVaddr.toNat + k - 0xc0000000) → bytes r a = bytes s.mem a
  memory : ∀ s' : Mem, s'.cr3 = pageDirTablePos →
    Set.EqOn s'.phys (bytes r) (Bytes.word totalMemBytes ∪ Set.Ico 0x100000 (2 ^ 32)) →
      memInit s' = .ok (poolsInit total.toNat s') ∧
        (CleanTables (bytes s.mem) → CleanStart ⟨poolsInit total.toNat s', [pageDirTablePos]⟩)

theorem Kernel.entered (hk : Kernel (s.drive.byte 9) len) (h : Prepared s total m) (he : Paged e m) (hr : Landed e m r) :
    Entered s total r := by
  have htab := hk.tabled h he hr
  have hother : ∀ a, 0xc00 ≤ a → a < 0x70000 → (∀ p ∈ phdrs (s.drive.byte 9), p.pType = ptLoad → ∀ k < p.pFilesz.toNat,
      a ≠ p.pVaddr.toNat + k - 0xc0000000) → bytes r a = bytes s.mem a := by
    intro a h1 h2 hno
    rw [hk.spared h he hr (by omega) (by omega) hno, h.kept a h1 h2]
  refine ⟨?_, hother, ?_⟩
  · intro p hp hl k hlt
    obtain ⟨ht, h1, h2⟩ := hk.target h he hp hl hlt
    have hwalk : translate (bytes r) pageDirTablePos (p.pVaddr.toNat + k) = some (p.pVaddr.toNat + k - 0xc0000000) := by
      have hhigh := htab.high (a := p.pVaddr.toNat + k - 0xc0000000) (by omega)
      rwa [show 0xc0000000 + (p.pVaddr.toNat + k - 0xc0000000) = p.pVaddr.toNat + k by omega] at hhigh
    unfold loadByte
    rw [hwalk, Option.map_some]
    congr 1
    by_cases hf : k < p.pFilesz.toNat
    · rw [if_pos hf, hr.above_stack h he (by omega) (by omega), ← ht]
      exact hk.moved h he hp hl hf
    · rw [if_neg hf]
      exact hother _ (by omega) (by omega) fun q hq hql j hj => hk.bss h he hp hl hlt hf hq hql hj
  · intro s' hcr3 hagree
    obtain ⟨hinit, hstart⟩ := htab.memInit_start hcr3 hagree
    refine ⟨hinit, fun hclean => hstart (hclean.congr ?_)⟩
    -- no step of the boot has written there
    intro x hx
    obtain ⟨h1, h2⟩ := Set.mem_Ico.mp hx
    rw [hagree (.inr (Set.mem_Ico.mpr ⟨by omega, by omega⟩)), hk.outside h he hr (by omega) (by omega) (by omega),
      h.above x h1 (by omega)]

/-- From the BIOS's answers and the disk to the kernel's first instruction. -/
theorem kernel_booted (hk : Kernel (s.drive.byte 9) len) (hquiet : ∀ i, 0 < i → i < 200 → s.drive.busy i = 0)
    (h : detect e801 e88 = some total) (b : Backs) :
    ∃ k m, (∀ fuel, k ≤ fuel → loader fuel b e801 e88 s = some m) ∧
      ∀ (e : Env) (t : Machine), Paged e m → t.esp = 0xc0000900 → t.mem = ram m →
        ∃ t', e.kernelInit (ePhnum (s.drive.byte 9)) t = some (t', ePhnum (s.drive.byte 9)) ∧ Entered s total t'.mem := by
  obtain ⟨k, m, hload, hprep⟩ := loader_spec h hquiet b
  refine ⟨k, m, hload, ?_⟩
  intro e t he hesp hmem
  obtain ⟨-, hi, ha, hs⟩ := hk.ready hprep he
  have hnum := (phdrs_eq hprep he hk).1
  rw [← hesp, ← hmem] at ha hs
  rw [← hmem] at hi hnum
  obtain ⟨t', ht, hafter⟩ := kernelInit_run hi ha hs (by rw [hnum]; exact hk.counted)
  rw [hnum] at ht
  rw [hesp, hmem] at hafter
  exact ⟨t', ht, hk.entered hprep he hafter⟩

/-- One segment: four bytes of code, and four of bss. -/
def smallKernel : Bytes :=
  writes [(28, 52), (42, 32), (44, 1), (52, 1), (56, 84), (61, 0x15), (63, 0xc0), (68, 4), (72, 8), (84, 0xe8), (85, 0xfb),
    (86, 0xff), (87, 0xff)] fun _ => 0

/-- `f` from sector 9 on, in a drive that is busy before the first sector; memory is all 0xff. -/
def switchedOn (f : Bytes) : DiskMachine :=
  { kernelCall fun _ => 0 with
    mem := fun _ => 0xff
    drive := { quietDrive fun i => if i = 0 then 3 else 0 with
      disk := fun sector j => f (512 * (sector - 9) + 2 * j + 1) ++ f (512 * (sector - 9) + 2 * j) } }

theorem smallKernel_phdrs : ePhnum ((switchedOn smallKernel).drive.byte 9) = 1 ∧
    ePhoff ((switchedOn smallKernel).drive.byte 9) = 52 ∧ ePhentsize ((switchedOn smallKernel).drive.byte 9) = 32 ∧
    phdr ((switchedOn smallKernel).drive.byte 9) 0 = bootPhdr := by
  decide +kernel

theorem smallKernel_valid : Kernel ((switchedOn smallKernel).drive.byte 9) 88 := by
  obtain ⟨hnum, hoff, hent, hphdr⟩ := smallKernel_phdrs
  have hmem : ∀ p ∈ phdrs ((switchedOn smallKernel).drive.byte 9), p = bootPhdr := by
    intro p hp
    obtain ⟨i, hi, rfl⟩ := mem_file_phdrs.mp hp
    rw [hnum] at hi
    rw [Nat.lt_one_iff.mp hi, hphdr]
  refine ⟨by decide, by decide, ?_, Nat.le_of_eq hent.symm, ?_, ?_, ?_, ?_, ?_, ?_⟩
  · rw [hnum]
    decide
  · rw [hoff, hnum, hent]
    decide
  · intro p hp _
    rw [hmem p hp]
    decide
  · intro p hp _
    rw [hmem p hp]
    decide
  · intro p hp _ hno
    rw [hmem p hp] at hno
    exact absurd rfl hno
  · intro p hp _
    rw [hmem p hp]
    decide
  · intro i j hi hj _ _ hij
    rw [hnum] at hi hj
    omega

theorem smallKernel_booted :
    ∃ k m, (∀ fuel, k ≤ fuel → loader fuel ⟨0xd00, 0xd10⟩ plain32M failed (switchedOn smallKernel) = some m) ∧
    ∀ (e : Env) (t : Machine), Paged e m → t.esp = 0xc0000900 → t.mem = ram m →
      ∃ t', e.kernelInit (ePhnum ((switchedOn smallKernel).drive.byte 9)) t =
          some (t', ePhnum ((switchedOn smallKernel).drive.byte 9)) ∧
        Entered (switchedOn smallKernel) 0x2000000 t'.mem :=
  have h : detect plain32M failed = some 0x2000000 := by decide +kernel
  kernel_booted smallKernel_valid (fun _ h0 _ => if_neg (by omega)) h ⟨0xd00, 0xd10⟩

end TinyOs.Boot
