/-
  TinyOs.Boot.Loader — `kernel_init` and `mem_cpy` of loader.s.

  The loader has the ELF image of the kernel at `KERNEL_BIN_BASE_ADDR` and copies its
  segments to where they run. Paging is on, and the first megabyte shows at more than
  one linear address; `phys` is the byte of memory that a linear address names, and
  stays as it is. Control is followed as far as the return addresses on the stack are
  those that the calls have pushed.

  A move is a segment and an index into its file part. Every segment whose p_type has a
  low byte other than 0 is copied, and nothing else is stored: p_memsz is not read.
-/

import TinyOs.Logic.Writes
import TinyOs.Logic.X86

namespace TinyOs.Boot

open TinyOs.Logic
open TinyOs.Logic.X86

def kernelBinBaseAddr : Word := 0x70000

def ptNull : Word := 0

/-- ELF's name for a loadable segment; the loader does not have it. -/
def ptLoad : Word := 1

/-! ## The machine -/

/-- The loader's registers and the memory. -/
structure Machine where
  eax : Word
  ebx : Word
  ecx : Word
  edx : Word
  ebp : Word
  esi : Word
  edi : Word
  esp : Word
  mem : Ram

/-- What stays as it is: the page tables, and where the two calls return to. -/
structure Env where
  phys : Word → Word
  memCpyBack : Word
  back : Word

variable (e : Env)

/-- Memory by linear address. -/
def Env.view (m : Ram) : Ram := fun a => m (e.phys a)

def Env.store32 (m : Ram) (a v : Word) : Ram :=
  writes [(e.phys a, v.extractLsb' 0 8), (e.phys (a + 1), v.extractLsb' 8 8), (e.phys (a + 2), v.extractLsb' 16 8),
    (e.phys (a + 3), v.extractLsb' 24 8)] m

def Env.load32 (s : Machine) (a : Word) : Word := (e.view s.mem).read32 a

def Env.push (s : Machine) (w : Word) : Machine := { s with esp := s.esp - 4, mem := e.store32 s.mem (s.esp - 4) w }

/-! ## kernel_init -/

/-- `rep movsb` with the direction flag clear. -/
def Env.repMovsb : Nat → Machine → Machine
  | 0, s => s
  | n + 1, s => Env.repMovsb n { s with
      mem := s.mem.write8 (e.phys s.edi) (s.mem (e.phys s.esi)), edi := s.edi + 1, esi := s.esi + 1, ecx := s.ecx - 1 }

/-- `call mem_cpy`. -/
def Env.memCpy (s : Machine) : Option Machine :=
  let s := e.push s e.memCpyBack
  let s := e.push s s.ebp
  let s := { s with ebp := s.esp }
  let s := e.push s s.ecx
  let s := { s with edi := e.load32 s (s.ebp + 8) }
  let s := { s with esi := e.load32 s (s.ebp + 12) }
  let s := { s with ecx := e.load32 s (s.ebp + 16) }
  let s := e.repMovsb s.ecx.toNat s
  let s := { s with ecx := e.load32 s s.esp, esp := s.esp + 4 }
  let s := { s with ebp := e.load32 s s.esp, esp := s.esp + 4 }
  if e.load32 s s.esp = e.memCpyBack then some { s with esp := s.esp + 4 } else none

/-- From `.each_segment` to `loop`. -/
def Env.eachSegment (s : Machine) : Option Machine :=
  if e.view s.mem (s.ebx + 0) = ptNull.setWidth 8 then some { s with ebx := s.ebx + s.edx }
  else
    let s := e.push s (e.load32 s (s.ebx + 16))
    let s := { s with eax := e.load32 s (s.ebx + 4) }
    let s := { s with eax := s.eax + kernelBinBaseAddr }
    let s := e.push s s.eax
    let s := e.push s (e.load32 s (s.ebx + 8))
    (e.memCpy s).map fun s => { s with esp := s.esp + 12, ebx := s.ebx + s.edx }

/-- The loop, and how many headers it visits; `none` also when there are more than `fuel`. -/
def Env.segments : Nat → Machine → Option (Machine × Nat)
  | 0, _ => none
  | fuel + 1, s => (e.eachSegment s).bind fun s =>
    let s := { s with ecx := s.ecx - 1 }
    if s.ecx = 0 then some (s, 1) else (Env.segments fuel s).map fun r => (r.1, r.2 + 1)

/-- Up to `.each_segment`. -/
def Env.readHeader (s : Machine) : Machine :=
  let s := { s with eax := 0, ebx := 0, ecx := 0, edx := 0 }
  let s := { s with edx := ((e.view s.mem).read16 (kernelBinBaseAddr + 42)).setWidth 32 }
  let s := { s with ebx := e.load32 s (kernelBinBaseAddr + 28) }
  let s := { s with ebx := s.ebx + kernelBinBaseAddr }
  { s with ecx := ((e.view s.mem).read16 (kernelBinBaseAddr + 44)).setWidth 32 }

/-- `call kernel_init`. -/
def Env.kernelInit (fuel : Nat) (s : Machine) : Option (Machine × Nat) :=
  (e.segments fuel (e.readHeader (e.push s e.back))).bind fun r =>
    if e.load32 r.1 r.1.esp = e.back then some ({ r.1 with esp := r.1.esp + 4 }, r.2) else none

/-! ## The image -/

/-- The place of a byte of the file. -/
def Env.filePlace (l : Nat) : Word := e.phys (kernelBinBaseAddr + BitVec.ofNat 32 l)

def Env.ePhoff (m : Ram) : Nat := ((e.view m).read32 (kernelBinBaseAddr + 28)).toNat

def Env.ePhentsize (m : Ram) : Nat := ((e.view m).read16 (kernelBinBaseAddr + 42)).toNat

def Env.ePhnum (m : Ram) : Nat := ((e.view m).read16 (kernelBinBaseAddr + 44)).toNat

/-- The fields of a program header that say what to load. -/
structure Phdr where
  pType : Word
  pOffset : Word
  pVaddr : Word
  pFilesz : Word
  pMemsz : Word
  deriving DecidableEq

/-- Where in the file a program header starts. -/
def Env.phdrOffset (m : Ram) (i : Nat) : Nat := e.ePhoff m + i * e.ePhentsize m

def Env.phdr (m : Ram) (i : Nat) : Phdr :=
  let a := kernelBinBaseAddr + BitVec.ofNat 32 (e.phdrOffset m i)
  { pType := (e.view m).read32 a
    pOffset := (e.view m).read32 (a + 4)
    pVaddr := (e.view m).read32 (a + 8)
    pFilesz := (e.view m).read32 (a + 16)
    pMemsz := (e.view m).read32 (a + 20) }

def Env.phdrs (m : Ram) : List Phdr := (List.range (e.ePhnum m)).map (e.phdr m)

/-- Where a byte of a segment goes. -/
def Env.target (p : Phdr) (k : Nat) : Word := e.phys (p.pVaddr + BitVec.ofNat 32 k)

/-- The 28 bytes of stack that `kernel_init` comes to use, with esp before the call. -/
def Env.stackPlace (esp : Word) (k : Nat) : Word := e.phys (esp - 28 + BitVec.ofNat 32 k)

/-- An executable of `len` bytes. -/
structure Env.Image (m : Ram) (len : Nat) : Prop where
  header : 52 ≤ len
  entsize : 32 ≤ e.ePhentsize m
  table : e.ePhoff m + e.ePhnum m * e.ePhentsize m ≤ len
  segments : ∀ p ∈ e.phdrs m, p.pType ≠ ptNull → p.pOffset.toNat + p.pFilesz.toNat ≤ len
  sizes : ∀ p ∈ e.phdrs m, p.pType = ptLoad → p.pFilesz.toNat ≤ p.pMemsz.toNat

/-- The ranges that loadable segments fill, the image and the stack have no byte in common. -/
structure Env.Apart (m : Ram) (len : Nat) (esp : Word) : Prop where
  segments : ∀ i j, i < e.ePhnum m → j < e.ePhnum m → (e.phdr m i).pType = ptLoad → (e.phdr m j).pType = ptLoad →
    ∀ k l, k < (e.phdr m i).pMemsz.toNat → l < (e.phdr m j).pMemsz.toNat →
      e.target (e.phdr m i) k = e.target (e.phdr m j) l → i = j ∧ k = l
  image : ∀ p ∈ e.phdrs m, p.pType = ptLoad → ∀ k < p.pMemsz.toNat, ∀ l < len, e.target p k ≠ e.filePlace l
  stack : ∀ p ∈ e.phdrs m, p.pType = ptLoad → ∀ k < p.pMemsz.toNat, ∀ l < 28, e.target p k ≠ e.stackPlace esp l
  stackImage : ∀ k < 28, ∀ l < len, e.stackPlace esp k ≠ e.filePlace l
  stackBytes : ∀ k < 28, ∀ l < 28, e.stackPlace esp k = e.stackPlace esp l → k = l

/-! ## What is to be loaded -/

/-- What ELF prescribes for the place `x` once the kernel is loaded. -/
structure Env.Prescribed (m : Ram) (x : Word) (b : BitVec 8) : Prop where
  file : ∀ p ∈ e.phdrs m, p.pType = ptLoad → ∀ k < p.pFilesz.toNat, x = e.target p k →
    b = m (e.filePlace (p.pOffset.toNat + k))
  zero : ∀ p ∈ e.phdrs m, p.pType = ptLoad → ∀ k < p.pMemsz.toNat, p.pFilesz.toNat ≤ k → x = e.target p k → b = 0
  kept : (∀ p ∈ e.phdrs m, p.pType = ptLoad → ∀ k < p.pMemsz.toNat, x ≠ e.target p k) → b = m x

/-- `kernel_init` returns, has visited e_phnum headers, and all bytes but those of its stack are as prescribed. -/
def Env.Loads (s : Machine) : Prop :=
  ∃ fuel t, e.kernelInit fuel s = some (t, e.ePhnum s.mem) ∧
    ∀ x, (∀ k < 28, x ≠ e.stackPlace s.esp k) → e.Prescribed s.mem x (t.mem x)

/-- The byte that `kernel_init` compares with `PT_NULL` is not 0. -/
def Phdr.Copied (p : Phdr) : Prop := p.pType.setWidth 8 ≠ ptNull.setWidth 8

instance (p : Phdr) : Decidable p.Copied := inferInstanceAs (Decidable (_ ≠ _))

/-- The moves of one segment. -/
def Phdr.moves (p : Phdr) : List (Phdr × Nat) := (List.range p.pFilesz.toNat).map fun k => (p, k)

/-- The moves of all copied segments, in the order of the copies. -/
def Env.moves (m : Ram) : List (Phdr × Nat) := ((e.phdrs m).filter fun p => p.Copied).flatMap Phdr.moves

/-- The place and the byte of a move. -/
def Env.move (m : Ram) (w : Phdr × Nat) : Word × BitVec 8 := (e.target w.1 w.2, m (e.filePlace (w.1.pOffset.toNat + w.2)))

/-- No copied segment of another type is moved over the stack, or over the image with other bytes than are there. -/
def Env.Spares (m : Ram) (len : Nat) (esp : Word) : Prop :=
  ∀ p ∈ e.phdrs m, p.Copied → p.pType ≠ ptLoad → ∀ k < p.pFilesz.toNat,
    (∀ l < 28, e.target p k ≠ e.stackPlace esp l) ∧
    ∀ l < len, e.target p k = e.filePlace l → m (e.filePlace (p.pOffset.toNat + k)) = m (e.filePlace l)

/-- Where the loader needs no zeros of its own, and the segments that it copies too do no harm. -/
structure Env.LoadsWhen (m : Ram) : Prop where
  counted : e.ePhnum m ≠ 0
  zeroed : ∀ p ∈ e.phdrs m, p.pType = ptLoad → ∀ k < p.pMemsz.toNat, p.pFilesz.toNat ≤ k →
    (∀ w ∈ e.moves m, e.target w.1 w.2 ≠ e.target p k) → m (e.target p k) = 0
  others : ∀ us w vs, e.moves m = us ++ w :: vs → w.1.pType ≠ ptLoad →
    (∀ v ∈ vs, e.target v.1 v.2 ≠ e.target w.1 w.2) → e.Prescribed m (e.target w.1 w.2) (e.move m w).2

end TinyOs.Boot
