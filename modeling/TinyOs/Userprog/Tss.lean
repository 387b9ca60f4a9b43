/-
  TinyOs.Userprog.Tss — the TSS, and the ports that a user task may use (userprog/tss.c).

  `struct t_tss` ends in `trace` and `io_base` of 32 bits each, where the processor has
  two words of 16 bits: the I/O map base, at offset 102, is the high half of `trace` and
  always 0. The processor then takes the TSS itself, from its first byte, and the memory
  after it for the I/O map; and with the G bit set the limit ends far behind both.
  - `io_denied_iff`: a port is denied exactly where these bytes have its bit set.
-/

import TinyOs.Lib.String

namespace TinyOs.Userprog

open TinyOs.Lib TinyOs.Logic.X86

/-! ## Segment descriptors -/

/-- `struct gdt_desc` -/
structure GdtDesc where
  limitLowWord : BitVec 16
  baseLowWord : BitVec 16
  baseMidByte : BitVec 8
  attrLowByte : BitVec 8
  limitHighAttrHigh : BitVec 8
  baseHighByte : BitVec 8
  deriving DecidableEq, Repr

def makeGdtDesc (descAddr limit : Word) (attrLow attrHigh : BitVec 8) : GdtDesc where
  limitLowWord := (limit &&& 0x0000ffff).setWidth 16
  baseLowWord := (descAddr &&& 0x0000ffff).setWidth 16
  baseMidByte := ((descAddr &&& 0x00ff0000) >>> 16).setWidth 8
  attrLowByte := attrLow
  limitHighAttrHigh := (((limit &&& 0x000f0000) >>> 16) + attrHigh.setWidth 32).setWidth 8
  baseHighByte := (descAddr >>> 24).setWidth 8

namespace GdtDesc

/-- The base that the processor reassembles. -/
def base (d : GdtDesc) : Word := d.baseHighByte ++ d.baseMidByte ++ d.baseLowWord

/-- The limit, scaled by 4096 where the G bit is set. -/
def limit (d : GdtDesc) : Nat :=
  let raw := ((d.limitHighAttrHigh &&& 0xf).setWidth 4 ++ d.limitLowWord).toNat
  if d.limitHighAttrHigh.getLsbD 7 then raw * 4096 + 4095 else raw

end GdtDesc

/-! ## The code -/

/-- `sizeof(struct t_tss)`: esp0 4, ss0 8, trace 100, io_base 104. -/
def sizeofTss : Nat := 108

def selectorKStack : Word := 0x10

def tssAttrLow : BitVec 8 := 0x89

def tssAttrHigh : BitVec 8 := 0x80

def gdtCodeAttrLowDpl3 : BitVec 8 := 0xf8

def gdtDataAttrLowDpl3 : BitVec 8 := 0xf2

def gdtAttrHigh : BitVec 8 := 0xc0

/-- Memory, the GDT at 0xc0000900 and the task register's descriptor. -/
structure Machine where
  mem : Ram
  gdt : Nat → GdtDesc
  tr : GdtDesc

/-- `tss` is the address of the TSS; 0xc0000920 is slot 4 of the GDT. -/
def tssInit (tss : Word) (s : Machine) : Machine :=
  let tssSize : Word := BitVec.ofNat 32 sizeofTss
  let mem := memset tss 0 sizeofTss s.mem
  let mem := mem.write32 (tss + 8) selectorKStack
  let mem := mem.write32 (tss + 104) tssSize
  let gdt := Function.update s.gdt 4 (makeGdtDesc tss (tssSize - 1) tssAttrLow tssAttrHigh)
  let gdt := Function.update gdt 5 (makeGdtDesc 0 0xfffff gdtCodeAttrLowDpl3 gdtAttrHigh)
  let gdt := Function.update gdt 6 (makeGdtDesc 0 0xfffff gdtDataAttrLowDpl3 gdtAttrHigh)
  -- `ltr`: SELECTOR_TSS selects slot 4
  { mem := mem, gdt := gdt, tr := gdt 4 }

def updateTssEsp (tss pthread : Word) (s : Machine) : Machine := { s with mem := s.mem.write32 (tss + 4) (pthread + 4096) }

/-- EFLAGS_IOPL_0 | EFLAGS_MBS | EFLAGS_IF_1, which `start_process` installs. -/
def procEflags : Word := 0 <<< 12 ||| 1 <<< 1 ||| 1 <<< 9

/-! ## The processor's check -/

def iopl (eflags : Word) : Nat := ((eflags >>> 12) &&& 3).toNat

/-- The I/O map lets the port through. -/
def Machine.Permits (s : Machine) (port : BitVec 16) : Prop :=
  (s.mem.read16 (s.tr.base + 102)).toNat + port.toNat / 8 ≤ s.tr.limit ∧
    (s.mem (s.tr.base + BitVec.ofNat 32 ((s.mem.read16 (s.tr.base + 102)).toNat + port.toNat / 8))).getLsbD (port.toNat % 8) =
      false

/-- An access to `port` at privilege level 3 faults. -/
def Machine.Denies (s : Machine) (eflags : Word) (port : BitVec 16) : Prop := iopl eflags < 3 ∧ ¬ s.Permits port

/-! ## Runs -/

/-- From `tss_init` on, with the PCB of the last `update_tss_esp`. Whatever lies outside the TSS may change. -/
inductive Reached (tss : Word) : Option Word → Machine → Prop
  | init (s : Machine) : Reached tss none (tssInit tss s)
  | update {last : Option Word} {s : Machine} (pthread : Word) (h : Reached tss last s) (ha : pthread.toNat % 4096 = 0) :
      Reached tss (some pthread) (updateTssEsp tss pthread s)
  | other {last : Option Word} {s : Machine} (m : Ram) (h : Reached tss last s)
      (hm : ∀ x : Word, (x - tss).toNat < sizeofTss → m x = s.mem x) : Reached tss last { s with mem := m }

/-- esp0 after the last update. -/
def esp0 : Option Word → Word
  | none => 0
  | some pthread => pthread + 4096

/-- The byte at offset `j` of the TSS. -/
def tssByte (esp : Word) (j : Nat) : BitVec 8 :=
  if j = 8 then 0x10 else if j = 104 then 0x6c else if 4 ≤ j ∧ j < 8 then esp.extractLsb' (8 * (j - 4)) 8 else 0

/-- A port whose bit of the TSS, or of the memory behind it, is set. -/
def Covered (esp : Word) (m : Ram) (tss : Word) (port : Nat) : Prop :=
  (32 ≤ port ∧ port < 64 ∧ esp.getLsbD (port - 32) = true) ∨ port = 68 ∨ port ∈ [834, 835, 837, 838] ∨
    864 ≤ port ∧ (m (tss + BitVec.ofNat 32 (port / 8))).getLsbD (port % 8) = true

/-! ## The bytes of the TSS -/

structure Tss (tss esp : Word) (s : Machine) : Prop where
  bytes : ∀ j < sizeofTss, s.mem (tss + BitVec.ofNat 32 j) = tssByte esp j
  base : s.tr.base = tss
  limit : s.tr.limit = 107 * 4096 + 4095

variable {tss esp : Word} {s : Machine} {last : Option Word}

theorem makeGdtDesc_base (w limit : Word) (attrLow attrHigh : BitVec 8) : (makeGdtDesc w limit attrLow attrHigh).base = w := by
  have hmid : ((w &&& 0x00ff0000) >>> 16).setWidth 8 = (w >>> 16).setWidth 8 := by
    have hm : ((0x00ff0000 : Word) >>> 16).setWidth 8 = BitVec.allOnes 8 := by decide
    rw [BitVec.ushiftRight_and_distrib, BitVec.setWidth_and, hm, BitVec.and_allOnes]
  simp only [GdtDesc.base, makeGdtDesc]
  rw [low_half, hmid]
  apply BitVec.eq_of_getLsbD_eq
  intro i hi
  simp only [BitVec.getLsbD_append, BitVec.getLsbD_setWidth, BitVec.getLsbD_ushiftRight]
  rcases Nat.lt_or_ge i 16 with h | h
  · simp [h]
  · rcases Nat.lt_or_ge i 24 with h' | h'
    · simp [show ¬ i < 16 by omega, show i - 16 < 8 by omega, show 16 + (i - 16) = i by omega]
    · simp [show ¬ i < 16 by omega, show ¬ i - 16 < 8 by omega, show i - 16 - 8 < 8 by omega,
        show 24 + (i - 16 - 8) = i by omega]

theorem tssInit_tss (tss : Word) (s : Machine) : Tss tss 0 (tssInit tss s) := by
  have htr : (tssInit tss s).tr = makeGdtDesc tss 107 tssAttrLow tssAttrHigh := rfl
  refine ⟨?_, ?_, ?_⟩
  · intro j hj
    have hfar : (tss + BitVec.ofNat 32 j - tss).toNat < sizeofTss := by
      unfold sizeofTss at hj ⊢
      bv_omega
    have hzero : memset tss 0 sizeofTss s.mem (tss + BitVec.ofNat 32 j) = 0 := memset_at (by decide) hfar
    have hbytes : ∀ j < sizeofTss, (if 104 ≤ j ∧ j < 104 + 4 then (BitVec.ofNat 32 sizeofTss).extractLsb' (8 * (j - 104)) 8
        else if 8 ≤ j ∧ j < 8 + 4 then selectorKStack.extractLsb' (8 * (j - 8)) 8 else 0) = tssByte 0 j := by
      decide +kernel
    rw [← hbytes j hj, ← hzero]
    unfold sizeofTss at hj
    exact (Ram.write32_offset _ tss _ (j := j) (k := 104) (by omega) (by omega)).trans
      (congrArg _ (Ram.write32_offset _ tss _ (j := j) (k := 8) (by omega) (by omega)))
  · rw [htr, makeGdtDesc_base]
  · have hlimit : ∀ d : GdtDesc, d.limitLowWord = 107 → d.limitHighAttrHigh = 0x80 → d.limit = 107 * 4096 + 4095 := by
      intro d hlow hhigh
      unfold GdtDesc.limit
      rw [hlow, hhigh]
      decide
    exact hlimit _ rfl rfl

/-- An update changes esp0 only. -/
theorem Tss.update (h : Tss tss esp s) (pthread : Word) : Tss tss (pthread + 4096) (updateTssEsp tss pthread s) := by
  refine ⟨?_, h.base, h.limit⟩
  intro j hj
  have hold := h.bytes j hj
  unfold sizeofTss at hj
  have hw := Ram.write32_offset s.mem tss (pthread + 4096) (j := j) (k := 4) (by omega) (by omega)
  apply hw.trans
  unfold tssByte at hold ⊢
  by_cases hin : 4 ≤ j ∧ j < 4 + 4
  · rw [if_pos hin, if_neg (by omega), if_neg (by omega), if_pos (by omega)]
  · rw [if_neg hin, hold, if_neg (c := 4 ≤ j ∧ j < 8) hin, if_neg (c := 4 ≤ j ∧ j < 8) hin]

theorem Reached.isTss (h : Reached tss last s) : Tss tss (esp0 last) s := by
  induction h with
  | init s => exact tssInit_tss tss s
  | update pthread _ _ ih => exact ih.update pthread
  | other m _ hm ih =>
    refine ⟨?_, ih.base, ih.limit⟩
    intro j hj
    rw [← ih.bytes j hj]
    apply hm _
    unfold sizeofTss at hj ⊢
    bv_omega

/-! ## The ports -/

/-- The I/O map starts at the TSS's first byte and never ends before a port. -/
theorem Tss.permits_iff (h : Tss tss esp s) (port : BitVec 16) :
    s.Permits port ↔ (s.mem (tss + BitVec.ofNat 32 (port.toNat / 8))).getLsbD (port.toNat % 8) = false := by
  have h102 : s.mem (tss + 102) = 0 := h.bytes 102 (by decide)
  have h103 : s.mem (tss + 102 + 1) = 0 := by
    have h1 : tss + 102 + 1 = tss + 103 := by grind
    rw [h1]
    exact h.bytes 103 (by decide)
  have hbase : s.mem.read16 (tss + 102) = 0 := by
    unfold Ram.read16
    rw [h102, h103]
    rfl
  have hport : port.toNat < 2 ^ 16 := port.isLt
  unfold Machine.Permits
  rw [h.base, h.limit, hbase, show (0 : BitVec 16).toNat = 0 from rfl, Nat.zero_add]
  constructor
  · intro hp
    exact hp.2
  · intro hp
    exact ⟨by omega, hp⟩

/-- Of the TSS's own bytes esp0, ss0 and io_base are not 0. -/
theorem tssByte_covered (esp : Word) {port : Nat} (hp : port < 864) : (tssByte esp (port / 8)).getLsbD (port % 8) = true ↔
    (32 ≤ port ∧ port < 64 ∧ esp.getLsbD (port - 32) = true) ∨ port = 68 ∨ port ∈ [834, 835, 837, 838] := by
  have hss : ∀ b < 8, (0x10 : BitVec 8).getLsbD b = true ↔ b = 4 := by decide
  have hio : ∀ b < 8, (0x6c : BitVec 8).getLsbD b = true ↔ b = 2 ∨ b = 3 ∨ b = 5 ∨ b = 6 := by decide
  have hb : port % 8 < 8 := Nat.mod_lt _ (by decide)
  simp only [List.mem_cons, List.not_mem_nil, or_false]
  unfold tssByte
  split
  · rw [hss _ hb]
    omega
  · split
    · rw [hio _ hb]
      omega
    · split
      · have hidx : 8 * (port / 8 - 4) + port % 8 = port - 32 := by omega
        simp only [BitVec.getLsbD_extractLsb', hb, decide_true, Bool.true_and, hidx]
        constructor
        · intro hbit
          exact .inl ⟨by omega, by omega, hbit⟩
        · intro hc
          exact (hc.resolve_right (by omega)).2.2
      · have hzero : (0 : BitVec 8).getLsbD (port % 8) = false := BitVec.getLsbD_zero
        rw [hzero]
        constructor
        · intro hbit
          cases hbit
        · intro hc
          omega

theorem iopl_procEflags : iopl procEflags = 0 := by decide

/-- In every state and for every port. -/
theorem io_denied_iff (h : Reached tss last s) (port : BitVec 16) :
    s.Denies procEflags port ↔ Covered (esp0 last) s.mem tss port.toNat := by
  have ht := h.isTss
  unfold Machine.Denies Covered
  rw [ht.permits_iff, iopl_procEflags, Bool.not_eq_false]
  rcases Nat.lt_or_ge port.toNat 864 with hp | hp
  · rw [ht.bytes _ (by unfold sizeofTss; omega), tssByte_covered _ hp]
    constructor
    · intro hd
      exact hd.2.imp id fun h' => h'.imp id .inl
    · intro hc
      exact ⟨by decide, hc.imp id fun h' => h'.imp id fun h'' => h''.resolve_right fun hge => absurd hge.1 (by omega)⟩
  · constructor
    · intro hd
      exact .inr (.inr (.inr ⟨hp, hd.2⟩))
    · intro hc
      refine ⟨by decide, ?_⟩
      rcases hc with hesp | hss | hio | hafter
      · omega
      · omega
      · simp only [List.mem_cons, List.not_mem_nil, or_false] at hio
        omega
      · exact hafter.2

def noDesc : GdtDesc := ⟨0, 0, 0, 0, 0, 0⟩

/-- A first user task, with the PCB 0xc0101000. -/
def firstTask : Machine :=
  updateTssEsp 0xc0006000 0xc0101000 (tssInit 0xc0006000 { mem := fun _ => 0, gdt := fun _ => noDesc, tr := noDesc })

theorem firstTask_reached : Reached 0xc0006000 (some 0xc0101000) firstTask := .update _ (.init _) (by decide)

/-- The bit of ss0 keeps port 68 from it. -/
theorem firstTask_denied : firstTask.Denies procEflags 68 := (io_denied_iff firstTask_reached 68).mpr (.inr (.inl rfl))

/-- The keyboard's port lies in esp1. -/
theorem keyboard_permitted : Reached 0xc0006000 (some 0xc0101000) firstTask ∧ ¬ firstTask.Denies procEflags 0x60 := by
  refine ⟨firstTask_reached, fun h => h.2 ?_⟩
  have ht := firstTask_reached.isTss
  rw [ht.permits_iff]
  exact congrArg (fun b => BitVec.getLsbD b 0) (ht.bytes 12 (by decide))

end TinyOs.Userprog
