/-
  TinyOs.Kernel.Idt — the interrupt descriptor table that `idt_desc_init` builds
  (kernel/interrupt.c, with `idet` read as `idt`).

  `make_idt_desc` masks the high half of the handler's address but does not shift it
  down: the field of 16 bits keeps nothing of it. And the loop reads 0x81 entries of a
  table to which kernel.S gives 0x30. So
  - `idt_gates`: the table is installed at no link address; a gate decodes to its handler
    exactly when there is one and its address is below 2^16.
-/

import TinyOs.Kernel.InterruptEntry

namespace TinyOs.Kernel

open TinyOs.Logic.X86

/-! ## The code -/

def idtDescCnt : Nat := 0x81

def idtDescAttrDpl0 : BitVec 8 := 0x8e

def idtDescAttrDpl3 : BitVec 8 := 0xee

def selectorKCode : BitVec 16 := 0x8

/-- `struct gate_desc`: func_offset_low_word 0, selector 2, dcount 4, attribute 5, func_offset_high_word 6. -/
def makeIdtDesc (pGdesc : Word) (attr : BitVec 8) (function : Word) (m : Ram) : Ram :=
  let m := m.write16 pGdesc ((function &&& 0x0000ffff).setWidth 16)
  let m := m.write16 (pGdesc + 2) selectorKCode
  let m := m.write8 (pGdesc + 4) 0
  let m := m.write8 (pGdesc + 5) attr
  m.write16 (pGdesc + 6) ((function &&& 0xffff0000).setWidth 16)

/-- What the linker has placed: `entry v` is `intr%1entry` of vector `v`. -/
structure LinkMap where
  idt : Word
  intrEntryTable : Word
  entry : Nat → Word
  syscallHandler : Word

def LinkMap.gate (l : LinkMap) (v : Nat) : Word := l.idt + BitVec.ofNat 32 (8 * v)

/-- Memory, and the indices at which `intr_entry_table` has been read. -/
structure Filling where
  mem : Ram
  reads : List Nat

def fillGate (l : LinkMap) (s : Filling) (i : Nat) : Filling where
  mem := makeIdtDesc (l.gate i) idtDescAttrDpl0 (s.mem.read32 (l.intrEntryTable + BitVec.ofNat 32 (4 * i))) s.mem
  reads := s.reads ++ [i]

def fillGates (l : LinkMap) (n : Nat) (m : Ram) : Filling := (List.range n).foldl (fillGate l) ⟨m, []⟩

def idtDescInit (l : LinkMap) (m : Ram) : Filling :=
  let s := fillGates l idtDescCnt m
  { s with mem := makeIdtDesc (l.gate (idtDescCnt - 1)) idtDescAttrDpl3 l.syscallHandler s.mem }

/-! ## What the processor reads -/

/-- func_offset_high_word is bits 31..16, func_offset_low_word bits 15..0. -/
def gateOffset (m : Ram) (a : Word) : Word := m.read16 (a + 6) ++ m.read16 a

def gateDpl (m : Ram) (a : Word) : BitVec 8 := m (a + 5) >>> 5 &&& 3

/-- The table that kernel.S has assembled, and that `idt` does not overlap. -/
structure LinkMap.Linked (l : LinkMap) (m : Ram) : Prop where
  table : ∀ v < vectors.length, m.read32 (l.intrEntryTable + BitVec.ofNat 32 (4 * v)) = l.entry v
  disjoint : ∀ x : Word, (x - l.idt).toNat < 8 * idtDescCnt → 4 * vectors.length ≤ (x - l.intrEntryTable).toNat

/-- Where vector `v` is meant to go: the system call, or the stub that kernel.S defines for it. -/
def LinkMap.handler (l : LinkMap) (v : Nat) : Option Word :=
  if v = 0x80 then some l.syscallHandler else if v < vectors.length then some (l.entry v) else none

/-- The installed gate decodes to the handler, with its DPL. -/
def LinkMap.Decodes (l : LinkMap) (m : Ram) (v : Nat) : Prop :=
  l.handler v = some (gateOffset (idtDescInit l m).mem (l.gate v)) ∧
    gateDpl (idtDescInit l m).mem (l.gate v) = if v = 0x80 then 3 else 0

structure LinkMap.Installed (l : LinkMap) (m : Ram) : Prop where
  decodes : ∀ v < idtDescCnt, l.Decodes m v
  reads : ∀ i ∈ (idtDescInit l m).reads, i < vectors.length

/-! ## One gate -/

/-- The gate at `p` as `make_idt_desc` writes it. -/
structure GateAt (m : Ram) (p : Word) (attr : BitVec 8) (function : Word) : Prop where
  low : m.read16 p = function.setWidth 16
  high : m.read16 (p + 6) = 0
  attr : m (p + 5) = attr

variable {m m' : Ram} {p x function : Word} {attr : BitVec 8} {l : LinkMap} {n v : Nat}

theorem makeIdtDesc_far (h : 8 ≤ (x - p).toNat) : makeIdtDesc p attr function m x = m x := by
  simp only [makeIdtDesc]
  rw [Ram.write16_far (by bv_omega), Ram.write8_far (by bv_omega), Ram.write8_far (by bv_omega),
    Ram.write16_far (by bv_omega), Ram.write16_far (by omega)]

/-- What is not shifted down does not fit the field. -/
theorem high_half_lost (w : Word) : (w &&& 0xffff0000).setWidth 16 = 0 := by
  have hm : (0xffff0000 : Word).setWidth 16 = 0#16 := by decide
  rw [BitVec.setWidth_and, hm]
  exact BitVec.and_zero

theorem makeIdtDesc_gate (p : Word) (attr : BitVec 8) (function : Word) (m : Ram) :
    GateAt (makeIdtDesc p attr function m) p attr function := by
  simp only [makeIdtDesc, low_half, high_half_lost]
  refine ⟨?_, Ram.read16_write16 _ _ _, ?_⟩
  · refine Eq.trans (Ram.read16_congr ?_) (Ram.read16_write16 m p (function.setWidth 16))
    intro x hx
    rw [Ram.write16_far (by bv_omega), Ram.write8_far (by bv_omega), Ram.write8_far (by bv_omega), Ram.write16_far (by bv_omega)]
  · rw [Ram.write16_far (by bv_omega), Ram.write8_at]

theorem GateAt.congr (h : GateAt m p attr function) (hm : ∀ x : Word, (x - p).toNat < 8 → m' x = m x) :
    GateAt m' p attr function := by
  refine ⟨?_, ?_, ?_⟩
  · rw [← h.low]
    exact Ram.read16_congr fun x hx => hm x (by omega)
  · rw [← h.high]
    exact Ram.read16_congr fun x hx => hm x (by bv_omega)
  · rw [← h.attr]
    exact hm _ (by bv_omega)

theorem GateAt.offset (h : GateAt m p attr function) : gateOffset m p = (function.setWidth 16).setWidth 32 := by
  unfold gateOffset
  rw [h.low, h.high]
  apply BitVec.eq_of_toNat_eq
  rw [BitVec.toNat_append]
  simp
  omega

/-- Only the low half of an address can be reassembled. -/
theorem GateAt.offset_eq_iff (h : GateAt m p attr function) : function = gateOffset m p ↔ function.toNat < 2 ^ 16 := by
  rw [h.offset]
  constructor
  · intro he
    have hn := congrArg BitVec.toNat he
    simp at hn
    omega
  · intro hlt
    apply BitVec.eq_of_toNat_eq
    simp
    omega

theorem GateAt.dpl (h : GateAt m p attr function) : gateDpl m p = attr >>> 5 &&& 3 := by
  unfold gateDpl
  rw [h.attr]

/-! ## The loop -/

theorem fillGates_succ (l : LinkMap) (n : Nat) (m : Ram) : fillGates l (n + 1) m = fillGate l (fillGates l n m) n := by
  unfold fillGates
  rw [List.range_succ, List.foldl_append]
  rfl

/-- `n` gates have been written: nothing outside `idt`, and of the stubs each its own. -/
structure Filled (l : LinkMap) (m : Ram) (n : Nat) (s : Filling) : Prop where
  outside : ∀ x : Word, 8 * idtDescCnt ≤ (x - l.idt).toNat → s.mem x = m x
  gates : ∀ v < n, v < vectors.length → GateAt s.mem (l.gate v) idtDescAttrDpl0 (l.entry v)
  reads : s.reads = List.range n

/-- The distance to the entry of `n` bytes at index `v` of a table at `a`. -/
theorem sub_entry (a x : Word) (h : n * v < 2 ^ 32) :
    (x - (a + BitVec.ofNat 32 (n * v))).toNat = (2 ^ 32 - n * v + (x - a).toNat) % 2 ^ 32 := by
  have hd : x - (a + BitVec.ofNat 32 (n * v)) = x - a - BitVec.ofNat 32 (n * v) := by grind
  rw [hd, BitVec.toNat_sub, BitVec.toNat_ofNat, Nat.mod_eq_of_lt h]

/-- The gates of two vectors have no byte in common. -/
theorem gate_far {u : Nat} (hu : u < idtDescCnt) (hv : v < idtDescCnt) (hne : u ≠ v) (hx : (x - l.gate u).toNat < 8) :
    8 ≤ (x - l.gate v).toNat := by
  unfold idtDescCnt at hu hv
  rw [LinkMap.gate, sub_entry _ _ (by omega)] at hx ⊢
  omega

theorem gate_outside (hv : v < idtDescCnt) (hx : 8 * idtDescCnt ≤ (x - l.idt).toNat) : 8 ≤ (x - l.gate v).toNat := by
  unfold idtDescCnt at hv hx
  rw [LinkMap.gate, sub_entry _ _ (by omega)]
  omega

theorem Filled.table (hl : l.Linked m) {s : Filling} (h : Filled l m n s) (hv : v < vectors.length) :
    s.mem.read32 (l.intrEntryTable + BitVec.ofNat 32 (4 * v)) = l.entry v := by
  rw [← hl.table v hv]
  apply Ram.read32_congr
  intro x hx
  apply h.outside x
  by_contra hin
  have hfar := hl.disjoint x (by omega)
  have hlen : vectors.length = 48 := rfl
  rw [hlen] at hfar hv
  rw [sub_entry _ _ (by omega)] at hx
  omega

theorem fillGate_filled (hl : l.Linked m) {s : Filling} (h : Filled l m n s) (hn : n < idtDescCnt) :
    Filled l m (n + 1) (fillGate l s n) := by
  refine ⟨?_, ?_, ?_⟩
  · intro x hx
    exact (makeIdtDesc_far (gate_outside hn hx)).trans (h.outside x hx)
  · intro v hv hs
    rcases Nat.lt_or_eq_of_le (Nat.lt_succ_iff.mp hv) with hlt | heq
    · refine (h.gates v hlt hs).congr ?_
      intro x hx
      exact makeIdtDesc_far (gate_far (by omega) hn (by omega) hx)
    · subst heq
      have hgate := makeIdtDesc_gate (l.gate v) idtDescAttrDpl0 (l.entry v) s.mem
      rw [← h.table hl hs] at hgate
      rw [← h.table hl hs]
      exact hgate
  · rw [List.range_succ, ← h.reads]
    rfl

theorem fillGates_filled (hl : l.Linked m) (hn : n ≤ idtDescCnt) : Filled l m n (fillGates l n m) := by
  induction n with
  | zero => exact ⟨fun _ _ => rfl, fun _ hv => absurd hv (Nat.not_lt_zero _), rfl⟩
  | succ n ih =>
    rw [fillGates_succ]
    exact fillGate_filled hl (ih (by omega)) (by omega)

theorem idtDescInit_eq (l : LinkMap) (m : Ram) :
    (idtDescInit l m).mem = makeIdtDesc (l.gate 0x80) idtDescAttrDpl3 l.syscallHandler (fillGates l idtDescCnt m).mem ∧
      (idtDescInit l m).reads = (fillGates l idtDescCnt m).reads := by
  have hlast : idtDescCnt - 1 = 0x80 := rfl
  unfold idtDescInit
  rw [hlast]
  exact ⟨rfl, rfl⟩

/-- After `idt_desc_init`: the gates of the stubs, and of the system call. -/
theorem idtDescInit_gates (hl : l.Linked m) :
    (∀ v < vectors.length, GateAt (idtDescInit l m).mem (l.gate v) idtDescAttrDpl0 (l.entry v)) ∧
      GateAt (idtDescInit l m).mem (l.gate 0x80) idtDescAttrDpl3 l.syscallHandler ∧
      (idtDescInit l m).reads = List.range idtDescCnt := by
  have h := fillGates_filled hl (Nat.le_refl idtDescCnt)
  rw [(idtDescInit_eq l m).1, (idtDescInit_eq l m).2]
  refine ⟨?_, makeIdtDesc_gate _ _ _ _, h.reads⟩
  intro v hv
  have hlt : v < 48 := hv
  have hcnt : v < idtDescCnt := Nat.lt_trans hlt (by decide)
  refine (h.gates v hcnt hv).congr ?_
  intro x hx
  exact makeIdtDesc_far (gate_far hcnt (by decide) (by omega) hx)

/-- No stub is defined for vector 0x30. -/
theorem not_installed (l : LinkMap) (m : Ram) : ¬ l.Installed m := by
  intro h
  have hnone := (h.decodes 0x30 (by decide)).1
  cases hnone

theorem decodes_iff (hl : l.Linked m) : l.Decodes m v ↔
    v < vectors.length ∧ (l.entry v).toNat < 2 ^ 16 ∨ v = 0x80 ∧ l.syscallHandler.toNat < 2 ^ 16 := by
  obtain ⟨hstub, hsys, -⟩ := idtDescInit_gates hl
  have h80 : ¬ 0x80 < vectors.length := by decide
  unfold LinkMap.Decodes LinkMap.handler
  by_cases hv : v = 0x80
  · subst hv
    rw [if_pos rfl, if_pos rfl, hsys.dpl, Option.some_inj, hsys.offset_eq_iff]
    constructor
    · intro h
      exact .inr ⟨rfl, h.1⟩
    · intro h
      exact ⟨(h.resolve_left fun h' => h80 h'.1).2, by decide⟩
  · rw [if_neg hv, if_neg hv]
    by_cases hs : v < vectors.length
    · rw [if_pos hs, (hstub v hs).dpl, Option.some_inj, (hstub v hs).offset_eq_iff]
      constructor
      · intro h
        exact .inl ⟨hs, h.1⟩
      · intro h
        exact ⟨(h.resolve_right fun h' => hv h'.1).2, by decide⟩
    · rw [if_neg hs]
      constructor
      · intro h
        cases h.1
      · intro h
        exact (h.elim (fun h' => hs h'.1) fun h' => hv h'.1).elim

/-- No link map gets the whole table; each gate decodes exactly from a low address. -/
theorem idt_gates (hl : l.Linked m) : ¬ l.Installed m ∧
    (∀ v, l.Decodes m v ↔ v < vectors.length ∧ (l.entry v).toNat < 2 ^ 16 ∨ v = 0x80 ∧ l.syscallHandler.toNat < 2 ^ 16) ∧
    (idtDescInit l m).reads = List.range idtDescCnt :=
  ⟨not_installed l m, fun _ => decodes_iff hl, (idtDescInit_gates hl).2.2⟩

/-- A kernel linked at 0xc0001500. -/
def kernelMap : LinkMap where
  idt := 0xc0006000
  intrEntryTable := 0xc0005000
  entry := fun v => 0xc0001500 + BitVec.ofNat 32 (0x20 * v)
  syscallHandler := 0xc0001b00

def kernelRam : Ram := fun x =>
  if (x - 0xc0005000).toNat < 4 * 48 then
    (kernelMap.entry ((x - 0xc0005000).toNat / 4)).extractLsb' (8 * ((x - 0xc0005000).toNat % 4)) 8
  else 0

theorem kernelMap_linked : kernelMap.Linked kernelRam := by
  refine ⟨by decide +kernel, ?_⟩
  intro x hx
  have hlt : (x - 0xc0006000).toNat < 1032 := hx
  have hfar : 192 ≤ (x - 0xc0005000).toNat := by bv_omega
  exact hfar

theorem kernelMap_gates : ¬ kernelMap.Installed kernelRam ∧ ¬ kernelMap.Decodes kernelRam 0x20 ∧
    (idtDescInit kernelMap kernelRam).reads = List.range idtDescCnt := by
  obtain ⟨hno, hiff, hreads⟩ := idt_gates kernelMap_linked
  refine ⟨hno, ?_, hreads⟩
  rw [hiff]
  decide

/-- The timer's gate lacks the high half of its address. -/
theorem timer_gate_lost : kernelMap.Linked kernelRam ∧ ¬ kernelMap.Installed kernelRam ∧
    ¬ kernelMap.Decodes kernelRam 0x20 := by
  refine ⟨kernelMap_linked, not_installed _ _, ?_⟩
  rw [decodes_iff kernelMap_linked]
  decide

end TinyOs.Kernel
