/-
  TinyOs.Userprog.Privilege — what a user process can reach through selectors and gates
  (boot/loader.s, boot/include/boot.inc, userprog/tss.c, kernel/interrupt.c).

  The GDT has seven entries within its limit: the loader's, the video segment moved to the
  kernel's half, and three of tss_init. The IDT has the 0x81 gates of idt_desc_init, with
  whatever addresses. Nobody has written to the tables since; that paging would let a
  process do so is `TinyOs.Memory.Isolation`.

  `user_confined`: at level 3 no selector loads but those of the user segments, no jump,
  return or task leads to another level, and of all vectors only 0x80 can be raised. So a
  program leaves level 3 by a fault or by a system call, or when a device interrupts it.
-/

import TinyOs.Kernel.Idt
import TinyOs.Logic.Protection
import TinyOs.Userprog.StartProcess
import TinyOs.Userprog.Tss

namespace TinyOs.Userprog

open TinyOs.Kernel TinyOs.Logic.X86

/-! ## The loader's descriptors -/

def descG4k : Word := 1 <<< 23

def descD32 : Word := 1 <<< 22

def descL : Word := 0 <<< 21

def descAvl : Word := 0 <<< 20

def descLimitCode2 : Word := 0xf <<< 16

def descLimitData2 : Word := descLimitCode2

def descLimitVideo2 : Word := 0 <<< 16

def descP : Word := 1 <<< 15

def descDpl0 : Word := 0 <<< 13

def descSCode : Word := 1 <<< 12

def descSData : Word := descSCode

def descTypeCode : Word := 8 <<< 8

def descTypeData : Word := 2 <<< 8

def descCodeHigh4 : Word :=
  0x00 <<< 24 + descG4k + descD32 + descL + descAvl + descLimitCode2 + descP + descDpl0 + descSCode + descTypeCode + 0x00

def descDataHigh4 : Word :=
  0x00 <<< 24 + descG4k + descD32 + descL + descAvl + descLimitData2 + descP + descDpl0 + descSData + descTypeData + 0x00

def descVideoHigh4 : Word :=
  0x00 <<< 24 + descG4k + descD32 + descL + descAvl + descLimitVideo2 + descP + descDpl0 + descSData + descTypeData + 0x0b

/-- The low and high words from GDT_BASE on; `times 60 dq 0` follows. -/
def gdtBase : List (Word × Word) :=
  [(0, 0), (0x0000ffff, descCodeHigh4), (0x0000ffff, descDataHigh4), (0x80000007, descVideoHigh4)]

/-- `or dword [ebx + 0x18 + 4], 0xc0000000` -/
def movedVideo (gdt : List (Word × Word)) : List (Word × Word) := gdt.modify 3 fun d => (d.1, d.2 ||| 0xc0000000)

def GdtDesc.ofWords (low high : Word) : GdtDesc where
  limitLowWord := low.setWidth 16
  baseLowWord := (low >>> 16).setWidth 16
  baseMidByte := high.setWidth 8
  attrLowByte := (high >>> 8).setWidth 8
  limitHighAttrHigh := (high >>> 16).setWidth 8
  baseHighByte := (high >>> 24).setWidth 8

def loaderGdt (i : Nat) : GdtDesc :=
  let d := (movedVideo gdtBase).getD i (0, 0)
  .ofWords d.1 d.2

/-! ## What the processor checks against -/

/-- `gdt_operand` of tss_init. -/
def gdtLimit : Nat := 8 * 7 - 1

/-- `idt_operand` of idt_init: sizeof(idt) - 1. -/
def idtLimit : Nat := 8 * idtDescCnt - 1

/-- `ltr` has marked the descriptor of slot 4 busy. -/
def Machine.access (s : Machine) (i : Nat) : BitVec 8 :=
  if i = 4 then (s.gdt i).attrLowByte ||| 2 else (s.gdt i).attrLowByte

def Machine.domain (s : Machine) (l : LinkMap) (m : Ram) : Domain where
  gdt := fun i => if 8 * i + 7 ≤ gdtLimit then some (s.access i) else none
  idt := fun n => if 8 * n + 7 ≤ idtLimit then some ⟨m.read16 (l.gate n + 2), m (l.gate n + 5)⟩ else none
  ss := fun level => s.mem.read16 (s.tr.base + BitVec.ofNat 32 (8 * level + 8))
  backlink := s.mem.read16 s.tr.base

/-- What level 3 can do with selectors and vectors. 0x28 to 0x2b select the user's code,
0x30 to 0x33 its data. -/
structure Confined (d : Domain) : Prop where
  data : ∀ sel : BitVec 16, d.gdt.loadsData 3 sel = true ↔ sel.toNat < 4 ∨ sel.toNat / 4 = 0x30 / 4
  stack : ∀ sel : BitVec 16, d.gdt.loadsStack 3 sel = true ↔ sel = 0x33
  jump : ∀ sel : BitVec 16, d.gdt.jump 3 sel = if sel.toNat / 4 = 0x28 / 4 then .level 3 else .fault
  ret : ∀ cs ss : BitVec 16, d.gdt.ret 3 cs ss = if cs = 0x2b then .level 3 else .fault
  taskReturn : d.gdt.taskReturn d.backlink = .fault
  interrupt : ∀ n : BitVec 8, d.interrupt 3 n.toNat = if n = 0x80 then .level 0 else .fault

/-- What level 3 may hold in ds is a flat data segment or a null selector, with which no entry stub gets to its handler. -/
theorem Confined.flatData {d : Domain} (h : Confined d) {sel : BitVec 16} (hl : d.gdt.loadsData 3 sel = true) :
    flatData sel = !null sel := by
  unfold TinyOs.Kernel.flatData null
  rcases (h.data sel).mp hl with hnull | huser
  · simp only [show sel.toNat / 4 = 0 by omega, hnull]
    decide
  · have hge : ¬ sel.toNat < 4 := by omega
    simp only [huser, hge]
    decide

/-! ## The tables -/

/-- The access bytes of the seven entries. -/
def accessBytes : List (BitVec 8) := [0, 0x98, 0x92, 0x92, 0x8b, 0xf8, 0xf2]

variable {tss : Word} {last : Option Word} {s : Machine} {l : LinkMap} {m : Ram} {n v : Nat}

theorem Reached.gdt (h : Reached tss last s) : s.gdt 4 = makeGdtDesc tss (BitVec.ofNat 32 sizeofTss - 1) tssAttrLow tssAttrHigh ∧
    s.gdt 5 = makeGdtDesc 0 0xfffff gdtCodeAttrLowDpl3 gdtAttrHigh ∧
    s.gdt 6 = makeGdtDesc 0 0xfffff gdtDataAttrLowDpl3 gdtAttrHigh := by
  induction h with
  | init s => exact ⟨rfl, rfl, rfl⟩
  | update _ _ _ ih => exact ih
  | other _ _ _ ih => exact ih

/-- The entries are the same wherever the TSS lies. -/
theorem domain_gdt (h : Reached tss last s) (hg : ∀ i < 4, s.gdt i = loaderGdt i) :
    (s.domain l m).gdt = fun i => accessBytes[i]? := by
  obtain ⟨h4, h5, h6⟩ := h.gdt
  funext i
  show (if 8 * i + 7 ≤ gdtLimit then some (s.access i) else none) = accessBytes[i]?
  unfold gdtLimit
  by_cases hi : i < 7
  · rw [if_pos (by omega)]
    have hall : ∀ i < 4, some (loaderGdt i).attrLowByte = accessBytes[i]? := by decide
    unfold Machine.access
    split
    · next he =>
      rw [he, h4]
      show some (tssAttrLow ||| 2) = accessBytes[4]?
      decide
    · next hne =>
      by_cases hlt : i < 4
      · rw [hg i hlt]
        exact hall i hlt
      · obtain rfl | rfl : i = 5 ∨ i = 6 := by omega
        · rw [h5]; rfl
        · rw [h6]; rfl
  · rw [if_neg (by omega), List.getElem?_eq_none]
    show 7 ≤ i
    omega

/-- Every gate of the loop has the kernel's code selector and DPL 0, whatever address was read for it. -/
theorem makeIdtDesc_selector (p : Word) (attr : BitVec 8) (function : Word) (m : Ram) :
    (makeIdtDesc p attr function m).read16 (p + 2) = selectorKCode := by
  simp only [makeIdtDesc]
  generalize m.write16 p _ = m'
  refine Eq.trans (Ram.read16_congr ?_) (Ram.read16_write16 m' (p + 2) selectorKCode)
  intro x hx
  rw [Ram.write16_far (by bv_omega), Ram.write8_far (by bv_omega), Ram.write8_far (by bv_omega)]

/-- The selector and the attribute of gate `v`. -/
def Marked (l : LinkMap) (m : Ram) (v : Nat) (attr : BitVec 8) : Prop :=
  m.read16 (l.gate v + 2) = selectorKCode ∧ m (l.gate v + 5) = attr

theorem Marked.congr {m' : Ram} {attr : BitVec 8} (h : Marked l m v attr) (hm : ∀ x : Word, (x - l.gate v).toNat < 8 → m' x = m x) :
    Marked l m' v attr := by
  refine ⟨?_, ?_⟩
  · rw [← h.1]
    exact Ram.read16_congr fun x hx => hm x (by bv_omega)
  · rw [← h.2]
    exact hm _ (by bv_omega)

theorem makeIdtDesc_marked (l : LinkMap) (v : Nat) (attr : BitVec 8) (function : Word) (m : Ram) :
    Marked l (makeIdtDesc (l.gate v) attr function m) v attr :=
  ⟨makeIdtDesc_selector .., (makeIdtDesc_gate ..).attr⟩

theorem fillGates_marked (hn : n ≤ idtDescCnt) (hv : v < n) : Marked l (fillGates l n m).mem v idtDescAttrDpl0 := by
  induction n with
  | zero => omega
  | succ n ih =>
    rw [fillGates_succ]
    rcases Nat.lt_or_eq_of_le (Nat.lt_succ_iff.mp hv) with hlt | rfl
    · refine (ih (by omega) hlt).congr ?_
      intro x hx
      exact makeIdtDesc_far (gate_far (by omega) (by omega) (by omega) hx)
    · exact makeIdtDesc_marked ..

theorem idtDescInit_marked (hv : v < idtDescCnt) :
    Marked l (idtDescInit l m).mem v (if v = 0x80 then idtDescAttrDpl3 else idtDescAttrDpl0) := by
  rw [(idtDescInit_eq l m).1]
  split
  · next he => subst he; exact makeIdtDesc_marked ..
  · next hne =>
    refine (fillGates_marked (m := m) (Nat.le_refl _) hv).congr ?_
    intro x hx
    exact makeIdtDesc_far (gate_far hv (by decide) hne hx)

theorem domain_idt (n : Nat) : (s.domain l (idtDescInit l m).mem).idt n =
    if n < idtDescCnt then some ⟨selectorKCode, if n = 0x80 then idtDescAttrDpl3 else idtDescAttrDpl0⟩ else none := by
  show (if 8 * n + 7 ≤ idtLimit then some (⟨_, _⟩ : GateAccess) else none) = _
  have hiff : 8 * n + 7 ≤ idtLimit ↔ n < idtDescCnt := by unfold idtLimit idtDescCnt; omega
  rw [if_congr hiff rfl rfl]
  split
  · next hn =>
    obtain ⟨h2, h5⟩ := idtDescInit_marked (l := l) (m := m) hn
    rw [h2, h5]
  · rfl

/-- ss0 and the link back of the TSS. -/
theorem domain_tss (h : Reached tss last s) : (s.domain l m).ss 0 = 0x10 ∧ (s.domain l m).backlink = 0 := by
  have ht := h.isTss
  have hword : ∀ j, j + 1 < sizeofTss →
      s.mem.read16 (s.tr.base + BitVec.ofNat 32 j) = tssByte (esp0 last) (j + 1) ++ tssByte (esp0 last) j := by
    intro j hj
    have hnext : s.tr.base + BitVec.ofNat 32 j + 1 = s.tr.base + BitVec.ofNat 32 (j + 1) := by
      rw [BitVec.ofNat_add]
      grind
    unfold Ram.read16
    rw [hnext, ht.base, ht.bytes j (by omega), ht.bytes (j + 1) hj]
  have h8 : tssByte (esp0 last) 8 = 0x10 := rfl
  have h9 : tssByte (esp0 last) 9 = 0 := rfl
  have h0 : tssByte (esp0 last) 0 = 0 := rfl
  have h1 : tssByte (esp0 last) 1 = 0 := rfl
  refine ⟨?_, ?_⟩
  · apply (hword 8 (by decide)).trans
    rw [h8, h9]
    decide
  · have hz := hword 0 (by decide)
    rw [show s.tr.base + BitVec.ofNat 32 0 = s.tr.base from BitVec.add_zero _, h0, h1] at hz
    exact hz.trans (by decide)

/-! ## Level 3 -/

abbrev sevenEntries : Table := fun i => accessBytes[i]?

/-- What holds of the seven entries with each RPL, and of what selects nothing, holds of every selector. -/
theorem selector_forall {P : BitVec 16 → Prop} (hin : ∀ i < 7, ∀ r < 4, P (BitVec.ofNat 16 (8 * i + r)))
    (hout : ∀ sel : BitVec 16, 56 ≤ sel.toNat ∨ sel.toNat / 4 % 2 = 1 →
      (∀ ss, sevenEntries.loadsData 3 sel = false ∧ sevenEntries.loadsStack 3 sel = false ∧
        sevenEntries.jump 3 sel = .fault ∧ sevenEntries.ret 3 sel ss = .fault) → P sel) (sel : BitVec 16) : P sel := by
  have hlen : ∀ i, 7 ≤ i → sevenEntries i = none := fun i hi => List.getElem?_eq_none hi
  rcases Table.select_cases hlen sel with ⟨i, hi, r, hr, rfl⟩ | ⟨hsel, hfar⟩
  · exact hin i hi r hr
  · have hnull : null sel = false := decide_eq_false (by omega)
    exact hout sel hfar fun ss => Table.refused 3 ss hsel hnull

/-- A selector is not equal to one of the seven entries' when it is far from them. -/
theorem ne_of_far {sel : BitVec 16} (h : 56 ≤ sel.toNat ∨ sel.toNat / 4 % 2 = 1) {w : BitVec 16}
    (hw : w.toNat < 56 ∧ w.toNat / 4 % 2 = 0) : sel ≠ w := by
  rintro rfl
  omega

theorem seven_data : ∀ sel : BitVec 16, sevenEntries.loadsData 3 sel = true ↔ sel.toNat < 4 ∨ sel.toNat / 4 = 0x30 / 4 := by
  refine selector_forall (by decide) ?_
  intro sel hfar href
  rw [(href 0).1]
  constructor
  · nofun
  · omega

theorem seven_stack : ∀ sel : BitVec 16, sevenEntries.loadsStack 3 sel = true ↔ sel = 0x33 := by
  refine selector_forall (by decide) ?_
  intro sel hfar href
  rw [(href 0).2.1]
  exact ⟨nofun, fun h => absurd h (ne_of_far hfar (by decide))⟩

theorem seven_jump : ∀ sel : BitVec 16, sevenEntries.jump 3 sel = if sel.toNat / 4 = 0x28 / 4 then .level 3 else .fault := by
  refine selector_forall (by decide) ?_
  intro sel hfar href
  rw [(href 0).2.2.1, if_neg (by omega)]

theorem seven_ret (ss : BitVec 16) : ∀ cs, sevenEntries.ret 3 cs ss = if cs = 0x2b then .level 3 else .fault := by
  refine selector_forall ?_ ?_
  · simp only [Table.ret_outermost sevenEntries _ ss 0]
    decide
  · intro cs hfar href
    rw [(href ss).2.2.2, if_neg (ne_of_far hfar (by decide))]

/-- Of the gates only the system call's is for level 3; the handlers' code is the kernel's, and ss0 its data. -/
theorem domain_interrupt (h : Reached tss last s) (hg : ∀ i < 4, s.gdt i = loaderGdt i) (n : BitVec 8) :
    (s.domain l (idtDescInit l m).mem).interrupt 3 n.toNat = if n = 0x80 then .level 0 else .fault := by
  have hgdt : (s.domain l (idtDescInit l m).mem).gdt = sevenEntries := domain_gdt h hg
  have hidt := domain_idt (s := s) (l := l) (m := m) n.toNat
  have hn : n = 0x80 ↔ n.toNat = 0x80 := ⟨fun e => e ▸ rfl, fun e => BitVec.eq_of_toNat_eq e⟩
  rw [if_congr hn rfl rfl]
  by_cases h80 : n.toNat = 0x80
  · rw [if_pos h80]
    rw [if_pos h80, if_pos (by rw [h80]; decide)] at hidt
    refine Domain.interrupt_inner (a := 0x98) hidt (by decide) ⟨by decide, ?_⟩ (by decide) ?_
    · rw [hgdt]
      decide
    · have hss := (domain_tss (l := l) (m := (idtDescInit l m).mem) h).1
      have hdpl : Access.dpl 0x98 = 0 := by decide
      rw [hgdt, hdpl, hss]
      decide
  · rw [if_neg h80]
    apply Domain.interrupt_denied
    intro g hgate
    rw [hidt] at hgate
    split at hgate
    · cases hgate
      show Access.dpl idtDescAttrDpl0 < 3
      decide
    · cases hgate

theorem Reached.confined (h : Reached tss last s) (hg : ∀ i < 4, s.gdt i = loaderGdt i) :
    Confined (s.domain l (idtDescInit l m).mem) := by
  have hgdt : (s.domain l (idtDescInit l m).mem).gdt = sevenEntries := domain_gdt h hg
  refine ⟨?_, ?_, ?_, ?_, ?_, domain_interrupt h hg⟩
  · rw [hgdt]; exact seven_data
  · rw [hgdt]; exact seven_stack
  · rw [hgdt]; exact seven_jump
  · rw [hgdt]; exact fun cs ss => seven_ret ss cs
  · have hback := (domain_tss (l := l) (m := (idtDescInit l m).mem) h).2
    rw [hgdt, hback]
    decide

theorem Confined.sealed {d : Domain} (h : Confined d) : d.Sealed 0x80 := by
  refine ⟨?_, h.taskReturn, ?_⟩
  · intro sel
    rw [h.jump]
    split
    · exact Outcome.noConfusion
    · exact Outcome.noConfusion
  · intro n hn
    rw [h.interrupt, if_neg hn]

/-- The exact reach of level 3, and how any program ends there. -/
theorem user_confined (h : Reached tss last s) (hg : ∀ i < 4, s.gdt i = loaderGdt i) (l : LinkMap) (m : Ram) :
    Confined (s.domain l (idtDescInit l m).mem) ∧
    ∀ ops op o, (s.domain l (idtDescInit l m).mem).run 3 ops = some (op, o) →
      o = .fault ∨ op = .interrupt 0x80 :=
  ⟨h.confined hg, fun _ _ _ he => h.confined hg |>.sealed.run he⟩

/-! ## The segments -/

/-- The kernel's and the user's segments are flat, and the video segment is the screen in the kernel's half. -/
theorem segments_flat (h : Reached tss last s) (hg : ∀ i < 4, s.gdt i = loaderGdt i) :
    (∀ i ∈ [1, 2, 5, 6], (s.gdt i).base = 0 ∧ (s.gdt i).limit = 2 ^ 32 - 1) ∧
      (s.gdt 3).base = 0xc00b8000 ∧ (s.gdt 3).limit = 0x7fff := by
  obtain ⟨-, h5, h6⟩ := h.gdt
  simp only [List.forall_mem_cons, List.not_mem_nil, false_implies, implies_true, and_true, h5, h6, hg 1 (by omega),
    hg 2 (by omega), hg 3 (by omega)]
  decide

/-- The frame of start_process leads to level 3, and the kernel's own segments load. -/
theorem process_entered (h : Reached tss last s) (hg : ∀ i < 4, s.gdt i = loaderGdt i) :
    (s.domain l m).gdt.ret 0 (selectorUCode.setWidth 16) (selectorUData.setWidth 16) = .level 3 ∧
      (∀ sel ∈ [0, 0x10, 0x18, selectorUData.setWidth 16], (s.domain l m).gdt.loadsData 0 sel = true) ∧
      (s.domain l m).gdt.loadsStack 0 0x10 = true ∧ (s.domain l m).gdt.jump 0 0x8 = .level 0 := by
  have hgdt : (s.domain l m).gdt = sevenEntries := domain_gdt h hg
  have hcode : (selectorUCode.setWidth 16 : BitVec 16) = 0x2b := by decide
  have hdata : (selectorUData.setWidth 16 : BitVec 16) = 0x33 := by decide
  rw [hgdt, hcode, hdata]
  simp only [List.forall_mem_cons, List.not_mem_nil, false_implies, implies_true, and_true]
  decide

/-! ## A process -/

/-- After the boot, with the PCB 0xc0101000 switched to. -/
def running : Machine := updateTssEsp 0xc0006000 0xc0101000 (tssInit 0xc0006000 { mem := fun _ => 0, gdt := loaderGdt, tr := noDesc })

theorem running_reached : Reached 0xc0006000 (some 0xc0101000) running := .update _ (.init _) (by decide)

theorem running_confined : Confined (running.domain kernelMap (idtDescInit kernelMap kernelRam).mem) ∧
    ∀ ops op o, (running.domain kernelMap (idtDescInit kernelMap kernelRam).mem).run 3 ops = some (op, o) →
      o = .fault ∨ op = .interrupt 0x80 :=
  user_confined running_reached (by decide) kernelMap kernelRam

end TinyOs.Userprog
