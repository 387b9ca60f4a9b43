/-
  TinyOs.Memory.TextBuffer — the text buffer in the address spaces.

  put_char draws through `gs`, whose base the loader moved to 0xc00b8000 (loader.s), and
  scrolls with `rep movsd` through `ds` and `es`, whose base is 0, from 0xb80a0 to
  0xb8000. `putCharAccesses` is every byte of the buffer that a call loads or stores,
  by its linear address.

  The kernel's directory has the first megabyte at both places. A directory of
  `create_page_dir` has only entries 768 to 1023 of it: what is drawn through `gs` shows
  in all of them, and the scroll's first load faults.
  - `prints_alike_iff`: in a new directory a call reaches the buffer as in the kernel's
    exactly where it does not scroll.
  - `SpaceRuns.gs_alike`: what is drawn without a scroll shows in every directory, at any
    time.
-/

import TinyOs.Lib.Print
import TinyOs.Memory.HeapPages

namespace TinyOs.Memory

open TinyOs.Kernel TinyOs.Lib TinyOs.Logic

/-- The base in a segment descriptor of two dwords. -/
def descBase (low high : BitVec 32) : BitVec 32 := (high &&& 0xff000000#32) ||| (high &&& 0xff#32) <<< 16 ||| low >>> 16

/-- VIDEO_DESC, after `or dword [ebx + 0x18 + 4], 0xc0000000`. -/
def gsBase : Nat := (descBase 0x80000007#32 (0x00c0920b#32 ||| 0xc0000000#32)).toNat

theorem gsBase_eq : gsBase = 0xc00b8000 := by decide

/-- A byte of the buffer loaded or stored. -/
structure Access where
  store : Bool
  addr : Nat

/-- `[gs:off]`, stored. -/
def gsByte (off : Nat) : Access := ⟨true, gsBase + off⟩

def dword (store : Bool) (a : Nat) : List Access := [⟨store, a⟩, ⟨store, a + 1⟩, ⟨store, a + 2⟩, ⟨store, a + 3⟩]

/-! ## put_char -/

/-- `rep movsd` -/
def movsdAccesses : Nat → Nat → Nat → List Access
  | 0, _, _ => []
  | ecx + 1, esi, edi => dword false esi ++ dword true edi ++ movsdAccesses ecx (esi + 4) (edi + 4)

/-- `.cls` -/
def clsAccesses : Nat → Nat → List Access
  | 0, _ => []
  | ecx + 1, ebx => gsByte ebx :: gsByte (ebx + 1) :: clsAccesses ecx (ebx + 2)

def rollScreenAccesses : List Access := movsdAccesses 960 0xb80a0 0xb8000 ++ clsAccesses 80 3840

def lineFeedAccesses (bx : BitVec 16) : List Access :=
  let dx := bx % 80
  let bx := bx - dx
  let bx := bx + 80
  if bx.slt 2000 then [] else rollScreenAccesses

def backspaceAccesses (bx : BitVec 16) : List Access :=
  let bx := bx - 1
  let bx := bx <<< 1
  [gsByte bx.toNat, gsByte (bx + 1).toNat]

def putOtherAccesses (bx : BitVec 16) : List Access :=
  let bx := bx <<< 1
  let drawn := [gsByte bx.toNat, gsByte (bx + 1).toNat]
  let bx := bx + 1
  let bx := bx >>> 1
  let bx := bx + 1
  drawn ++ if bx.slt 2000 then [] else lineFeedAccesses bx

def putCharAccesses (cl : BitVec 8) (s : Screen) : List Access :=
  let (bx, _) := getCursor s
  if cl = 0x0d then lineFeedAccesses bx
  else if cl = 0x0a then lineFeedAccesses bx
  else if cl = 0x08 then backspaceAccesses bx
  else putOtherAccesses bx

/-- Each byte that a call touches has in directory `d` the frame that it has in the kernel's. -/
def PrintsAlike (m : Bytes) (d : Nat) (cl : BitVec 8) (s : Screen) : Prop :=
  ∀ x ∈ putCharAccesses cl s, ∃ pa, translate m d x.addr = some pa ∧ translate m pageDirTablePos x.addr = some pa

/-- A line feed on the last row scrolls, and a character in the last cell. -/
def Scrolls (p : Nat) (cl : BitVec 8) : Prop := if cl = 0x0d ∨ cl = 0x0a then 1920 ≤ p else cl ≠ 0x08 ∧ p = 1999

instance (p : Nat) (cl : BitVec 8) : Decidable (Scrolls p cl) :=
  inferInstanceAs (Decidable (if cl = 0x0d ∨ cl = 0x0a then 1920 ≤ p else cl ≠ 0x08 ∧ p = 1999))

/-! ## The stores are those of put_char -/

/-- Where the buffer's bytes lie. -/
def shown (a : Nat) : Nat := if gsBase ≤ a then a - gsBase + textBase else a

/-- Address `a` is stored to in `l`. -/
def Stores (l : List Access) (a : Nat) : Prop := ∃ x ∈ l, x.store = true ∧ shown x.addr = a

/-- From `s` to `s'` the stores of `l` are made. -/
def Stored (l : List Access) (s s' : Screen) : Prop := ∀ a, a ∈ s'.writes ↔ Stores l a ∨ a ∈ s.writes

variable {scr scr' scr'' : Screen} {cl : BitVec 8} {bx : BitVec 16} {l l' : List Access} {x : Access} {off a : Nat}

theorem shown_gs (off : Nat) : shown (gsBase + off) = textBase + off := by
  unfold shown
  rw [if_pos (by omega)]
  omega

theorem shown_low (h : a < gsBase) : shown a = a := if_neg (by omega)

@[simp] theorem stores_nil : ¬ Stores [] a := fun h => by
  obtain ⟨x, hx, -⟩ := h
  cases hx

@[simp] theorem stores_cons : Stores (x :: l) a ↔ (x.store = true ∧ shown x.addr = a) ∨ Stores l a := by
  unfold Stores
  simp only [List.mem_cons, exists_eq_or_imp]

@[simp] theorem stores_append : Stores (l ++ l') a ↔ Stores l a ∨ Stores l' a := by
  unfold Stores
  simp only [List.mem_append, or_and_right, exists_or]

@[simp] theorem stores_gsByte : ((gsByte off).store = true ∧ shown (gsByte off).addr = a) ↔ a = textBase + off := by
  show (true = true ∧ shown (gsBase + off) = a) ↔ _
  rw [shown_gs]
  exact ⟨fun h => h.2.symm, fun h => ⟨rfl, h.symm⟩⟩

theorem stores_load (a : Nat) {b : Nat} : ¬ Stores (dword false a) b := by simp [dword]

theorem stores_dword (h : a + 4 ≤ gsBase) {b : Nat} : Stores (dword true a) b ↔ b = a ∨ b = a + 1 ∨ b = a + 2 ∨ b = a + 3 := by
  unfold dword
  simp only [stores_cons, stores_nil, shown_low (show a < gsBase by omega), shown_low (show a + 1 < gsBase by omega),
    shown_low (show a + 2 < gsBase by omega), shown_low (show a + 3 < gsBase by omega), true_and, or_false]
  omega

theorem Stored.nil (h : scr'.writes = scr.writes) : Stored [] scr scr' := by
  intro a
  rw [h]
  exact (or_iff_right stores_nil).symm

theorem Stored.trans (h : Stored l scr scr') (h' : Stored l' scr' scr'') : Stored (l ++ l') scr scr'' := by
  intro a
  rw [h' a, h a, stores_append]
  exact or_left_comm.trans or_assoc.symm

theorem gsStore8_stored {v : BitVec 8} (h : scr.gsStore8 off v = .ok scr') : Stored [gsByte off] scr scr' := by
  unfold Screen.gsStore8 at h
  split at h
  · cases h
    intro a
    rw [stores_cons, stores_gsByte, or_iff_left stores_nil]
    exact List.mem_cons
  · cases h

theorem movsd_stored (ecx esi edi : Nat) (hlt : edi + 4 * ecx ≤ gsBase) (scr : Screen) :
    Stored (movsdAccesses ecx esi edi) scr (movsd ecx esi edi scr) := by
  induction ecx generalizing esi edi scr with
  | zero => exact .nil rfl
  | succ ecx ih =>
    have hstep : Stored (dword false esi ++ dword true edi) scr (scr.write32 edi (scr.mem.read32 esi)) := by
      intro a
      rw [stores_append, or_iff_right (stores_load esi), stores_dword (by omega)]
      show a ∈ edi :: (edi + 1) :: (edi + 2) :: (edi + 3) :: scr.writes ↔ _
      simp only [List.mem_cons, or_assoc]
    exact hstep.trans (ih _ _ (by omega) _)

theorem cls_stored (ecx ebx : Nat) (h : cls ecx ebx scr = .ok scr') : Stored (clsAccesses ecx ebx) scr scr' := by
  induction ecx generalizing ebx scr with
  | zero =>
    cases h
    exact .nil rfl
  | succ ecx ih =>
    obtain ⟨s1, h1, h⟩ := bind_ok_iff.mp h
    have hstep : Stored [gsByte ebx, gsByte (ebx + 1)] scr s1 := by
      unfold Screen.gsStore16 at h1
      split at h1
      · cases h1
        intro a
        show a ∈ (textBase + ebx + 1) :: (textBase + ebx) :: scr.writes ↔ _
        rw [stores_cons, stores_cons, stores_gsByte, stores_gsByte, or_iff_left stores_nil, List.mem_cons, List.mem_cons]
        rw [or_left_comm, or_assoc]
        exact Iff.rfl
      · cases h1
    exact hstep.trans (ih (ebx + 2) h)

theorem rollScreen_stored (h : rollScreen scr = .ok scr') : Stored rollScreenAccesses scr scr' :=
  (movsd_stored 960 0xb80a0 0xb8000 (by rw [gsBase_eq]; omega) scr).trans (cls_stored 80 3840 h)

theorem lineFeed_stored (h : lineFeed bx scr = .ok scr') : Stored (lineFeedAccesses bx) scr scr' := by
  unfold lineFeed at h
  unfold lineFeedAccesses
  simp only at h ⊢
  split at h
  · next hc =>
    cases h
    rw [if_pos hc]
    exact .nil rfl
  · next hc =>
    obtain ⟨s1, h1, h⟩ := bind_ok_iff.mp h
    cases h
    rw [if_neg hc]
    exact fun a => rollScreen_stored h1 a

theorem backspace_stored (h : backspace bx scr = .ok scr') : Stored (backspaceAccesses bx) scr scr' := by
  obtain ⟨s1, h1, h⟩ := bind_ok_iff.mp h
  obtain ⟨s2, h2, h⟩ := bind_ok_iff.mp h
  cases h
  have hcell := (gsStore8_stored h1).trans (gsStore8_stored h2)
  exact fun a => hcell a

theorem putOther_stored (h : putOther cl bx scr = .ok scr') : Stored (putOtherAccesses bx) scr scr' := by
  obtain ⟨s1, h1, h⟩ := bind_ok_iff.mp h
  obtain ⟨s2, h2, h⟩ := bind_ok_iff.mp h
  have hcell := (gsStore8_stored h1).trans (gsStore8_stored h2)
  apply hcell.trans
  simp only at h ⊢
  split at h
  · next hc =>
    cases h
    rw [if_pos hc]
    exact .nil rfl
  · next hc =>
    rw [if_neg hc]
    exact lineFeed_stored h

/-- Reading the cursor stores nothing. -/
theorem asked_writes (scr : Screen) : (asked scr).writes = scr.writes := rfl

theorem putCharAccesses_newline (h : cl = 0x0d ∨ cl = 0x0a) (scr : Screen) : putCharAccesses cl scr = lineFeedAccesses scr.cursor := by
  rcases h with rfl | rfl
  · rfl
  · rfl

theorem putCharAccesses_back (scr : Screen) : putCharAccesses 0x08 scr = backspaceAccesses scr.cursor := rfl

theorem putCharAccesses_other (h : ¬ (cl = 0x0d ∨ cl = 0x0a)) (hb : cl ≠ 0x08) (scr : Screen) :
    putCharAccesses cl scr = putOtherAccesses scr.cursor := by
  show (if cl = 0x0d then _ else if cl = 0x0a then _ else if cl = 0x08 then _ else _) = _
  rw [if_neg fun e => h (.inl e), if_neg fun e => h (.inr e), if_neg hb]
  rfl

/-- What a call stores, and where, is what `putChar` does. -/
theorem putChar_stored (h : putChar cl scr = .ok scr') : Stored (putCharAccesses cl scr) scr scr' := by
  have hasked : Stored (putCharAccesses cl scr) (asked scr) scr' := by
    by_cases hnl : cl = 0x0d ∨ cl = 0x0a
    · rw [putChar_newline hnl] at h
      rw [putCharAccesses_newline hnl]
      exact lineFeed_stored h
    · by_cases hb : cl = 0x08
      · subst hb
        rw [putChar_back] at h
        rw [putCharAccesses_back]
        exact backspace_stored h
      · rw [putChar_other hnl hb] at h
        rw [putCharAccesses_other hnl hb]
        exact putOther_stored h
  intro a
  rw [hasked a, asked_writes]

/-! ## What a call touches -/

/-- Through `gs`, or in the buffer by its address. -/
def InBuffer (x : Access) : Prop := (∃ off, off < 4000 ∧ x = gsByte off) ∨ textBase ≤ x.addr ∧ x.addr < textBase + 4000

/-- The two bytes of a cell come first. -/
theorem cell_or {P : Access → Prop} (h : off + 1 < 4000) (hl : ∀ x ∈ l, (∃ off, off < 4000 ∧ x = gsByte off) ∨ P x) :
    ∀ x ∈ gsByte off :: gsByte (off + 1) :: l, (∃ off, off < 4000 ∧ x = gsByte off) ∨ P x :=
  List.forall_mem_cons.mpr ⟨.inl ⟨off, by omega, rfl⟩, List.forall_mem_cons.mpr ⟨.inl ⟨off + 1, h, rfl⟩, hl⟩⟩

theorem dword_addr {store : Bool} (h : x ∈ dword store a) : a ≤ x.addr ∧ x.addr < a + 4 := by
  simp only [dword, List.mem_cons, List.not_mem_nil, or_false] at h
  rcases h with rfl | rfl | rfl | rfl <;> simp

theorem dword_buffer {store : Bool} (h1 : textBase ≤ a) (h2 : a + 4 ≤ textBase + 4000) : ∀ x ∈ dword store a, InBuffer x := by
  intro x hx
  obtain ⟨hlo, hhi⟩ := dword_addr hx
  exact .inr ⟨by omega, by omega⟩

theorem movsd_buffer {ecx esi edi : Nat} (h1 : textBase ≤ esi) (h2 : textBase ≤ edi) (h3 : esi + 4 * ecx ≤ textBase + 4000)
    (h4 : edi + 4 * ecx ≤ textBase + 4000) : ∀ x ∈ movsdAccesses ecx esi edi, InBuffer x := by
  induction ecx generalizing esi edi with
  | zero =>
    intro x hx
    cases hx
  | succ ecx ih =>
    intro x hx
    rcases List.mem_append.mp hx with hx | hx
    · rcases List.mem_append.mp hx with hx | hx
      · exact dword_buffer h1 (by omega) x hx
      · exact dword_buffer h2 (by omega) x hx
    · exact ih (by omega) (by omega) (by omega) (by omega) x hx

theorem cls_buffer {ecx ebx : Nat} (h : ebx + 2 * ecx ≤ 4000) : ∀ x ∈ clsAccesses ecx ebx, InBuffer x := by
  induction ecx generalizing ebx with
  | zero =>
    intro x hx
    cases hx
  | succ ecx ih => exact cell_or (by omega) (ih (by omega))

theorem roll_buffer : ∀ x ∈ rollScreenAccesses, InBuffer x := by
  intro x hx
  rcases List.mem_append.mp hx with hx | hx
  · exact movsd_buffer (by decide) (by decide) (by decide) (by decide) x hx
  · exact cls_buffer (by decide) x hx

/-- The first byte of row 1. -/
theorem roll_first : (⟨false, 0xb80a0⟩ : Access) ∈ rollScreenAccesses := by
  apply List.mem_append_left _
  show (⟨false, 0xb80a0⟩ : Access) ∈ dword false 0xb80a0 ++ dword true 0xb8000 ++ movsdAccesses 959 0xb80a4 0xb8004
  exact List.mem_append_left _ (List.mem_append_left _ List.mem_cons_self)

theorem lineFeedAccesses_eq (h : bx.toNat ≤ 2000) :
    lineFeedAccesses bx = if bx.toNat / 80 < 24 then [] else rollScreenAccesses := by
  have hb := nextRow_toNat h
  unfold lineFeedAccesses
  simp only
  rw [slt_2000 (by omega)]
  simp only [decide_eq_true_eq]
  by_cases hrow : bx.toNat / 80 < 24
  · rw [if_pos (by omega), if_pos hrow]
  · rw [if_neg (by omega), if_neg hrow]

theorem backspaceAccesses_eq (h0 : bx.toNat ≠ 0) (h : bx.toNat < 2000) :
    backspaceAccesses bx = [gsByte (2 * (bx.toNat - 1)), gsByte (2 * (bx.toNat - 1) + 1)] := by
  have hprev : (bx - 1).toNat = bx.toNat - 1 := BitVec.toNat_sub_of_le (by rw [BitVec.le_def]; exact Nat.pos_of_ne_zero h0)
  obtain ⟨ha, hb, -⟩ := cell_offsets (p := bx - 1) (by omega)
  unfold backspaceAccesses
  simp only [ha, hb, hprev]

theorem putOtherAccesses_eq (h : bx.toNat < 2000) : putOtherAccesses bx =
    [gsByte (2 * bx.toNat), gsByte (2 * bx.toNat + 1)] ++ if bx.toNat = 1999 then rollScreenAccesses else [] := by
  obtain ⟨h0, h1, h2⟩ := cell_offsets h
  have hnext := cursor_next h
  unfold putOtherAccesses
  simp only [h0, h1, h2]
  rw [slt_2000 (by omega), hnext]
  simp only [decide_eq_true_eq]
  congr 1
  by_cases hlast : bx.toNat = 1999
  · rw [if_neg (by omega), if_pos hlast, lineFeedAccesses_eq (by omega), if_neg (by omega)]
  · rw [if_pos (by omega), if_neg hlast]

/-- A cell, and the scroll where there is one. -/
theorem putCharAccesses_mem (h : scr.cursor.toNat < 2000) (hb : cl = 0x08 → scr.cursor.toNat ≠ 0) :
    (∀ x ∈ putCharAccesses cl scr, (∃ off, off < 4000 ∧ x = gsByte off) ∨ Scrolls scr.cursor.toNat cl ∧ x ∈ rollScreenAccesses) ∧
      (Scrolls scr.cursor.toNat cl → ∀ x ∈ rollScreenAccesses, x ∈ putCharAccesses cl scr) := by
  unfold Scrolls
  by_cases hnl : cl = 0x0d ∨ cl = 0x0a
  · rw [putCharAccesses_newline hnl, lineFeedAccesses_eq (by omega), if_pos hnl]
    by_cases hrow : scr.cursor.toNat / 80 < 24
    · rw [if_pos hrow]
      exact ⟨fun x hx => absurd hx List.not_mem_nil, fun hs => by omega⟩
    · rw [if_neg hrow]
      exact ⟨fun x hx => .inr ⟨by omega, hx⟩, fun _ x hx => hx⟩
  · rw [if_neg hnl]
    by_cases hbs : cl = 0x08
    · have hpos := hb hbs
      subst hbs
      rw [putCharAccesses_back, backspaceAccesses_eq hpos h]
      exact ⟨cell_or (by omega) fun x hx => absurd hx List.not_mem_nil, fun hs => absurd rfl hs.1⟩
    · rw [putCharAccesses_other hnl hbs, putOtherAccesses_eq h]
      refine ⟨?_, ?_⟩
      · apply cell_or (by omega)
        intro x hx
        split at hx
        · next hlast => exact .inr ⟨⟨hbs, hlast⟩, hx⟩
        · cases hx
      · intro hs x hx
        rw [if_pos hs.2]
        exact List.mem_append_right _ hx

theorem putChar_buffer (h : scr.cursor.toNat < 2000) (hb : cl = 0x08 → scr.cursor.toNat ≠ 0) :
    ∀ x ∈ putCharAccesses cl scr, InBuffer x := by
  intro x hx
  rcases (putCharAccesses_mem h hb).1 x hx with hgs | ⟨-, hroll⟩
  · exact .inl hgs
  · exact roll_buffer x hroll

/-! ## The first megabyte -/

/-- The entries through which the first megabyte shows: 256 of the first kernel table, and entry 0 of the kernel's directory. -/
structure LowMap (m : Bytes) : Prop where
  pte : ∀ i, i < 256 → m.read32 (kernelTable 768 + i * 4) = i * 4096 ||| pgAttr
  pde : m.read32 pageDirTablePos = kernelTable 768 ||| pgAttr

/-- Where they lie. -/
def lowEntries : Set Nat := Bytes.word pageDirTablePos ∪ Set.Ico (kernelTable 768) (kernelTable 768 + 1024)

variable {m m' : Bytes} {s s' : Mem} {dirs : List Nat} {d f n v : Nat}

theorem LowMap.congr (h : LowMap m) (he : Set.EqOn m' m lowEntries) : LowMap m' := by
  refine ⟨?_, ?_⟩
  · intro i hi
    rw [← h.pte i hi]
    exact Bytes.read32_congr (he.mono fun x hx => .inr (Set.Ico_subset_Ico (by omega) (by omega) hx))
  · rw [← h.pde]
    exact Bytes.read32_congr (he.mono Set.subset_union_left)

/-- They are present, so `page_table_add` writes none of them. -/
theorem LowMap.store (h : LowMap m) (hal : a % 4 = 0) (habs : ¬ Present (m.read32 a)) : LowMap (m.write32 a v) := by
  have hkeep : ∀ e, e % 4 = 0 → Present (m.read32 e) → (m.write32 a v).read32 e = m.read32 e := by
    intro e hmod hp
    have hne : a ≠ e := by
      rintro rfl
      exact habs hp
    exact Bytes.read32_write32_of_disjoint (by omega)
  refine ⟨?_, ?_⟩
  · intro i hi
    have he := h.pte i hi
    rw [hkeep _ (by have := kernelTable_aligned 768; omega) (by rw [he]; exact present_or_attr (by omega)), he]
  · rw [hkeep _ (by decide) (by rw [h.pde]; exact present_or_attr (kernelTable_aligned 768)), h.pde]

/-- No frame of the pools, and not frame 0. -/
theorem lowEntries_not_frame (hf : f + pgSize ≤ pageDirTablePos ∨ usedMem ≤ f) {x : Nat} (hx : x ∈ lowEntries) : x ∉ frame f := by
  intro hx'
  have hf' := Set.mem_Ico.mp hx'
  unfold usedMem pageDirTablePos pgSize at hf
  rcases hx with hx | hx
  · have := Set.mem_Ico.mp hx
    unfold pageDirTablePos at this
    omega
  · have := Set.mem_Ico.mp hx
    unfold kernelTable pageDirTablePos at this
    omega

theorem SpaceInv.frame_low (h : SpaceInv s dirs) (i : Nat) : usedMem ≤ (s.pool .kernel).frame i := by
  rw [← h.pool]
  exact Nat.le_add_right _ _

/-- The heap's pages have entries behind the first megabyte's. -/
theorem entry_heap {va : Nat} (h1 : kHeapStart ≤ va) : kernelTable 768 + 1024 ≤ entry kernelTable va := by
  unfold kHeapStart at h1
  unfold entry kernelTable pdeIdx pteIdx
  omega

theorem LowMap.getKernelPages (h : LowMap s.phys) (hi : SpaceInv s dirs) (hd : s.cr3 ∈ dirs) (hk : pageDirTablePos ∈ dirs)
    (hc : getKernelPages n s = .ok (v, s')) : LowMap s'.phys := by
  rcases getKernelPages_cases (hi.space hd) hc with ⟨-, -, -, hp, -⟩ | ⟨b, m, k, g, -, -, hg, -⟩
  · rw [hp]
    exact h
  · apply h.congr
    intro x hx
    apply hg.phys x
    · intro i hik hx'
      rcases hx with hx | hx
      · exact hi.entry_apart hk (hg.kernelAddr hik) (pde_word_subset (show 0 < 1024 by omega) hx) hx'
      · have hheap : kHeapStart ≤ s.kernelVaddr.page b + i * pgSize := by
          rw [← hi.heap]
          unfold VirtualAddr.page
          omega
        have := entry_heap hheap
        have := Set.mem_Ico.mp hx
        have := Set.mem_Ico.mp hx'
        omega
    · intro i _
      exact lowEntries_not_frame (.inr (hi.frame_low _)) hx

/-- A table is made in frame `f`. -/
theorem LowMap.newTable {c j : Nat} (h : LowMap m) (hc : c % 4096 = 0) (habs : ¬ Present (m.read32 (c + j * 4)))
    (hf : f + pgSize ≤ pageDirTablePos ∨ usedMem ≤ f) (hm : ∀ x, x ∉ frame f → m' x = m.write32 (c + j * 4) v x) : LowMap m' :=
  (h.store (v := v) (by omega) habs).congr fun x hx => hm x (lowEntries_not_frame hf hx)

theorem LowMap.pageTableAdd {vaddr pa : Nat} (h : LowMap s.phys) (hi : SpaceInv s dirs) (hd : s.cr3 ∈ dirs) (hv : vaddr < 0xffc00000)
    (ha : pageTableAdd vaddr pa s = .ok s') : LowMap s'.phys := by
  have hself := (hi.dir hd).self
  by_cases hp : Present (s.phys.read32 (s.cr3 + pdeIdx vaddr * 4))
  · rw [pageTableAdd_present _ hself (by omega) hp] at ha
    obtain ⟨u, habs, ha⟩ := bind_ok_iff.mp ha
    cases ha
    have hal : pteAt s.phys s.cr3 vaddr % 4 = 0 := by
      have := frameOf_mod (s.phys.read32 (s.cr3 + pdeIdx vaddr * 4))
      unfold pteAt
      omega
    exact h.store hal (of_decide_eq_true (assert_ok.mp habs))
  · have hmade : ∀ {f sp}, palloc .kernel s = .ok (f, sp) → f % 4096 = 0 → f ≠ s.cr3 → f ||| pgAttr < 2 ^ 32 →
        (f + pgSize ≤ pageDirTablePos ∨ usedMem ≤ f) → LowMap s'.phys := by
      intro f sp hpal hal hne hlt hf
      obtain ⟨m, rfl, hout⟩ := pageTableAdd_made hself hv hp hpal hal hne hlt ha
      exact h.newTable hself.aligned hp hf hout
    rcases palloc_cases .kernel s with ⟨he, -⟩ | ⟨i, hfits, hfree, -, he⟩
    · have hne : 0 ≠ s.cr3 := fun e => absurd (hi.above 0 (e ▸ hd)) (by decide)
      exact hmade he rfl hne (by decide) (.inl (by decide))
    · have hal := (s.pool .kernel).frame_aligned i
      have hne := ((hi.known _ hd).ne_free hi.pool hfree).symm
      exact hmade he hal hne (or_attr_lt hal ((s.pool .kernel).frame_lt hfits)) (.inr (hi.frame_low i))

theorem LowMap.getAPage {pf : PoolFlags} {vaddr r : Nat} (h : LowMap s.phys) (hi : SpaceInv s dirs) (hd : s.cr3 ∈ dirs)
    (hv : vaddr < 0xffc00000) (hc : getAPage pf vaddr s = .ok (r, s')) : LowMap s'.phys := by
  obtain ⟨sp, hst, hphys, hend⟩ := getAPage_stays hc
  have hsp : LowMap sp.phys := by
    rw [hphys]
    exact h
  rcases hend with rfl | ⟨pa, sadd, l, hadd, rfl⟩
  · exact hsp
  · have hcr3 : sp.cr3 ∈ dirs := by rw [hst.cr3]; exact hd
    have hinv := hi.stays hst fun d _ x _ => by rw [hphys]
    have hlow := hsp.pageTableAdd hinv hcr3 hv hadd
    exact hlow

theorem LowMap.createPageDir (h : LowMap s.phys) (hi : SpaceInv s dirs) (hd : s.cr3 ∈ dirs) (hk : pageDirTablePos ∈ dirs)
    (hc : createPageDir s = .ok (v, s')) : LowMap s'.phys := by
  rcases createPageDir_cases (hi.space hd) hc with ⟨-, hget⟩ | ⟨-, s1, g, m, phys, hg, hget, hn, rfl, -⟩
  · exact h.getKernelPages hi hd hk hget
  · have h1 := h.getKernelPages hi hd hk hget
    exact h1.congr fun x hx => hn.outside x (lowEntries_not_frame (.inr (hi.frame_low _)) hx)

/-! ## Every directory, at any time -/

theorem LowMap.boot (m : Bytes) : LowMap (setupPage m) := by
  refine ⟨?_, ?_⟩
  · intro i hi
    have hentry : (setupPage m).read32 (kernelTable 768 + i * 4) = i * 4096 + 7 := setupPage_pte hi
    rw [hentry, or_attr (by omega)]
  · have hentry := setupPage_user (m := m) (show 0 < 768 by omega)
    rwa [if_pos rfl, Nat.zero_mul, Nat.add_zero] at hentry

theorem LowMap.step {S S' : Space} {op : SpaceOp} (h : LowMap S.mem.phys) (hi : SpaceInv S.mem S.dirs) (hk : pageDirTablePos ∈ S.dirs)
    (hl : SpaceLegal S op) (hs : spaceStep S op = .ok S') : LowMap S'.mem.phys ∧ pageDirTablePos ∈ S'.dirs := by
  cases op with
  | createPageDir dir cur =>
    obtain ⟨⟨v, s⟩, hc, hs⟩ := bind_ok_iff.mp hs
    have hlow := LowMap.createPageDir (s := S.mem.activate dir cur) h (hi.activate dir cur) hl hk hc
    simp only at hs
    split at hs
    · cases hs
      exact ⟨hlow, hk⟩
    · obtain ⟨F, -, hs⟩ := bind_ok_iff.mp hs
      cases hs
      exact ⟨hlow, List.mem_cons_of_mem _ hk⟩
  | getKernelPages dir cur pgCnt =>
    obtain ⟨⟨v, s⟩, hc, hs⟩ := bind_ok_iff.mp hs
    cases hs
    exact ⟨LowMap.getKernelPages (s := S.mem.activate dir cur) h (hi.activate dir cur) hl hk hc, hk⟩
  | getAPage dir cur pf vaddr =>
    obtain ⟨⟨v, s⟩, hc, hs⟩ := bind_ok_iff.mp hs
    cases hs
    exact ⟨LowMap.getAPage (s := S.mem.activate dir cur) h (hi.activate dir cur) hl.1 hl.2.2 hc, hk⟩

theorem SpaceRuns.low {S : Space} (hr : SpaceRuns S) : LowMap S.mem.phys ∧ pageDirTablePos ∈ S.dirs := by
  have hall : SpaceInv S.mem S.dirs ∧ LowMap S.mem.phys ∧ pageDirTablePos ∈ S.dirs := by
    refine Reach.invariant (P := fun S => SpaceInv S.mem S.dirs ∧ LowMap S.mem.phys ∧ pageDirTablePos ∈ S.dirs) ?_ ?_ hr
    · intro S hS
      refine ⟨SpaceInv.first hS, ?_⟩
      obtain ⟨⟨allMem, s0, m, hp, hinit⟩, hd⟩ := hS
      rw [memPoolInit_eq] at hinit
      rw [hd, ← Except.ok.inj hinit, poolsInit_phys, hp]
      exact ⟨LowMap.boot m, List.mem_singleton_self _⟩
    · intro S S' op hS hl hs
      exact ⟨hS.1.step hl hs, hS.2.1.step hS.1 hS.2.2 hl hs⟩
  exact hall.2

/-- An address of the first megabyte, where entry `j` of directory `d` names the first kernel table. -/
theorem LowMap.translate {va : Nat} (h : LowMap m) (hd : m.read32 (d + pdeIdx va * 4) = kernelTable 768 ||| pgAttr)
    (hi : pteIdx va < 256) : translate m d va = some (pteIdx va * 4096 + va % 2 ^ 12) := by
  have hframe : pteIdx va * 4096 % 4096 = 0 := Nat.mul_mod_left ..
  unfold Memory.translate
  simp only [hd, if_pos (present_or_attr (kernelTable_aligned 768)), frameOf_or_attr (kernelTable_aligned 768), h.pte _ hi,
    if_pos (present_or_attr hframe), frameOf_or_attr hframe]

/-- The kernel's directory has the first megabyte at 0. -/
theorem LowMap.translate_low (h : LowMap m) (ha : a < 0x100000) : Memory.translate m pageDirTablePos a = some a := by
  have hd : m.read32 (pageDirTablePos + pdeIdx a * 4) = kernelTable 768 ||| pgAttr := by
    have hidx : pdeIdx a = 0 := by unfold pdeIdx; omega
    rw [hidx]
    exact h.pde
  rw [h.translate hd (by unfold pteIdx; omega)]
  unfold pteIdx
  exact congrArg some (by omega)

/-- Every directory has the buffer where `gs` begins. -/
theorem SpaceInv.translate_gs (hi : SpaceInv s dirs) (h : LowMap s.phys) (hd : d ∈ dirs) (hoff : off < 4000) :
    translate s.phys d (gsBase + off) = some (textBase + off) := by
  have hidx : pdeIdx (gsBase + off) = 768 := by
    rw [gsBase_eq]
    unfold pdeIdx
    omega
  have hpte : pteIdx (gsBase + off) = 0xb8 := by
    rw [gsBase_eq]
    unfold pteIdx
    omega
  have hentry : s.phys.read32 (d + pdeIdx (gsBase + off) * 4) = kernelTable 768 ||| pgAttr := by
    rw [hidx]
    exact hi.kernel d hd 768 (by omega) (by omega)
  rw [h.translate hentry (by omega), hpte, gsBase_eq]
  unfold textBase
  exact congrArg some (by omega)

/-- What is drawn without a scroll shows in every directory, at any time. -/
theorem SpaceRuns.gs_alike {S : Space} (hr : SpaceRuns S) (hd : d ∈ S.dirs) (h : scr.cursor.toNat < 2000)
    (hb : cl = 0x08 → scr.cursor.toNat ≠ 0) (hn : ¬ Scrolls scr.cursor.toNat cl) : PrintsAlike S.mem.phys d cl scr := by
  obtain ⟨hlow, hk⟩ := hr.low
  intro x hx
  rcases (putCharAccesses_mem h hb).1 x hx with ⟨off, hoff, rfl⟩ | ⟨hs, -⟩
  · exact ⟨textBase + off, hr.inv.translate_gs hlow hd hoff, hr.inv.translate_gs hlow hk hoff⟩
  · exact absurd hs hn

/-- The kernel's directory has every byte where `putChar` has it, also those of a scroll. -/
theorem SpaceRuns.kernel_prints {S : Space} (hr : SpaceRuns S) (h : scr.cursor.toNat < 2000)
    (hb : cl = 0x08 → scr.cursor.toNat ≠ 0) :
    ∀ x ∈ putCharAccesses cl scr, translate S.mem.phys pageDirTablePos x.addr = some (shown x.addr) := by
  obtain ⟨hlow, hk⟩ := hr.low
  intro x hx
  rcases putChar_buffer h hb x hx with ⟨off, hoff, rfl⟩ | ⟨hlo, hhi⟩
  · show translate S.mem.phys pageDirTablePos (gsBase + off) = some (shown (gsBase + off))
    rw [shown_gs, hr.inv.translate_gs hlow hk hoff]
  · unfold textBase at hhi
    rw [shown_low (by rw [gsBase_eq]; omega)]
    exact hlow.translate_low (by omega)

/-! ## A new directory -/

/-- A call of `create_page_dir` returned in `s`, with a directory in frame `F`. -/
structure NewSpace (S : Space) (dir : Nat) (cur : Caller) (s : Mem) (F : Nat) : Prop where
  active : dir ∈ S.dirs
  made : ∃ v, createPageDir (S.mem.activate dir cur) = .ok (v, s) ∧ v ≠ 0 ∧ addrV2p v s = .ok F

variable {S : Space} {dir F : Nat} {cur : Caller}

theorem NewSpace.runs (h : NewSpace S dir cur s F) (hr : SpaceRuns S) : SpaceRuns ⟨s, F :: S.dirs⟩ := by
  obtain ⟨v, hc, hv, hF⟩ := h.made
  refine Reach.step (.createPageDir dir cur) hr h.active ?_
  simp only [spaceStep, hc, ok_bind, if_neg hv, hF]

/-- Nothing below 0xc0000000 is mapped. -/
theorem NewSpace.empty (h : NewSpace S dir cur s F) (hr : SpaceRuns S) (ha : a < 0xc0000000) : translate s.phys F a = none := by
  obtain ⟨v, hc, hv, hF⟩ := h.made
  rcases (hr.inv.activate dir cur).createPageDir h.active hc with ⟨h0, -⟩ | ⟨-, F', hF', -, -, hempty⟩
  · exact absurd h0 hv
  · rw [hF] at hF'
    cases hF'
    exact hempty a ha

theorem NewSpace.scroll_faults (h : NewSpace S dir cur s F) (hr : SpaceRuns S) (hcur : scr.cursor.toNat < 2000)
    (hb : cl = 0x08 → scr.cursor.toNat ≠ 0) (hs : Scrolls scr.cursor.toNat cl) : ¬ PrintsAlike s.phys F cl scr := by
  intro hall
  obtain ⟨pa, hpa, -⟩ := hall _ ((putCharAccesses_mem hcur hb).2 hs _ roll_first)
  rw [h.empty hr (by decide)] at hpa
  cases hpa

/-- A call reaches the buffer in a new directory as in the kernel's exactly where it does not scroll. -/
theorem prints_alike_iff (hr : SpaceRuns S) (h : NewSpace S dir cur s F) (hcur : scr.cursor.toNat < 2000)
    (hb : cl = 0x08 → scr.cursor.toNat ≠ 0) : PrintsAlike s.phys F cl scr ↔ ¬ Scrolls scr.cursor.toNat cl := by
  constructor
  · intro hall hs
    exact h.scroll_faults hr hcur hb hs hall
  · intro hn
    exact (h.runs hr).gs_alike List.mem_cons_self hcur hb hn

/-- After the boot with 32 MB the kernel makes a directory. -/
theorem bootSpace_makes : ∃ s F, NewSpace bootSpace pageDirTablePos ⟨1, 0, noRange⟩ s F := by
  have hd : pageDirTablePos ∈ bootSpace.dirs := List.mem_singleton_self _
  have hinv := bootSpace_runs.inv.activate pageDirTablePos ⟨1, 0, noRange⟩
  have hne : heapPage 0 ≠ 0 := by decide
  obtain ⟨s, hs, -⟩ := (bootSpace_heap ⟨1, 0, noRange⟩).next_dir hinv hd (by decide +kernel) (by decide +kernel)
  rcases hinv.createPageDir hd hs with ⟨h0, -⟩ | ⟨-, F, hF, -⟩
  · exact absurd h0 hne
  · exact ⟨s, F, hd, _, hs, hne, hF⟩

/-- The cursor in the last cell. -/
def lastCell : Screen := { blankScreen with crtc := fun r => if r = 0x0e then 0x07 else 0xcf }

/-- "A" in the first cell shows; in the last one it faults. -/
theorem first_cell_alike : ∃ s F, NewSpace bootSpace pageDirTablePos ⟨1, 0, noRange⟩ s F ∧
    PrintsAlike s.phys F 0x41 blankScreen := by
  obtain ⟨s, F, h⟩ := bootSpace_makes
  exact ⟨s, F, h, (prints_alike_iff bootSpace_runs h (by decide) (by decide)).mpr (by decide)⟩

theorem last_cell_faults : ¬ ∀ S dir cur s F cl scr, SpaceRuns S → NewSpace S dir cur s F → scr.cursor.toNat < 2000 →
    (cl = 0x08 → scr.cursor.toNat ≠ 0) → PrintsAlike s.phys F cl scr := by
  intro hall
  obtain ⟨s, F, h⟩ := bootSpace_makes
  have hs : Scrolls lastCell.cursor.toNat 0x41 := by decide
  have hprints := hall _ _ _ s F 0x41 lastCell bootSpace_runs h (by decide) (by decide)
  exact h.scroll_faults bootSpace_runs (by decide) (by decide) hs hprints

end TinyOs.Memory
