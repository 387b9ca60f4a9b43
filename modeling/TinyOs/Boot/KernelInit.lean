/-
  TinyOs.Boot.KernelInit — which kernels `kernel_init` loads as ELF prescribes.

  `kernelInit_loads_iff`: where the segments that are copied without being loadable
  spare the stack and the image, the kernel is loaded exactly when it has a program
  header at all, the bytes between p_filesz and p_memsz are 0 already, and what those
  segments leave behind is what was to be there. `loop` decrements before it tests, so
  no header means 2^32 of them; nothing clears a bss (`bss_not_cleared`).
-/

import TinyOs.Boot.Loader

namespace TinyOs.Boot

open TinyOs.Logic
open TinyOs.Logic.X86

/-! ## The stack -/

variable {e : Env} {m m₀ : Ram} {esp : Word} {len : Nat}

theorem Env.phys_stack (e : Env) (esp y : Word) : e.phys y = e.stackPlace esp (y - (esp - 28)).toNat := by
  unfold Env.stackPlace
  rw [BitVec.ofNat_toNat, BitVec.setWidth_eq, BitVec.add_comm, BitVec.sub_add_cancel]

/-- Distinct addresses of the stack name distinct bytes, so on the stack `store32` is a plain store. -/
theorem store32_view (ha : e.Apart m₀ len esp) {a v y : Word}
    (hroom : (a - (esp - 28)).toNat + 4 ≤ 28) (hy : (y - (esp - 28)).toNat < 28) :
    e.view (e.store32 m a v) y = (e.view m).write32 a v y := by
  have hne : ∀ z : Word, (z - (esp - 28)).toNat < 28 → y ≠ z → e.phys y ≠ e.phys z := by
    intro z hz hyz he
    rw [e.phys_stack esp y, e.phys_stack esp z] at he
    have := ha.stackBytes _ hy _ hz he
    exact hyz (by bv_omega)
  have h0 := hne a (by omega)
  have h1 := hne (a + 1) (by bv_omega)
  have h2 := hne (a + 2) (by bv_omega)
  have h3 := hne (a + 3) (by bv_omega)
  by_cases hd : (y - a).toNat < 4
  · have hcases : y = a ∨ y = a + 1 ∨ y = a + 2 ∨ y = a + 3 := by bv_omega
    rcases hcases with rfl | rfl | rfl | rfl
    · have h := Ram.write32_at (m := e.view m) (a := y) (v := v) 0 (by decide)
      rw [show y + 0 = y from BitVec.add_zero y] at h
      refine (writes_last [] ?_).trans h.symm
      simp only [List.forall_mem_cons, List.not_mem_nil, false_imp_iff, implies_true, and_true]
      exact ⟨(h1 (by bv_omega)).symm, (h2 (by bv_omega)).symm, (h3 (by bv_omega)).symm⟩
    · refine (writes_last [(e.phys a, v.extractLsb' 0 8)] ?_).trans (Ram.write32_at 1 (by decide)).symm
      simp only [List.forall_mem_cons, List.not_mem_nil, false_imp_iff, implies_true, and_true]
      exact ⟨(h2 (by bv_omega)).symm, (h3 (by bv_omega)).symm⟩
    · refine (writes_last [(e.phys a, v.extractLsb' 0 8), (e.phys (a + 1), v.extractLsb' 8 8)] ?_).trans
        (Ram.write32_at 2 (by decide)).symm
      simp only [List.forall_mem_cons, List.not_mem_nil, false_imp_iff, implies_true, and_true]
      exact (h3 (by bv_omega)).symm
    · exact (writes_last [(e.phys a, v.extractLsb' 0 8), (e.phys (a + 1), v.extractLsb' 8 8),
        (e.phys (a + 2), v.extractLsb' 16 8)] (by simp)).trans (Ram.write32_at 3 (by decide)).symm
  · rw [Ram.write32_far (by omega)]
    apply writes_of_notMem
    simp only [List.forall_mem_cons, List.not_mem_nil, false_imp_iff, implies_true, and_true]
    exact ⟨(h0 (by bv_omega)).symm, (h1 (by bv_omega)).symm, (h2 (by bv_omega)).symm, (h3 (by bv_omega)).symm⟩

theorem store32_off {a v x : Word} (ha : (a - (esp - 28)).toNat + 4 ≤ 28) (hx : ∀ k < 28, x ≠ e.stackPlace esp k) :
    e.store32 m a v x = m x := by
  have hne : ∀ z : Word, (z - (esp - 28)).toNat < 28 → e.phys z ≠ x := by
    intro z hz he
    rw [e.phys_stack esp z] at he
    exact hx _ hz he.symm
  apply writes_of_notMem
  simp only [List.forall_mem_cons, List.not_mem_nil, false_imp_iff, implies_true, and_true]
  exact ⟨hne _ (by omega), hne _ (by bv_omega), hne _ (by bv_omega), hne _ (by bv_omega)⟩

/-! ## The copies -/

/-- A write that leaves the stack and the image as they are. -/
def Env.Calm (e : Env) (m : Ram) (len : Nat) (esp : Word) (w : Word × BitVec 8) : Prop :=
  (∀ k < 28, w.1 ≠ e.stackPlace esp k) ∧ ∀ l < len, w.1 = e.filePlace l → w.2 = m w.1

/-- From the memory `m`, the writes `ws` have been made and the words `st` are on the stack. -/
structure Env.Reached (e : Env) (m : Ram) (len : Nat) (esp : Word) (ws : List (Word × BitVec 8)) (st : List Word)
    (s : Machine) : Prop where
  calm : ∀ w ∈ ws, e.Calm m len esp w
  mem : ∀ x, (∀ k < 28, x ≠ e.stackPlace esp k) → s.mem x = writes ws m x
  depth : s.esp = esp - BitVec.ofNat 32 (4 * st.length)
  stack : Words (e.view s.mem) s.esp st

variable {ws : List (Word × BitVec 8)} {st : List Word} {s : Machine}

theorem Env.Reached.room (h : e.Reached m len esp ws st s) (hl : st.length ≤ 7) :
    (s.esp - (esp - 28)).toNat = 28 - 4 * st.length := by
  have hk := bytes_toNat (n := st.length) (by omega)
  have hd : s.esp - (esp - 28) = 28 - BitVec.ofNat 32 (4 * st.length) := by
    rw [h.depth]
    grind
  rw [hd]
  bv_omega

@[simp] theorem push_ebx (s : Machine) (w : Word) : (e.push s w).ebx = s.ebx := rfl
@[simp] theorem push_ecx (s : Machine) (w : Word) : (e.push s w).ecx = s.ecx := rfl
@[simp] theorem push_edx (s : Machine) (w : Word) : (e.push s w).edx = s.edx := rfl
@[simp] theorem push_ebp (s : Machine) (w : Word) : (e.push s w).ebp = s.ebp := rfl

theorem Env.Reached.push (ha : e.Apart m len esp) (h : e.Reached m len esp ws st s) (hl : st.length < 7) (w : Word) :
    e.Reached m len esp ws (w :: st) (e.push s w) := by
  have hroom := h.room (by omega)
  refine ⟨h.calm, ?_, ?_, ?_⟩
  · intro x hx
    rw [← h.mem x hx]
    exact store32_off (by bv_omega) hx
  · have hesp : (e.push s w).esp = s.esp - 4 := rfl
    rw [hesp, h.depth, List.length_cons, bytes_succ]
    grind
  · refine (h.stack.cons (by omega) w).congr (by rw [List.length_cons]; omega) ?_
    rw [List.length_cons]
    intro x hx
    exact store32_view ha (by bv_omega) (by bv_omega)

theorem Env.Reached.top {w : Word} (h : e.Reached m len esp ws (w :: st) s) : e.load32 s s.esp = w := h.stack.1

theorem Env.Reached.pop {w : Word} (h : e.Reached m len esp ws (w :: st) s) :
    e.Reached m len esp ws st { s with esp := s.esp + 4 } := by
  refine ⟨h.calm, h.mem, ?_, h.stack.2⟩
  have hd := h.depth
  rw [List.length_cons, bytes_succ] at hd
  rw [hd]
  grind

/-- Other registers may change. -/
theorem Env.Reached.keep {t : Machine} (h : e.Reached m len esp ws st s) (hmem : t.mem = s.mem) (hesp : t.esp = s.esp) :
    e.Reached m len esp ws st t := by
  refine ⟨h.calm, ?_, ?_, ?_⟩
  · rw [hmem]
    exact h.mem
  · rw [hesp]
    exact h.depth
  · rw [hmem, hesp]
    exact h.stack

/-- The image stays. -/
theorem Env.Reached.image (ha : e.Apart m len esp) (h : e.Reached m len esp ws st s) {l : Nat} (hl : l < len) :
    s.mem (e.filePlace l) = m (e.filePlace l) := by
  rw [h.mem _ fun k hk => (ha.stackImage k hk l hl).symm]
  apply writes_same
  intro w hw hwl
  rw [(h.calm w hw).2 l hl hwl, hwl]

theorem Env.Reached.read32 (ha : e.Apart m len esp) (h : e.Reached m len esp ws st s) {l c : Nat} (hl : l + c + 4 ≤ len) :
    (e.view s.mem).read32 (kernelBinBaseAddr + BitVec.ofNat 32 l + BitVec.ofNat 32 c) =
      (e.view m).read32 (kernelBinBaseAddr + BitVec.ofNat 32 l + BitVec.ofNat 32 c) := by
  apply Ram.read32_eq
  intro i hi
  have hplace : kernelBinBaseAddr + BitVec.ofNat 32 l + BitVec.ofNat 32 c + i =
      kernelBinBaseAddr + BitVec.ofNat 32 (l + c + i.toNat) := by
    rw [BitVec.ofNat_add, BitVec.ofNat_add, BitVec.ofNat_toNat, BitVec.setWidth_eq]
    grind
  rw [hplace]
  exact h.image ha (by omega)

theorem Env.Reached.read16 (ha : e.Apart m len esp) (h : e.Reached m len esp ws st s) {l : Nat} (hl : l + 2 ≤ len) :
    (e.view s.mem).read16 (kernelBinBaseAddr + BitVec.ofNat 32 l) =
      (e.view m).read16 (kernelBinBaseAddr + BitVec.ofNat 32 l) := by
  have h1 : e.view s.mem (kernelBinBaseAddr + BitVec.ofNat 32 (l + 1)) =
      e.view m (kernelBinBaseAddr + BitVec.ofNat 32 (l + 1)) := h.image ha (by omega)
  rw [BitVec.ofNat_add, ← BitVec.add_assoc] at h1
  exact congrArg₂ (· ++ ·) h1 (h.image ha (by omega))

theorem repMovsb_frame (n : Nat) (s : Machine) : (e.repMovsb n s).esp = s.esp ∧ (e.repMovsb n s).ebp = s.ebp ∧
    (e.repMovsb n s).ebx = s.ebx ∧ (e.repMovsb n s).edx = s.edx := by
  induction n generalizing s with
  | zero => exact ⟨rfl, rfl, rfl, rfl⟩
  | succ n ih => exact ih _

/-- One byte. -/
theorem Env.Reached.movsb (h : e.Reached m len esp ws st s) (hl : st.length ≤ 7) {w : Word × BitVec 8}
    (hw : e.Calm m len esp w) (hplace : e.phys s.edi = w.1) (hbyte : s.mem (e.phys s.esi) = w.2) :
    e.Reached m len esp (ws ++ [w]) st { s with
      mem := s.mem.write8 (e.phys s.edi) (s.mem (e.phys s.esi)), edi := s.edi + 1, esi := s.esi + 1, ecx := s.ecx - 1 } := by
  have hroom := h.room hl
  refine ⟨?_, ?_, h.depth, ?_⟩
  · intro v hv
    rcases List.mem_append.mp hv with hv | hv
    · exact h.calm v hv
    · rw [List.mem_singleton.mp hv]
      exact hw
  · intro x hx
    rw [hbyte, hplace, writes_append]
    exact writes_congr [w] (h.mem x hx)
  · apply h.stack.congr (by omega)
    intro x hx
    unfold Env.view
    rw [e.phys_stack esp x, hplace]
    exact Ram.write8_far (hw.1 _ (by bv_omega)).symm

/-- The copy of a segment from its byte `k` on. -/
theorem repMovsb_moves (ha : e.Apart m len esp) (hl : st.length ≤ 7) (p : Phdr) (n k : Nat)
    (h : e.Reached m len esp ws st s) (hdi : s.edi = p.pVaddr + BitVec.ofNat 32 k)
    (hsrc : s.esi = kernelBinBaseAddr + BitVec.ofNat 32 (p.pOffset.toNat + k)) (hlen : p.pOffset.toNat + k + n ≤ len)
    (hcalm : ∀ j, k ≤ j → j < k + n → e.Calm m len esp (e.move m (p, j))) :
    e.Reached m len esp (ws ++ (List.range' k n).map fun j => e.move m (p, j)) st (e.repMovsb n s) := by
  induction n generalizing k s ws with
  | zero =>
    rw [List.range'_zero, List.map_nil, List.append_nil]
    exact h
  | succ n ih =>
    have h1 := h.movsb hl (hcalm k (Nat.le_refl k) (by omega)) (congrArg e.phys hdi) (by
      rw [hsrc]
      exact h.image ha (by omega))
    have hnext : ∀ a : Nat, BitVec.ofNat 32 (a + 1) = BitVec.ofNat 32 a + 1 := fun a => BitVec.ofNat_add ..
    have hr := ih (k + 1) h1
      (by rw [hnext, ← BitVec.add_assoc, ← hdi])
      (by rw [← Nat.add_assoc, hnext, ← BitVec.add_assoc, ← hsrc])
      (by omega) (fun j hj hjn => hcalm j (by omega) (by omega))
    rw [List.append_assoc, List.singleton_append] at hr
    rw [List.range'_succ, List.map_cons]
    exact hr

/-- `mem_cpy` with its arguments on the stack. -/
theorem memCpy_copies (ha : e.Apart m len esp) {p : Phdr}
    (h : e.Reached m len esp ws [p.pVaddr, p.pOffset + kernelBinBaseAddr, p.pFilesz, e.back] s)
    (hlen : p.pOffset.toNat + p.pFilesz.toNat ≤ len) (hcalm : ∀ k < p.pFilesz.toNat, e.Calm m len esp (e.move m (p, k))) :
    ∃ t, e.memCpy s = some t ∧
      e.Reached m len esp (ws ++ p.moves.map (e.move m)) [p.pVaddr, p.pOffset + kernelBinBaseAddr, p.pFilesz, e.back] t ∧
      t.ebx = s.ebx ∧ t.edx = s.edx ∧ t.ecx = s.ecx := by
  have h1 := h.push ha (by simp) e.memCpyBack
  have h2 := h1.push ha (by simp) s.ebp
  obtain ⟨s2, hs2⟩ : ∃ s2, s2 = e.push (e.push s e.memCpyBack) s.ebp := ⟨_, rfl⟩
  rw [← hs2] at h2
  have h3 := (h2.keep (t := { s2 with ebp := s2.esp }) rfl rfl).push ha (by simp) s2.ecx
  obtain ⟨s3, hs3⟩ : ∃ s3, s3 = e.push { s2 with ebp := s2.esp } s2.ecx := ⟨_, rfl⟩
  rw [← hs3] at h3
  -- the arguments, from the frame pointer upward
  have hbp : s3.ebp = s3.esp + 4 := by
    rw [hs3]
    exact (BitVec.sub_add_cancel s2.esp 4).symm
  have hframe := h3.stack.2
  rw [← hbp] at hframe
  have hdi : (e.view s3.mem).read32 (s3.ebp + 8) = p.pVaddr := hframe.get [s.ebp, e.memCpyBack]
  have hsi : (e.view s3.mem).read32 (s3.ebp + 12) = p.pOffset + kernelBinBaseAddr := hframe.get [s.ebp, e.memCpyBack, p.pVaddr]
  have hcx : (e.view s3.mem).read32 (s3.ebp + 16) = p.pFilesz :=
    hframe.get [s.ebp, e.memCpyBack, p.pVaddr, p.pOffset + kernelBinBaseAddr]
  obtain ⟨s4, hs4⟩ : ∃ s4, s4 = { s3 with edi := p.pVaddr, esi := p.pOffset + kernelBinBaseAddr, ecx := p.pFilesz } :=
    ⟨_, rfl⟩
  have h4 := h3.keep (t := s4) (by rw [hs4]) (by rw [hs4])
  have h5 := repMovsb_moves ha (by simp) p p.pFilesz.toNat 0 h4 (by rw [hs4]; exact (BitVec.add_zero _).symm)
    (by rw [hs4, Nat.add_zero, BitVec.ofNat_toNat, BitVec.setWidth_eq, BitVec.add_comm]) (by omega)
    (fun j _ hj => hcalm j (by omega))
  obtain ⟨-, -, hbx, hdx⟩ := repMovsb_frame (e := e) p.pFilesz.toNat s4
  obtain ⟨s5, hs5⟩ : ∃ s5, s5 = e.repMovsb p.pFilesz.toNat s4 := ⟨_, rfl⟩
  rw [← hs5] at h5 hbx hdx
  have h6 := h5.pop
  have h7 := h6.pop
  have hcode : e.memCpy s = if e.load32 s5 (s5.esp + 4 + 4) = e.memCpyBack
      then some { s5 with ecx := e.load32 s5 s5.esp, ebp := e.load32 s5 (s5.esp + 4), esp := s5.esp + 4 + 4 + 4 } else none := by
    unfold Env.memCpy Env.load32
    simp only [push_ebp, ← hs2, ← hs3, hdi, hsi, hcx, ← hs4, ← hs5]
  refine ⟨_, hcode.trans (if_pos h7.top), ?_, hbx.trans ?_, hdx.trans ?_, ?_⟩
  · have h8 := h7.pop
    rw [← List.range_eq_range'] at h8
    unfold Phdr.moves
    rw [List.map_map]
    exact h8.keep rfl rfl
  · rw [hs4, hs3, push_ebx, hs2, push_ebx, push_ebx]
  · rw [hs4, hs3, push_edx, hs2, push_edx, push_edx]
  · have hecx : e.load32 s5 s5.esp = s2.ecx := h5.top
    rw [hs2] at hecx
    exact hecx

/-! ## The loop -/

/-- The moves of the first `i` headers. -/
def Env.movesTo (e : Env) (m : Ram) (i : Nat) : List (Phdr × Nat) :=
  (((List.range i).map (e.phdr m)).filter fun p => p.Copied).flatMap Phdr.moves

theorem movesTo_succ (m : Ram) (i : Nat) :
    e.movesTo m (i + 1) = e.movesTo m i ++ if (e.phdr m i).Copied then (e.phdr m i).moves else [] := by
  unfold Env.movesTo
  rw [List.range_succ, List.map_append, List.filter_append, List.flatMap_append]
  by_cases hc : (e.phdr m i).Copied <;> simp [hc]

theorem mem_phdrs {p : Phdr} : p ∈ e.phdrs m ↔ ∃ i < e.ePhnum m, e.phdr m i = p := by
  unfold Env.phdrs
  simp only [List.mem_map, List.mem_range]

theorem Phdr.Copied.not_null {p : Phdr} (hc : p.Copied) : p.pType ≠ ptNull := by
  intro he
  exact hc (congrArg (BitVec.setWidth 8) he)

/-- What is moved into place leaves the stack and the image alone. -/
theorem Env.Image.calm (hi : e.Image m len) (ha : e.Apart m len esp) (hs : e.Spares m len esp) {p : Phdr} (hp : p ∈ e.phdrs m)
    (hc : p.Copied) {k : Nat} (hk : k < p.pFilesz.toNat) : e.Calm m len esp (e.move m (p, k)) := by
  by_cases hl : p.pType = ptLoad
  · have hk' := Nat.lt_of_lt_of_le hk (hi.sizes p hp hl)
    refine ⟨ha.stack p hp hl k hk', ?_⟩
    intro l hlen he
    exact absurd he (ha.image p hp hl k hk' l hlen)
  · obtain ⟨hstack, himage⟩ := hs p hp hc hl k hk
    refine ⟨hstack, ?_⟩
    intro l hlen he
    refine (himage l hlen he).trans ?_
    rw [he]

/-- Before the visit of header `i`. -/
structure Env.AtHeader (e : Env) (m : Ram) (len : Nat) (esp : Word) (i : Nat) (s : Machine) : Prop where
  reached : e.Reached m len esp ((e.movesTo m i).map (e.move m)) [e.back] s
  ebx : s.ebx = kernelBinBaseAddr + BitVec.ofNat 32 (e.phdrOffset m i)
  edx : s.edx = BitVec.ofNat 32 (e.ePhentsize m)

theorem Env.Image.phdr_room (hi : e.Image m len) {i : Nat} (hn : i < e.ePhnum m) : e.phdrOffset m i + 32 ≤ len := by
  have hmul : (i + 1) * e.ePhentsize m ≤ e.ePhnum m * e.ePhentsize m := Nat.mul_le_mul_right _ hn
  have hent := hi.entsize
  have htab := hi.table
  unfold Env.phdrOffset
  rw [Nat.add_mul] at hmul
  omega

theorem read32_low (m : Ram) (a : Word) : (m.read32 a).setWidth 8 = m a := by
  unfold Ram.read32
  apply BitVec.eq_of_getLsbD_eq
  intro i hi
  simp only [BitVec.getLsbD_setWidth, BitVec.getLsbD_append, hi]
  simp

theorem eachSegment_step (hi : e.Image m len) (ha : e.Apart m len esp) (hs : e.Spares m len esp) {i : Nat}
    (hn : i < e.ePhnum m) (h : e.AtHeader m len esp i s) :
    ∃ t, e.eachSegment s = some t ∧ e.AtHeader m len esp (i + 1) t ∧ t.ecx = s.ecx := by
  have hroom := hi.phdr_room hn
  have hp : e.phdr m i ∈ e.phdrs m := mem_phdrs.mpr ⟨i, hn, rfl⟩
  have hnext : s.ebx + s.edx = kernelBinBaseAddr + BitVec.ofNat 32 (e.phdrOffset m (i + 1)) := by
    have ho : e.phdrOffset m (i + 1) = e.phdrOffset m i + e.ePhentsize m := by
      unfold Env.phdrOffset
      rw [Nat.add_mul]
      omega
    rw [h.ebx, h.edx, ho, BitVec.ofNat_add, BitVec.add_assoc]
  have hlow : e.view s.mem (s.ebx + 0) = (e.phdr m i).pType.setWidth 8 := by
    rw [h.ebx, show ∀ x : Word, x + 0 = x from BitVec.add_zero]
    exact (h.reached.image ha (by omega)).trans (read32_low (e.view m) _).symm
  have hmoves := movesTo_succ (e := e) m i
  by_cases hc : (e.phdr m i).Copied
  · rw [if_pos hc] at hmoves
    have hread : ∀ {ws st t x}, e.Reached m len esp ws st t → x = s.ebx → ∀ c : Nat, c + 4 ≤ 32 →
        e.load32 t (x + BitVec.ofNat 32 c) =
          (e.view m).read32 (kernelBinBaseAddr + BitVec.ofNat 32 (e.phdrOffset m i) + BitVec.ofNat 32 c) := by
      intro ws st t x ht hx c hc
      unfold Env.load32
      rw [hx, h.ebx]
      exact ht.read32 ha (by omega)
    -- the arguments of mem_cpy
    have hsz : e.load32 s (s.ebx + 16) = (e.phdr m i).pFilesz := hread h.reached rfl 16 (by omega)
    obtain ⟨s1, hs1⟩ : ∃ s1, s1 = e.push s (e.phdr m i).pFilesz := ⟨_, rfl⟩
    have h1 : e.Reached m len esp _ _ s1 := hs1 ▸ h.reached.push ha (by simp) (e.phdr m i).pFilesz
    have hbx1 : s1.ebx = s.ebx := by rw [hs1, push_ebx]
    have hoff : e.load32 s1 (s1.ebx + 4) = (e.phdr m i).pOffset := hread h1 hbx1 4 (by omega)
    obtain ⟨s2, hs2⟩ : ∃ s2, s2 = e.push { s1 with eax := (e.phdr m i).pOffset + kernelBinBaseAddr }
        ((e.phdr m i).pOffset + kernelBinBaseAddr) := ⟨_, rfl⟩
    have h2 : e.Reached m len esp _ _ s2 := hs2 ▸ (h1.keep (t := { s1 with eax := (e.phdr m i).pOffset + kernelBinBaseAddr })
      rfl rfl).push ha (by simp) ((e.phdr m i).pOffset + kernelBinBaseAddr)
    have hbx2 : s2.ebx = s.ebx := by rw [hs2, push_ebx, hbx1]
    have hva : e.load32 s2 (s2.ebx + 8) = (e.phdr m i).pVaddr := hread h2 hbx2 8 (by omega)
    obtain ⟨s3, hs3⟩ : ∃ s3, s3 = e.push s2 (e.phdr m i).pVaddr := ⟨_, rfl⟩
    have h3 : e.Reached m len esp _ _ s3 := hs3 ▸ h2.push ha (by simp) (e.phdr m i).pVaddr
    have hbx3 : s3.ebx = s.ebx := by rw [hs3, push_ebx, hbx2]
    have hdx3 : s3.edx = s.edx := by rw [hs3, push_edx, hs2, push_edx, hs1, push_edx]
    have hcx3 : s3.ecx = s.ecx := by rw [hs3, push_ecx, hs2, push_ecx, hs1, push_ecx]
    have hcode : e.eachSegment s =
        (e.memCpy s3).map fun s => { s with esp := s.esp + 12, ebx := s.ebx + s.edx } := by
      have hne : ¬ e.view s.mem (s.ebx + 0) = ptNull.setWidth 8 := by
        rw [hlow]
        exact hc
      unfold Env.eachSegment
      simp only [if_neg hne, hsz, ← hs1, hoff, ← hs2, hva, ← hs3]
    obtain ⟨t, ht, hreach, hbx, hdx, hcx⟩ := memCpy_copies ha h3 (hi.segments _ hp hc.not_null)
      fun k hk => hi.calm ha hs hp hc hk
    rw [hcode, ht]
    refine ⟨_, rfl, ⟨?_, ?_, ?_⟩, hcx.trans hcx3⟩
    · rw [hmoves, List.map_append]
      have h12 : t.esp + 12 = t.esp + 4 + 4 + 4 := by grind
      exact hreach.pop.pop.pop.keep rfl h12
    · rw [← hnext, ← hbx3, ← hdx3, ← hbx, ← hdx]
    · exact (hdx.trans hdx3).trans h.edx
  · rw [if_neg hc, List.append_nil] at hmoves
    refine ⟨{ s with ebx := s.ebx + s.edx }, ?_, ⟨?_, hnext, h.edx⟩, rfl⟩
    · unfold Env.eachSegment
      rw [hlow]
      exact if_pos (Decidable.not_not.mp hc)
    · rw [hmoves]
      exact h.reached.keep rfl rfl

theorem segments_run (hi : e.Image m len) (ha : e.Apart m len esp) (hs : e.Spares m len esp) (d : Nat) {i : Nat}
    (hd : i + (d + 1) = e.ePhnum m) (h : e.AtHeader m len esp i s) (hcx : s.ecx = BitVec.ofNat 32 (d + 1)) :
    ∃ t, e.segments (d + 1) s = some (t, d + 1) ∧ e.AtHeader m len esp (e.ePhnum m) t := by
  have hnum : e.ePhnum m < 2 ^ 16 := BitVec.isLt _
  induction d generalizing i s with
  | zero =>
    obtain ⟨t, ht, hat, hcx'⟩ := eachSegment_step hi ha hs (by omega) h
    have hzero : t.ecx - 1 = 0 := by
      rw [hcx', hcx]
      rfl
    refine ⟨{ t with ecx := t.ecx - 1 }, ?_, ?_⟩
    · unfold Env.segments
      rw [ht]
      exact if_pos hzero
    · rw [← hd]
      exact ⟨hat.reached.keep rfl rfl, hat.ebx, hat.edx⟩
  | succ d ih =>
    obtain ⟨t, ht, hat, hcx'⟩ := eachSegment_step hi ha hs (by omega) h
    have hcount : t.ecx - 1 = BitVec.ofNat 32 (d + 1) := by
      rw [hcx', hcx, BitVec.ofNat_add (x := d + 1)]
      exact BitVec.add_sub_cancel _ _
    have hne : t.ecx - 1 ≠ 0 := by
      rw [hcount]
      bv_omega
    obtain ⟨u, hu, hend⟩ := ih (s := { t with ecx := t.ecx - 1 }) (i := i + 1) (by omega)
      ⟨hat.reached.keep rfl rfl, hat.ebx, hat.edx⟩ hcount
    refine ⟨u, ?_, hend⟩
    unfold Env.segments
    rw [ht]
    refine (if_neg hne).trans ?_
    rw [hu]
    rfl

theorem readHeader_at (hi : e.Image m len) (ha : e.Apart m len esp) (h : e.Reached m len esp [] [e.back] s) :
    e.AtHeader m len esp 0 (e.readHeader s) ∧ (e.readHeader s).ecx = BitVec.ofNat 32 (e.ePhnum m) := by
  have hlen := hi.header
  have hent : (e.view s.mem).read16 (kernelBinBaseAddr + 42) = (e.view m).read16 (kernelBinBaseAddr + 42) :=
    h.read16 ha (l := 42) (by omega)
  have hnum : (e.view s.mem).read16 (kernelBinBaseAddr + 44) = (e.view m).read16 (kernelBinBaseAddr + 44) :=
    h.read16 ha (l := 44) (by omega)
  have hoff : (e.view s.mem).read32 (kernelBinBaseAddr + 28) = (e.view m).read32 (kernelBinBaseAddr + 28) :=
    h.read32 ha (l := 28) (c := 0) (by omega)
  have hcode : e.readHeader s = { s with
      eax := 0
      ebx := (e.view m).read32 (kernelBinBaseAddr + 28) + kernelBinBaseAddr
      ecx := ((e.view m).read16 (kernelBinBaseAddr + 44)).setWidth 32
      edx := ((e.view m).read16 (kernelBinBaseAddr + 42)).setWidth 32 } := by
    unfold Env.readHeader Env.load32
    simp only [hent, hnum, hoff]
  rw [hcode]
  refine ⟨⟨h.keep rfl rfl, ?_, ?_⟩, ?_⟩
  · have ho : e.phdrOffset m 0 = ((e.view m).read32 (kernelBinBaseAddr + 28)).toNat := by
      unfold Env.phdrOffset Env.ePhoff
      omega
    rw [ho, BitVec.ofNat_toNat, BitVec.setWidth_eq, BitVec.add_comm]
  · exact (BitVec.ofNat_toNat 32 ((e.view m).read16 (kernelBinBaseAddr + 42))).symm
  · exact (BitVec.ofNat_toNat 32 ((e.view m).read16 (kernelBinBaseAddr + 44))).symm

/-- The whole of `kernel_init`, when there is a header. -/
theorem kernelInit_run (hi : e.Image s.mem len) (ha : e.Apart s.mem len s.esp) (hs : e.Spares s.mem len s.esp)
    (hn : e.ePhnum s.mem ≠ 0) : ∃ t, e.kernelInit (e.ePhnum s.mem) s = some (t, e.ePhnum s.mem) ∧
      ∀ x, (∀ k < 28, x ≠ e.stackPlace s.esp k) → t.mem x = writes ((e.moves s.mem).map (e.move s.mem)) s.mem x := by
  have h0 : e.Reached s.mem len s.esp [] [] s := by
    refine ⟨?_, fun _ _ => rfl, (BitVec.sub_zero s.esp).symm, trivial⟩
    intro w hw
    cases hw
  obtain ⟨hat, hcx⟩ := readHeader_at hi ha (h0.push ha (by simp) e.back)
  have hcount : e.ePhnum s.mem = e.ePhnum s.mem - 1 + 1 := by omega
  rw [hcount] at hcx
  obtain ⟨t, ht, hend⟩ := segments_run hi ha hs (e.ePhnum s.mem - 1) (by omega) hat hcx
  rw [← hcount] at ht
  refine ⟨{ t with esp := t.esp + 4 }, ?_, hend.reached.mem⟩
  unfold Env.kernelInit
  rw [ht]
  exact if_pos hend.reached.top

/-! ## When the kernel is loaded -/

theorem segments_fuel {fuel : Nat} {r : Machine × Nat} (h : e.segments fuel s = some r) (d : Nat) :
    e.segments (fuel + d) s = some r := by
  induction fuel generalizing s r with
  | zero => cases h
  | succ fuel ih =>
    rw [Nat.add_right_comm]
    obtain ⟨t, ht, hr⟩ := Option.bind_eq_some_iff.mp h
    refine Option.bind_eq_some_iff.mpr ⟨t, ht, ?_⟩
    by_cases hz : t.ecx - 1 = 0
    · exact (if_pos hz).trans ((if_pos hz).symm.trans hr)
    · obtain ⟨u, hu, hru⟩ := Option.map_eq_some_iff.mp ((if_neg hz).symm.trans hr)
      refine (if_neg hz).trans ?_
      rw [ih hu, ← hru]
      rfl

/-- The loop's test comes after its body. -/
theorem segments_visits {fuel : Nat} {r : Machine × Nat} (h : e.segments fuel s = some r) : r.2 ≠ 0 := by
  cases fuel with
  | zero => cases h
  | succ fuel =>
    obtain ⟨t, -, hr⟩ := Option.bind_eq_some_iff.mp h
    by_cases hz : t.ecx - 1 = 0
    · rw [← Option.some.inj ((if_pos hz).symm.trans hr)]
      exact Nat.one_ne_zero
    · obtain ⟨u, -, hru⟩ := Option.map_eq_some_iff.mp ((if_neg hz).symm.trans hr)
      rw [← hru]
      exact Nat.succ_ne_zero _

theorem kernelInit_segments {fuel : Nat} {r : Machine × Nat} (h : e.kernelInit fuel s = some r) :
    r.2 ≠ 0 ∧ ∀ d, e.kernelInit (fuel + d) s = some r := by
  unfold Env.kernelInit at h ⊢
  obtain ⟨u, hu, hr⟩ := Option.bind_eq_some_iff.mp h
  constructor
  · by_cases hret : e.load32 u.1 u.1.esp = e.back
    · have hvisits : u.2 ≠ 0 := segments_visits hu
      rw [← Option.some.inj ((if_pos hret).symm.trans hr)]
      exact hvisits
    · cases (if_neg hret).symm.trans hr
  · intro d
    exact Option.bind_eq_some_iff.mpr ⟨u, segments_fuel hu d, hr⟩

theorem mem_moves {w : Phdr × Nat} : w ∈ e.moves m ↔ w.1 ∈ e.phdrs m ∧ w.1.Copied ∧ w.2 < w.1.pFilesz.toNat := by
  unfold Env.moves Phdr.moves
  simp only [List.mem_flatMap, List.mem_filter, List.mem_map, List.mem_range, decide_eq_true_eq]
  constructor
  · rintro ⟨p, ⟨hp, hc⟩, k, hk, rfl⟩
    exact ⟨hp, hc, hk⟩
  · rintro ⟨hp, hc, hk⟩
    exact ⟨w.1, ⟨hp, hc⟩, w.2, hk, rfl⟩

theorem Env.Apart.unique (ha : e.Apart m len esp) {p q : Phdr} (hp : p ∈ e.phdrs m) (hq : q ∈ e.phdrs m)
    (hpl : p.pType = ptLoad) (hql : q.pType = ptLoad) {k l : Nat} (hk : k < p.pMemsz.toNat) (hl : l < q.pMemsz.toNat)
    (h : e.target p k = e.target q l) : p = q ∧ k = l := by
  obtain ⟨i, hi, rfl⟩ := mem_phdrs.mp hp
  obtain ⟨j, hj, rfl⟩ := mem_phdrs.mp hq
  obtain ⟨rfl, hkl⟩ := ha.segments i j hi hj hpl hql k l hk hl h
  exact ⟨rfl, hkl⟩

/-- A segment that is loaded is copied. -/
theorem copied_of_load {p : Phdr} (h : p.pType = ptLoad) : p.Copied := by
  unfold Phdr.Copied
  rw [h]
  decide

theorem Env.Loads.when (h : e.Loads s) (hi : e.Image s.mem len) (ha : e.Apart s.mem len s.esp)
    (hs : e.Spares s.mem len s.esp) : e.LoadsWhen s.mem := by
  obtain ⟨fuel, t, ht, hfin⟩ := h
  obtain ⟨hn, hmore⟩ := kernelInit_segments ht
  obtain ⟨u, hu, hmem⟩ := kernelInit_run hi ha hs hn
  have htu : t = u := by
    have h1 := hmore (e.ePhnum s.mem)
    rw [Nat.add_comm, (kernelInit_segments hu).2 fuel] at h1
    exact (congrArg Prod.fst (Option.some.inj h1)).symm
  rw [← htu] at hmem
  refine ⟨hn, ?_, ?_⟩
  · intro p hp hl k hk hf hno
    have hoff := ha.stack p hp hl k hk
    have hzero := (hfin _ hoff).zero p hp hl k hk hf rfl
    rw [hmem _ hoff, writes_of_notMem] at hzero
    · exact hzero
    · intro w hw
      obtain ⟨v, hv, rfl⟩ := List.mem_map.mp hw
      exact hno v hv
  · intro us w vs hus _ hlast
    have hw : w ∈ e.moves s.mem := by
      rw [hus]
      exact List.mem_append_right us List.mem_cons_self
    obtain ⟨hp, hc, hk⟩ := mem_moves.mp hw
    have hoff := (hi.calm ha hs hp hc hk).1
    have hpre := hfin _ hoff
    rw [hmem _ hoff, hus, List.map_append, List.map_cons] at hpre
    have hval : writes (us.map (e.move s.mem) ++ e.move s.mem w :: vs.map (e.move s.mem)) s.mem (e.move s.mem w).1 =
        (e.move s.mem w).2 := by
      apply writes_last _
      intro v hv
      obtain ⟨v', hv', rfl⟩ := List.mem_map.mp hv
      exact hlast v' hv'
    rw [← hval]
    exact hpre

/-- A byte of a loadable segment is as prescribed once it has been moved. -/
theorem prescribed_of_load (hi : e.Image m len) (ha : e.Apart m len esp) {w : Phdr × Nat} (hw : w ∈ e.moves m)
    (hl : w.1.pType = ptLoad) : e.Prescribed m (e.target w.1 w.2) (e.move m w).2 := by
  obtain ⟨hp, -, hk⟩ := mem_moves.mp hw
  have hk' := Nat.lt_of_lt_of_le hk (hi.sizes _ hp hl)
  refine ⟨?_, ?_, ?_⟩
  · intro q hq hql j hj he
    obtain ⟨hpq, hkj⟩ := ha.unique hp hq hl hql hk' (Nat.lt_of_lt_of_le hj (hi.sizes q hq hql)) he
    rw [← hpq, ← hkj]
    rfl
  · intro q hq hql j hj hfj he
    obtain ⟨hpq, hkj⟩ := ha.unique hp hq hl hql hk' hj he
    rw [← hpq, ← hkj] at hfj
    omega
  · intro hno
    exact absurd rfl (hno w.1 hp hl w.2 hk')

theorem Env.LoadsWhen.loads (h : e.LoadsWhen s.mem) (hi : e.Image s.mem len) (ha : e.Apart s.mem len s.esp)
    (hs : e.Spares s.mem len s.esp) : e.Loads s := by
  obtain ⟨t, ht, hmem⟩ := kernelInit_run hi ha hs h.counted
  refine ⟨e.ePhnum s.mem, t, ht, ?_⟩
  intro x hx
  rw [hmem x hx]
  rcases last_write ((e.moves s.mem).map (e.move s.mem)) x with hno | ⟨us, v, vs, hus, hv, hvs⟩
  · rw [writes_of_notMem hno]
    refine ⟨?_, ?_, fun _ => rfl⟩
    · intro p hp hl k hk he
      have hw : (p, k) ∈ e.moves s.mem := mem_moves.mpr ⟨hp, copied_of_load hl, hk⟩
      exact absurd he.symm (hno (e.move s.mem (p, k)) (List.mem_map_of_mem hw))
    · intro p hp hl k hk hf he
      rw [he]
      apply h.zeroed p hp hl k hk hf
      intro w hw hwk
      exact hno _ (List.mem_map_of_mem hw) (hwk.trans he.symm)
  · have hlast : writes ((e.moves s.mem).map (e.move s.mem)) s.mem x = v.2 := by
      rw [hus, ← hv]
      rw [← hv] at hvs
      exact writes_last us hvs
    rw [hlast, ← hv]
    obtain ⟨us', r, hmoves, rfl, hr⟩ := List.map_eq_append_iff.mp hus
    obtain ⟨w, vs', rfl, rfl, rfl⟩ := List.map_eq_cons_iff.mp hr
    by_cases hl : w.1.pType = ptLoad
    · exact prescribed_of_load hi ha (hmoves ▸ List.mem_append_right us' List.mem_cons_self) hl
    · apply h.others us' w vs' hmoves hl
      intro v hv'
      have hne := hvs _ (List.mem_map_of_mem hv')
      rw [← hv] at hne
      exact hne

theorem kernelInit_loads_iff (hi : e.Image s.mem len) (ha : e.Apart s.mem len s.esp) (hs : e.Spares s.mem len s.esp) :
    e.Loads s ↔ e.LoadsWhen s.mem := by
  constructor
  · intro h
    exact h.when hi ha hs
  · intro h
    exact h.loads hi ha hs

/-- The loader's paging in its two windows on the first megabyte. -/
def bootEnv : Env where
  phys := fun a => a &&& 0x000fffff
  memCpyBack := 0xc0000d60
  back := 0xc0000d20

/-- An image with one segment, of four bytes of code and four bytes of bss, whose first is `b` before. -/
def bootMachine (b : BitVec 8) : Machine where
  eax := 0
  ebx := 0
  ecx := 0
  edx := 0
  ebp := 0
  esi := 0
  edi := 0
  esp := 0xc0000900
  mem := writes [(0x7001c, 52), (0x7002a, 32), (0x7002c, 1), (0x70034, 1), (0x70038, 84), (0x7003d, 0x15), (0x7003f, 0xc0),
    (0x70044, 4), (0x70048, 8), (0x70054, 0xe8), (0x70055, 0xfb), (0x70056, 0xff), (0x70057, 0xff), (0x1504, b)] fun _ => 0

def bootPhdr : Phdr where
  pType := 1
  pOffset := 84
  pVaddr := 0xc0001500
  pFilesz := 4
  pMemsz := 8

theorem bootMachine_header : ∀ b ∈ [0, 0xff], bootEnv.ePhoff (bootMachine b).mem = 52 ∧
    bootEnv.ePhentsize (bootMachine b).mem = 32 ∧ bootEnv.ePhnum (bootMachine b).mem = 1 ∧
    bootEnv.phdr (bootMachine b).mem 0 = bootPhdr := by
  decide +kernel

/-- The range of the segment, the image and the stack by their offsets in memory. -/
theorem bootEnv_places : (∀ k < 8, ∀ l < 8, bootEnv.target bootPhdr k = bootEnv.target bootPhdr l → k = l) ∧
    (∀ k < 8, ∀ l < 88, bootEnv.target bootPhdr k ≠ bootEnv.filePlace l) ∧
    (∀ k < 8, ∀ l < 28, bootEnv.target bootPhdr k ≠ bootEnv.stackPlace 0xc0000900 l) ∧
    (∀ k < 28, ∀ l < 88, bootEnv.stackPlace 0xc0000900 k ≠ bootEnv.filePlace l) ∧
    ∀ k < 28, ∀ l < 28, bootEnv.stackPlace 0xc0000900 k = bootEnv.stackPlace 0xc0000900 l → k = l := by
  refine ⟨?_, ?_, ?_, ?_, ?_⟩
  · decide +kernel
  · decide +kernel
  · decide +kernel
  · decide +kernel
  · decide +kernel

theorem bootMachine_phdrs {b : BitVec 8} (hb : b ∈ [0, 0xff]) {p : Phdr} :
    p ∈ bootEnv.phdrs (bootMachine b).mem ↔ p = bootPhdr := by
  obtain ⟨-, -, hnum, hphdr⟩ := bootMachine_header b hb
  rw [mem_phdrs, hnum]
  constructor
  · rintro ⟨i, hi, rfl⟩
    rw [Nat.lt_one_iff.mp hi, hphdr]
  · rintro rfl
    exact ⟨0, Nat.one_pos, hphdr⟩

theorem bootMachine_valid : ∀ b ∈ [0, 0xff], bootEnv.Image (bootMachine b).mem 88 ∧
    bootEnv.Apart (bootMachine b).mem 88 (bootMachine b).esp ∧ bootEnv.Spares (bootMachine b).mem 88 (bootMachine b).esp := by
  intro b hb
  obtain ⟨hoff, hent, hnum, hphdr⟩ := bootMachine_header b hb
  obtain ⟨htt, hti, hts, hsi, hss⟩ := bootEnv_places
  refine ⟨⟨by decide, ?_, ?_, ?_, ?_⟩, ⟨?_, ?_, ?_, hsi, hss⟩, ?_⟩
  · exact Nat.le_of_eq hent.symm
  · rw [hoff, hent, hnum]
    decide
  · intro p hp _
    rw [(bootMachine_phdrs hb).mp hp]
    decide
  · intro p hp _
    rw [(bootMachine_phdrs hb).mp hp]
    decide
  · intro i j hi hj _ _ k l hk hl he
    rw [hnum] at hi hj
    rw [Nat.lt_one_iff.mp hi, Nat.lt_one_iff.mp hj] at *
    rw [hphdr] at hk hl he
    exact ⟨rfl, htt k hk l hl he⟩
  · intro p hp _ k hk l hl
    rw [(bootMachine_phdrs hb).mp hp] at hk ⊢
    exact hti k hk l hl
  · intro p hp _ k hk l hl
    rw [(bootMachine_phdrs hb).mp hp] at hk ⊢
    exact hts k hk l hl
  · intro p hp _ hne
    rw [(bootMachine_phdrs hb).mp hp] at hne
    exact absurd rfl hne

theorem bootMachine_loads : bootEnv.Loads (bootMachine 0) := by
  have hb : (0 : BitVec 8) ∈ [0, 0xff] := by decide
  obtain ⟨hi, ha, hs⟩ := bootMachine_valid 0 hb
  refine (kernelInit_loads_iff hi ha hs).mpr ⟨?_, ?_, ?_⟩
  · rw [(bootMachine_header 0 hb).2.2.1]
    decide
  · intro p hp _ k hk hf _
    have hbss : ∀ k < 8, 4 ≤ k → (bootMachine 0).mem (bootEnv.target bootPhdr k) = 0 := by decide +kernel
    rw [(bootMachine_phdrs hb).mp hp] at hk hf ⊢
    exact hbss k hk hf
  · intro us w vs hmoves hl _
    have hw : w ∈ bootEnv.moves (bootMachine 0).mem := hmoves ▸ List.mem_append_right us List.mem_cons_self
    rw [(bootMachine_phdrs hb).mp (mem_moves.mp hw).1] at hl
    exact absurd rfl hl

/-- What is in memory where the bss begins stays there. -/
theorem bss_not_cleared : bootEnv.Image (bootMachine 0xff).mem 88 ∧
    bootEnv.Apart (bootMachine 0xff).mem 88 (bootMachine 0xff).esp ∧ ¬ bootEnv.Loads (bootMachine 0xff) := by
  have hb : (0xff : BitVec 8) ∈ [0, 0xff] := by decide
  obtain ⟨hi, ha, hs⟩ := bootMachine_valid 0xff hb
  refine ⟨hi, ha, ?_⟩
  intro h
  have hzero : (bootMachine 0xff).mem (bootEnv.target bootPhdr 4) = 0 := by
    refine (h.when hi ha hs).zeroed bootPhdr ((bootMachine_phdrs hb).mpr rfl) rfl 4 (by decide) (by decide) ?_
    intro w hw he
    obtain ⟨hp, -, hk⟩ := mem_moves.mp hw
    rw [(bootMachine_phdrs hb).mp hp] at hk he
    have hk4 : w.2 < 4 := hk
    have := bootEnv_places.1 w.2 (by omega) 4 (by decide) he
    omega
  revert hzero
  decide +kernel

end TinyOs.Boot
