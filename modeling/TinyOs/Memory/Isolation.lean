/-
  TinyOs.Memory.Isolation — whose frames an address space reaches.

  A frame of the pools is one page of one owner: a page of one process, or a page of
  the kernel, which every directory maps at the same address. `slot` names the table
  that a directory entry stands for: the tables of the kernel are common to all
  directories, entry 0 of the boot directory shares the first of them, and the others
  belong to their directory. What carries the induction (`Sole`) is that no two entries
  name one frame, that no entry of a page names a table, and that only the kernel's
  entries name directories; a page or a table comes from `palloc`, in a frame that was
  named nowhere (`Unnamed`).

  The processor keeps none of this up (`runs_unprotected`): every entry has U/S and R/W
  set, so ring 3 may write whatever is mapped, the tables in their window included.
-/

import TinyOs.Memory.Exhaustion

namespace TinyOs.Memory

open TinyOs.Kernel TinyOs.Lib TinyOs.Logic

/-! ## Entries -/

/-- The table entry of `va`, 0 where there is no table. -/
def pteWord (m : Bytes) (d va : Nat) : Nat := if Present (m.read32 (d + pdeIdx va * 4)) then m.read32 (pteAt m d va) else 0

/-- The table behind entry `j` of directory `d`: whose it is, and the entry that names it there. -/
def slot (d j : Nat) : Option Nat × Nat :=
  if 768 ≤ j then (none, j) else if d = pageDirTablePos ∧ j = 0 then (none, 768) else (some d, j)

/-- Frame `f` is one that a pool has given away. -/
def Held (s : Mem) (f : Nat) : Prop := ∃ pf i, i < s.frames pf ∧ f = (s.pool pf).frame i ∧ s.Taken pf i

structure Sole (s : Mem) (dirs : List Nat) : Prop where
  low : pageDirTablePos ∈ dirs → s.phys.read32 (pageDirTablePos + 0 * 4) = kernelTable 768 ||| pgAttr
  owned : ∀ d ∈ dirs, ∀ j, j < 768 → Present (s.phys.read32 (d + j * 4)) →
    slot d j = (none, 768) ∨ Held s (frameOf (s.phys.read32 (d + j * 4)))
  cross : ∀ d ∈ dirs, ∀ d' ∈ dirs, ∀ j j', j < 768 → j' < 768 → Present (s.phys.read32 (d + j * 4)) →
    Present (s.phys.read32 (d' + j' * 4)) →
    frameOf (s.phys.read32 (d + j * 4)) = frameOf (s.phys.read32 (d' + j' * 4)) → slot d j = slot d' j'
  held : ∀ d ∈ dirs, ∀ va, va < 0xffc00000 → Present (pteWord s.phys d va) →
    Held s (frameOf (pteWord s.phys d va)) ∨ slot d (pdeIdx va) = (none, 768) ∧ frameOf (pteWord s.phys d va) < 0x100000
  sole : ∀ d ∈ dirs, ∀ d' ∈ dirs, ∀ va va', va < 0xffc00000 → va' < 0xffc00000 → Present (pteWord s.phys d va) →
    Present (pteWord s.phys d' va') → usedMem ≤ frameOf (pteWord s.phys d va) →
    frameOf (pteWord s.phys d va) = frameOf (pteWord s.phys d' va') →
    slot d (pdeIdx va) = slot d' (pdeIdx va') ∧ pteIdx va = pteIdx va'
  noTable : ∀ d ∈ dirs, ∀ va, va < 0xffc00000 → Present (pteWord s.phys d va) → ∀ d' ∈ dirs, ∀ j, j < 1023 →
    Present (s.phys.read32 (d' + j * 4)) → frameOf (pteWord s.phys d va) ≠ frameOf (s.phys.read32 (d' + j * 4))
  noDir : ∀ d ∈ dirs, ∀ va, va < 0xffc00000 → Present (pteWord s.phys d va) → frameOf (pteWord s.phys d va) ∈ dirs →
    (slot d (pdeIdx va)).1 = none
  pdeOpen : ∀ d ∈ dirs, ∀ j, j < 768 → Present (s.phys.read32 (d + j * 4)) → s.phys.read32 (d + j * 4) % 8 = pgAttr
  pteOpen : ∀ d ∈ dirs, ∀ va, va < 0xffc00000 → Present (pteWord s.phys d va) → pteWord s.phys d va % 8 = pgAttr

/-- A frame that has been given away, and that no entry names. -/
structure Unnamed (s : Mem) (dirs : List Nat) (f : Nat) : Prop where
  held : Held s f
  notDir : f ∉ dirs
  notTable : ∀ d ∈ dirs, ∀ j, j < 1023 → Present (s.phys.read32 (d + j * 4)) → frameOf (s.phys.read32 (d + j * 4)) ≠ f
  notPage : ∀ d ∈ dirs, ∀ va, va < 0xffc00000 → Present (pteWord s.phys d va) → frameOf (pteWord s.phys d va) ≠ f

variable {s s' : Mem} {dirs : List Nat} {d d' f va vb i j j' n v : Nat} {pf : PoolFlags} {m m' : Bytes}

theorem translate_pteWord (m : Bytes) (d va : Nat) :
    translate m d va = if Present (pteWord m d va) then some (frameOf (pteWord m d va) + va % 2 ^ 12) else none := by
  unfold pteWord
  by_cases hp : Present (m.read32 (d + pdeIdx va * 4))
  · rw [translate_table hp, if_pos hp]
  · rw [translate_absent hp, if_neg hp]
    exact (if_neg (by decide)).symm

theorem pteWord_of_translate {pa : Nat} (h : translate m d va = some pa) :
    Present (pteWord m d va) ∧ frameOf (pteWord m d va) = frameOf pa := by
  rw [translate_pteWord] at h
  split at h
  · next hp =>
    cases h
    refine ⟨hp, ?_⟩
    rw [frameOf_add (frameOf_mod _) (Nat.mod_lt _ (by omega))]
  · cases h

/-- The walk reads the directory entry, and the table's where that is present. -/
theorem pteWord_same (hd : m'.read32 (d + pdeIdx va * 4) = m.read32 (d + pdeIdx va * 4))
    (ht : Present (m.read32 (d + pdeIdx va * 4)) → m'.read32 (pteAt m d va) = m.read32 (pteAt m d va)) :
    pteWord m' d va = pteWord m d va := by
  unfold pteWord
  rw [hd, pteAt_congr hd]
  by_cases hp : Present (m.read32 (d + pdeIdx va * 4))
  · rw [if_pos hp, if_pos hp, ht hp]
  · rw [if_neg hp, if_neg hp]

theorem pteWord_present (h : Present (pteWord m d va)) : Present (m.read32 (d + pdeIdx va * 4)) := by
  by_contra hp
  unfold pteWord at h
  rw [if_neg hp] at h
  exact absurd h (by decide)

theorem or_attr_open {f : Nat} (h : f % 4096 = 0) : (f ||| pgAttr) % 8 = pgAttr := by
  rw [or_attr h]
  unfold pgAttr
  omega

/-! ## Frames of the pools -/

theorem Held.mono (h : Held s f) (hst : Stays s s') : Held s' f := by
  obtain ⟨pf, i, hi, he, ht⟩ := h
  exact ⟨pf, i, by rw [hst.frames]; exact hi, by rw [hst.frame]; exact he, hst.taken ht⟩

theorem Held.aligned (h : Held s f) : f % 4096 = 0 := by
  obtain ⟨pf, i, -, rfl, -⟩ := h
  exact (s.pool pf).frame_aligned i

theorem Held.lt (h : Held s f) : f ||| pgAttr < 2 ^ 32 := by
  obtain ⟨pf, i, hi, rfl, -⟩ := h
  exact or_attr_lt ((s.pool pf).frame_aligned i) ((s.pool pf).frame_lt hi)

/-- The pools lie above the tables. -/
theorem SpaceInv.start (h : SpaceInv s dirs) (hu : usedMem ≤ (s.pool .user).phyAddrStart) (pf : PoolFlags) :
    usedMem ≤ (s.pool pf).phyAddrStart := by
  cases pf with
  | kernel => exact Nat.le_of_eq h.pool.symm
  | user => exact hu

theorem SpaceInv.held_high (h : SpaceInv s dirs) (hu : usedMem ≤ (s.pool .user).phyAddrStart) (hf : Held s f) :
    usedMem ≤ f := by
  obtain ⟨pf, i, -, rfl, -⟩ := hf
  exact Nat.le_trans (h.start hu pf) (Nat.le_add_right _ _)

/-- Two frames of the pools are one only as the same frame of the same pool. -/
theorem Healthy.frame_eq (h : Healthy s dirs) {pf pf' : PoolFlags} {i i' : Nat} (hi : i < s.frames pf) (hi' : i' < s.frames pf')
    (e : (s.pool pf).frame i = (s.pool pf').frame i') : pf = pf' ∧ i = i' := by
  have hk := fun c hc => h.order c hc
  have hpos : ∀ c, (s.pool .user).phyAddrStart ≤ (s.pool .user).frame c := fun c => Nat.le_add_right _ _
  cases pf <;> cases pf'
  · exact ⟨rfl, (s.pool .kernel).frame_inj e⟩
  · have := hk i hi
    have := hpos i'
    unfold pgSize at *
    omega
  · have := hk i' hi'
    have := hpos i
    unfold pgSize at *
    omega
  · exact ⟨rfl, (s.pool .user).frame_inj e⟩

theorem Healthy.held_ne_free (h : Healthy s dirs) (hf : Held s f) (hi : i < s.frames pf) (hfree : ¬ s.Taken pf i) :
    f ≠ (s.pool pf).frame i := by
  obtain ⟨pf', i', hi', rfl, ht⟩ := hf
  intro e
  obtain ⟨rfl, rfl⟩ := h.frame_eq hi' hi e
  exact hfree ht

theorem Healthy.known_ne_free (h : Healthy s dirs) (hk : Known s f) (hfree : ¬ s.Taken pf i) : f ≠ (s.pool pf).frame i := by
  cases pf with
  | kernel => exact hk.ne_free h.pool hfree
  | user =>
    have hb := h.below hk
    have hpos : (s.pool .user).phyAddrStart ≤ (s.pool .user).frame i := Nat.le_add_right _ _
    unfold pgSize at hb
    omega

/-! ## Slots -/

theorem slot_kernel (d : Nat) (h : 768 ≤ j) : slot d j = (none, j) := if_pos h

theorem slot_low (h : slot d j = (none, 768)) (hj : j < 768) : d = pageDirTablePos ∧ j = 0 := by
  unfold slot at h
  rw [if_neg (by omega)] at h
  split at h
  · next e => exact e
  · cases h

/-- Entries of one slot name one table. -/
theorem Sole.shared (h : Sole s dirs) (hi : SpaceInv s dirs) (hd : d ∈ dirs) (hd' : d' ∈ dirs) (hj : j < 1023) (hj' : j' < 1023)
    (e : slot d j = slot d' j') : s.phys.read32 (d + j * 4) = s.phys.read32 (d' + j' * 4) := by
  have hk : ∀ {c k}, c ∈ dirs → k < 1023 → ∀ {l}, slot c k = (none, l) →
      s.phys.read32 (c + k * 4) = kernelTable l ||| pgAttr := by
    intro c k hc hlt l hs
    by_cases hge : 768 ≤ k
    · rw [slot_kernel c hge] at hs
      cases hs
      exact hi.kernel c hc k hge hlt
    · unfold slot at hs
      rw [if_neg hge] at hs
      split at hs
      · next e0 =>
        cases hs
        rw [e0.1, e0.2]
        exact h.low (e0.1 ▸ hc)
      · cases hs
  cases hs : slot d j with
  | mk o l =>
    cases o with
    | none => rw [hk hd hj hs, hk hd' hj' (e ▸ hs)]
    | some c =>
      have hown : ∀ {x k}, slot x k = (some c, l) → x = c ∧ k = l := by
        intro x k hx
        unfold slot at hx
        split at hx
        · cases hx
        · split at hx
          · cases hx
          · cases hx
            exact ⟨rfl, rfl⟩
      obtain ⟨rfl, rfl⟩ := hown hs
      obtain ⟨rfl, rfl⟩ := hown (e ▸ hs)
      rfl

/-- A table has one slot. -/
theorem Sole.slot_eq (h : Sole s dirs) (hi : SpaceInv s dirs) (hu : usedMem ≤ (s.pool .user).phyAddrStart) (hd : d ∈ dirs)
    (hd' : d' ∈ dirs) (hj : j < 1023) (hj' : j' < 1023)
    (hp : Present (s.phys.read32 (d + j * 4))) (hp' : Present (s.phys.read32 (d' + j' * 4)))
    (e : frameOf (s.phys.read32 (d + j * 4)) = frameOf (s.phys.read32 (d' + j' * 4))) : slot d j = slot d' j' := by
  have hk : ∀ {c k}, c ∈ dirs → 768 ≤ k → k < 1023 → frameOf (s.phys.read32 (c + k * 4)) = kernelTable k := by
    intro c k hc h1 h2
    rw [hi.kernel c hc k h1 h2, frameOf_or_attr (kernelTable_aligned k)]
  -- a user table is the first table of the kernel, or lies above all of these
  have hlow : ∀ {c k l}, c ∈ dirs → k < 768 → Present (s.phys.read32 (c + k * 4)) → 768 ≤ l → l < 1023 →
      frameOf (s.phys.read32 (c + k * 4)) = kernelTable l → slot c k = (none, l) := by
    intro c k l hc hlt hpk h1 h2 ek
    rcases h.owned c hc k hlt hpk with hs | hs
    · obtain ⟨rfl, rfl⟩ := slot_low hs hlt
      rw [h.low hc, frameOf_or_attr (kernelTable_aligned _)] at ek
      rw [hs]
      unfold kernelTable at ek
      exact congrArg _ (by omega)
    · have := hi.held_high hu hs
      rw [ek] at this
      unfold kernelTable pageDirTablePos usedMem pgSize at this
      omega
  by_cases h1 : 768 ≤ j <;> by_cases h2 : 768 ≤ j'
  · rw [hk hd h1 hj, hk hd' h2 hj'] at e
    rw [slot_kernel d h1, slot_kernel d' h2]
    unfold kernelTable at e
    exact congrArg _ (by omega)
  · rw [hk hd h1 hj] at e
    rw [slot_kernel d h1, hlow hd' (by omega) hp' h1 hj e.symm]
  · rw [hk hd' h2 hj'] at e
    rw [slot_kernel d' h2, hlow hd (by omega) hp h2 hj' e]
  · exact h.cross d hd d' hd' j j' (by omega) (by omega) hp hp' e

/-! ## What changes no entry -/

/-- A step that enters at most a table in slot `t`, whose frame `c` nothing named, and a page in the slot
`p`, whose frame `f` nothing named. -/
theorem Sole.grow {t : Option Nat × Nat} {p : (Option Nat × Nat) × Nat} {c : Nat} (h : Sole s dirs) (hst : Stays s s')
    (hne : c ≠ f)
    (hlow : pageDirTablePos ∈ dirs → s'.phys.read32 (pageDirTablePos + 0 * 4) = s.phys.read32 (pageDirTablePos + 0 * 4))
    (hp : ∀ d ∈ dirs, ∀ j, j < 1023 → s'.phys.read32 (d + j * 4) = s.phys.read32 (d + j * 4) ∨
      Unnamed s dirs c ∧ slot d j = t ∧ s'.phys.read32 (d + j * 4) = c ||| pgAttr)
    (ht : ∀ d ∈ dirs, ∀ va, va < 0xffc00000 → pteWord s'.phys d va = pteWord s.phys d va ∨
      Unnamed s dirs f ∧ (slot d (pdeIdx va), pteIdx va) = p ∧ pteWord s'.phys d va = f ||| pgAttr) : Sole s' dirs where
  low hb := (hlow hb).trans (h.low hb)
  owned d hd j hj hy := by
    rcases hp d hd j (by omega) with e | ⟨hc, -, e⟩
    · rw [e] at hy ⊢
      exact (h.owned d hd j hj hy).imp_right fun hf => hf.mono hst
    · rw [e, frameOf_or_attr hc.held.aligned]
      exact .inr (hc.held.mono hst)
  cross d hd d' hd' j j' hj hj' hy hy' e := by
    rcases hp d hd j (by omega) with e1 | ⟨hc, hs, e1⟩ <;> rcases hp d' hd' j' (by omega) with e2 | ⟨hc', hs', e2⟩
    · rw [e1] at hy e
      rw [e2] at hy' e
      exact h.cross d hd d' hd' j j' hj hj' hy hy' e
    · rw [e1] at hy e
      rw [e2, frameOf_or_attr hc'.held.aligned] at e
      exact absurd e (hc'.notTable d hd j (by omega) hy)
    · rw [e2] at hy' e
      rw [e1, frameOf_or_attr hc.held.aligned] at e
      exact absurd e.symm (hc.notTable d' hd' j' (by omega) hy')
    · rw [hs, hs']
  held d hd va hv hy := by
    rcases ht d hd va hv with e | ⟨hf, -, e⟩
    · rw [e] at hy ⊢
      exact (h.held d hd va hv hy).imp_left fun hf => hf.mono hst
    · rw [e, frameOf_or_attr hf.held.aligned]
      exact .inl (hf.held.mono hst)
  sole d hd d' hd' va va' hv hv' hy hy' hu e := by
    rcases ht d hd va hv with e1 | ⟨hf, hs, e1⟩ <;> rcases ht d' hd' va' hv' with e2 | ⟨hf', hs', e2⟩
    · rw [e1] at hy hu e
      rw [e2] at hy' e
      exact h.sole d hd d' hd' va va' hv hv' hy hy' hu e
    · rw [e1] at hy e
      rw [e2, frameOf_or_attr hf'.held.aligned] at e
      exact absurd e (hf'.notPage d hd va hv hy)
    · rw [e2] at hy' e
      rw [e1, frameOf_or_attr hf.held.aligned] at e
      exact absurd e.symm (hf.notPage d' hd' va' hv' hy')
    · exact Prod.mk.inj (hs.trans hs'.symm)
  noTable d hd va hv hy d' hd' j hj hy' := by
    rcases ht d hd va hv with e1 | ⟨hf, -, e1⟩ <;> rcases hp d' hd' j hj with e2 | ⟨hc, -, e2⟩
    · rw [e1] at hy ⊢
      rw [e2] at hy' ⊢
      exact h.noTable d hd va hv hy d' hd' j hj hy'
    · rw [e1] at hy ⊢
      rw [e2, frameOf_or_attr hc.held.aligned]
      exact hc.notPage d hd va hv hy
    · rw [e2] at hy' ⊢
      rw [e1, frameOf_or_attr hf.held.aligned]
      exact (hf.notTable d' hd' j hj hy').symm
    · rw [e1, e2, frameOf_or_attr hf.held.aligned, frameOf_or_attr hc.held.aligned]
      exact hne.symm
  noDir d hd va hv hy hm := by
    rcases ht d hd va hv with e | ⟨hf, -, e⟩
    · rw [e] at hy hm
      exact h.noDir d hd va hv hy hm
    · rw [e, frameOf_or_attr hf.held.aligned] at hm
      exact absurd hm hf.notDir
  pdeOpen d hd j hj hy := by
    rcases hp d hd j (by omega) with e | ⟨hc, -, e⟩
    · rw [e] at hy ⊢
      exact h.pdeOpen d hd j hj hy
    · rw [e]
      exact or_attr_open hc.held.aligned
  pteOpen d hd va hv hy := by
    rcases ht d hd va hv with e | ⟨hf, -, e⟩
    · rw [e] at hy ⊢
      exact h.pteOpen d hd va hv hy
    · rw [e]
      exact or_attr_open hf.held.aligned

theorem Unnamed.grow {c : Nat} (h : Unnamed s dirs f) (hst : Stays s s') (hne : c ≠ f) (hal : c % 4096 = 0)
    (hp : ∀ d ∈ dirs, ∀ j, j < 1023 → s'.phys.read32 (d + j * 4) = s.phys.read32 (d + j * 4) ∨
      s'.phys.read32 (d + j * 4) = c ||| pgAttr)
    (ht : ∀ d ∈ dirs, ∀ va, va < 0xffc00000 → pteWord s'.phys d va = pteWord s.phys d va) : Unnamed s' dirs f where
  held := h.held.mono hst
  notDir := h.notDir
  notTable d hd j hj hy := by
    rcases hp d hd j hj with e | e
    · rw [e] at hy ⊢
      exact h.notTable d hd j hj hy
    · rw [e, frameOf_or_attr hal]
      exact hne
  notPage d hd va hv hy := by
    rw [ht d hd va hv] at hy ⊢
    exact h.notPage d hd va hv hy

theorem Sole.same (h : Sole s dirs) (hst : Stays s s')
    (hp : ∀ d ∈ dirs, ∀ j, j < 1023 → s'.phys.read32 (d + j * 4) = s.phys.read32 (d + j * 4))
    (ht : ∀ d ∈ dirs, ∀ va, va < 0xffc00000 → pteWord s'.phys d va = pteWord s.phys d va) : Sole s' dirs :=
  h.grow (t := (none, 0)) (p := ((none, 0), 0)) hst Nat.zero_ne_one (fun hb => hp _ hb 0 (by omega))
    (fun d hd j hj => .inl (hp d hd j hj)) fun d hd va hv => .inl (ht d hd va hv)

/-- Where the directories lie, and the tables that they name. -/
def walkTables (m : Bytes) (dirs : List Nat) : Set Nat :=
  {x | ∃ d ∈ dirs, x ∈ frame d ∨ ∃ j, j < 1023 ∧ Present (m.read32 (d + j * 4)) ∧ x ∈ frame (frameOf (m.read32 (d + j * 4)))}

theorem Sole.stores (h : Sole s dirs) (hst : Stays s s') (he : Set.EqOn s'.phys s.phys (walkTables s.phys dirs)) :
    Sole s' dirs := by
  have hp : ∀ d ∈ dirs, ∀ j, j < 1024 → s'.phys.read32 (d + j * 4) = s.phys.read32 (d + j * 4) := fun d hd j hj =>
    Bytes.read32_congr fun x hx => he ⟨d, hd, .inl (pde_word_subset hj hx)⟩
  refine h.same hst (fun d hd j hj => hp d hd j (by omega)) ?_
  intro d hd va hv
  have hj := pdeIdx_lt_window hv
  refine pteWord_same (hp d hd _ (by omega)) ?_
  intro hpr
  exact Bytes.read32_congr fun x hx => he ⟨d, hd, .inr ⟨_, hj, hpr, pteAt_word _ _ _ hx⟩⟩

/-- A frame that is taken was named nowhere. -/
theorem Sole.take (h : Sole s dirs) (hh : Healthy s dirs) (hi : i < s.frames pf) (hfree : ¬ s.Taken pf i) :
    Sole (s.take pf i) dirs ∧ Unnamed (s.take pf i) dirs ((s.pool pf).frame i) := by
  have hst := (take_kept s pf i).stays
  refine ⟨h.same hst (fun _ _ _ _ => rfl) fun _ _ _ _ => rfl, ⟨pf, i, hi, rfl, used_mark.mpr (.inr rfl)⟩, ?_, ?_, ?_⟩
  · intro hm
    exact hh.known_ne_free (hh.known _ hm) hfree rfl
  · intro d hd j hj hp
    exact hh.known_ne_free (hh.table hd hj hp).1 hfree
  · intro d hd va hv hp
    rcases h.held d hd va hv hp with hf | hlow
    · exact hh.held_ne_free hf hi hfree
    · have hpos : (s.pool pf).phyAddrStart ≤ (s.pool pf).frame i := Nat.le_add_right _ _
      have := hh.toSpaceInv.start hh.userLow pf
      have hlt := hlow.2
      unfold usedMem at this
      show frameOf (pteWord s.phys d va) ≠ (s.pool pf).frame i
      omega

/-! ## A new table -/

/-- Frame `c` is cleared, and entered as the table that `va` lacks. -/
structure Tabled (s : Mem) (va c : Nat) (m : Bytes) : Prop where
  zero : ∀ x ∈ frame c, m x = 0
  outside : ∀ x, x ∉ frame c → m x = s.phys.write32 (s.cr3 + pdeIdx va * 4) (c ||| pgAttr) x

section Tabled

variable {c : Nat}

theorem Tabled.pde (ht : Tabled s va c m) (hi : SpaceInv s dirs) (hd : s.cr3 ∈ dirs) (hv : va < 0xc0000000)
    (hc : Unnamed s dirs c) (hdm : d ∈ dirs) (hj : j < 1024) :
    m.read32 (d + j * 4) = if d = s.cr3 ∧ j = pdeIdx va then c ||| pgAttr else s.phys.read32 (d + j * 4) :=
  newTable_entry (hi.known _ hd).1 (hi.known d hdm).1 hc.held.aligned (fun e => hc.notDir (e ▸ hdm)) hc.held.lt ht.outside
    (pdeIdx_lt (by omega)) hj

/-- The new table is empty, and no other is touched. -/
theorem Tabled.pte (ht : Tabled s va c m) (hi : SpaceInv s dirs) (hd : s.cr3 ∈ dirs) (hv : va < 0xc0000000)
    (hp : ¬ Present (s.phys.read32 (s.cr3 + pdeIdx va * 4))) (hc : Unnamed s dirs c) (hdm : d ∈ dirs) (hvb : vb < 0xffc00000) :
    pteWord m d vb = pteWord s.phys d vb := by
  have hal := hc.held.aligned
  have hj := pdeIdx_lt_window hvb
  have hpde := ht.pde hi hd hv hc hdm (j := pdeIdx vb) (by omega)
  by_cases e : d = s.cr3 ∧ pdeIdx vb = pdeIdx va
  · rw [if_pos e] at hpde
    have hold : pteWord s.phys d vb = 0 := by
      unfold pteWord
      rw [e.1, e.2, if_neg hp]
    have hlt := pteIdx_lt vb
    unfold pteWord pteAt at hold ⊢
    rw [hold, hpde, if_pos (present_or_attr hal), frameOf_or_attr hal]
    exact Bytes.read32_of_zero fun x hx => ht.zero x (Set.Ico_subset_Ico (by omega) (by omega) hx)
  · rw [if_neg e] at hpde
    refine pteWord_same hpde ?_
    intro hpb
    obtain ⟨hT, hnot⟩ := hi.table hdm hj hpb
    have hne := hc.notTable d hdm _ hj hpb
    refine Bytes.read32_congr fun x hx => ?_
    have hx := pteAt_word _ _ _ hx
    rw [ht.outside x (frame_apart hT.1 hal hne hx)]
    exact Bytes.write32_of_notMem fun hx' =>
      frame_apart hT.1 (hi.known _ hd).1 (fun e => hnot (e ▸ hd)) hx (pde_word_subset (pdeIdx_lt (by omega)) hx')

theorem Sole.tabled (h : Sole s dirs) (hi : SpaceInv s dirs) (hd : s.cr3 ∈ dirs) (hv : va < 0xc0000000)
    (hp : ¬ Present (s.phys.read32 (s.cr3 + pdeIdx va * 4))) (hc : Unnamed s dirs c) (ht : Tabled s va c m) :
    Sole { s with phys := m } dirs := by
  have hpde : ∀ d ∈ dirs, ∀ j, j < 1023 → m.read32 (d + j * 4) =
      if d = s.cr3 ∧ j = pdeIdx va then c ||| pgAttr else s.phys.read32 (d + j * 4) := fun d hdm j hj =>
    ht.pde hi hd hv hc hdm (by omega)
  refine h.grow (t := slot s.cr3 (pdeIdx va)) (p := ((none, 0), 0)) (kept_phys s m).stays (Nat.succ_ne_self c).symm
    (fun hb => ?_) (fun d hdm j hj => ?_) fun d hdm vb hvb => .inl (ht.pte hi hd hv hp hc hdm hvb)
  · refine (hpde _ hb 0 (by omega)).trans (if_neg fun e => ?_)
    -- entry 0 of the boot directory was there before
    have hlow := h.low hb
    rw [e.1, e.2] at hlow
    rw [hlow] at hp
    exact absurd (present_or_attr (kernelTable_aligned _)) hp
  · by_cases e : d = s.cr3 ∧ j = pdeIdx va
    · exact .inr ⟨hc, by rw [e.1, e.2], (hpde d hdm j hj).trans (if_pos e)⟩
    · exact .inl ((hpde d hdm j hj).trans (if_neg e))

theorem Unnamed.tabled (h : Unnamed s dirs f) (hi : SpaceInv s dirs) (hd : s.cr3 ∈ dirs) (hv : va < 0xc0000000)
    (hp : ¬ Present (s.phys.read32 (s.cr3 + pdeIdx va * 4))) (hc : Unnamed s dirs c) (hne : c ≠ f) (ht : Tabled s va c m) :
    Unnamed { s with phys := m } dirs f := by
  refine h.grow (kept_phys s m).stays hne hc.held.aligned (fun d hdm j hj => ?_) fun d hdm vb hvb =>
    ht.pte hi hd hv hp hc hdm hvb
  have hpde := ht.pde hi hd hv hc hdm (by omega : j < 1024)
  by_cases e : d = s.cr3 ∧ j = pdeIdx va
  · exact .inr (hpde.trans (if_pos e))
  · exact .inl (hpde.trans (if_neg e))

end Tabled

/-! ## A new page -/

/-- The entry of `va`, and of the same page in another directory, names `f` now. -/
theorem Sole.entered_pte (h : Sole s dirs) (hi : SpaceInv s dirs) (hu : usedMem ≤ (s.pool .user).phyAddrStart)
    (hd : s.cr3 ∈ dirs) (hv : va < 0xffc00000)
    (hp : Present (s.phys.read32 (s.cr3 + pdeIdx va * 4))) (hflt : f ||| pgAttr < 2 ^ 32) (hdm : d ∈ dirs)
    (hvb : vb < 0xffc00000) :
    pteWord (s.phys.write32 (pteAt s.phys s.cr3 va) (f ||| pgAttr)) d vb =
      if slot d (pdeIdx vb) = slot s.cr3 (pdeIdx va) ∧ pteIdx vb = pteIdx va then f ||| pgAttr else pteWord s.phys d vb := by
  have hj := pdeIdx_lt_window hvb
  have hjv := pdeIdx_lt_window hv
  have hpde := write_pte_pde (hi.known d hdm).1 (hi.table_ne hd hv hp hdm) (f ||| pgAttr) (by omega : pdeIdx vb < 1024)
  by_cases e : slot d (pdeIdx vb) = slot s.cr3 (pdeIdx va) ∧ pteIdx vb = pteIdx va
  · have hshared := h.shared hi hdm hd hj hjv e.1
    have hat : pteAt s.phys d vb = pteAt s.phys s.cr3 va := by
      unfold pteAt
      rw [hshared, e.2]
    rw [if_pos e]
    unfold pteWord
    rw [hpde, hshared, if_pos hp, pteAt_congr hpde, hat]
    exact Bytes.read32_write32 _ _ hflt
  · rw [if_neg e]
    refine pteWord_same hpde ?_
    intro hpb
    have h1 := frameOf_mod (s.phys.read32 (d + pdeIdx vb * 4))
    have h2 := frameOf_mod (s.phys.read32 (s.cr3 + pdeIdx va * 4))
    have hi1 := pteIdx_lt vb
    have hi2 := pteIdx_lt va
    refine Bytes.read32_write32_of_disjoint ?_
    by_cases ef : frameOf (s.phys.read32 (d + pdeIdx vb * 4)) = frameOf (s.phys.read32 (s.cr3 + pdeIdx va * 4))
    · have hs := h.slot_eq hi hu hdm hd hj hjv hpb hp ef
      have hne : pteIdx vb ≠ pteIdx va := fun e' => e ⟨hs, e'⟩
      unfold pteAt
      omega
    · unfold pteAt
      omega

theorem Sole.entered (h : Sole s dirs) (hi : SpaceInv s dirs) (hu : usedMem ≤ (s.pool .user).phyAddrStart) (hd : s.cr3 ∈ dirs)
    (hv : va < 0xffc00000) (hp : Present (s.phys.read32 (s.cr3 + pdeIdx va * 4))) (hf : Unnamed s dirs f) :
    Sole { s with phys := s.phys.write32 (pteAt s.phys s.cr3 va) (f ||| pgAttr) } dirs := by
  have hpde : ∀ d ∈ dirs, ∀ j, j < 1023 → (s.phys.write32 (pteAt s.phys s.cr3 va) (f ||| pgAttr)).read32 (d + j * 4) =
      s.phys.read32 (d + j * 4) := fun d hdm j hj =>
    write_pte_pde (hi.known d hdm).1 (hi.table_ne hd hv hp hdm) _ (by omega)
  refine h.grow (t := (none, 0)) (p := (slot s.cr3 (pdeIdx va), pteIdx va)) (kept_phys s _).stays (Nat.succ_ne_self f)
    (fun hb => hpde _ hb 0 (by omega)) (fun d hdm j hj => .inl (hpde d hdm j hj)) fun d hdm vb hvb => ?_
  have hpte := h.entered_pte hi hu hd hv hp hf.held.lt hdm hvb
  by_cases e : slot d (pdeIdx vb) = slot s.cr3 (pdeIdx va) ∧ pteIdx vb = pteIdx va
  · exact .inr ⟨hf, Prod.ext e.1 e.2, hpte.trans (if_pos e)⟩
  · exact .inl (hpte.trans (if_neg e))

/-! ## page_table_add -/

/-- `page_table_add` of an unnamed frame, with a frame left for a table that is missing. -/
theorem Sole.pageTableAdd (h : Sole s dirs) (hh : Healthy s dirs) (hd : s.cr3 ∈ dirs) (hv : va < 0xffc00000)
    (hf : Unnamed s dirs f)
    (hroom : ¬ Present (s.phys.read32 (s.cr3 + pdeIdx va * 4)) → ∃ c, c ∈ s.free .kernel) (ha : pageTableAdd va f s = .ok s') :
    Sole s' dirs ∧ pteWord s'.phys s.cr3 va = f ||| pgAttr := by
  have hself := (hh.dir hd).self
  by_cases hp : Present (s.phys.read32 (s.cr3 + pdeIdx va * 4))
  · rw [pageTableAdd_present f hself (by omega) hp] at ha
    obtain ⟨u, -, ha⟩ := bind_ok_iff.mp ha
    cases ha
    refine ⟨h.entered hh.toSpaceInv hh.userLow hd hv hp hf, ?_⟩
    exact (h.entered_pte hh.toSpaceInv hh.userLow hd hv hp hf.held.lt hd hv).trans (if_pos ⟨rfl, rfl⟩)
  · have hlow : va < 0xc0000000 := by
      by_contra hge
      obtain ⟨h1, h2⟩ := KernelAddr.pdeIdx ⟨by omega, hv⟩
      rw [hh.kernel _ hd _ h1 h2] at hp
      exact hp (present_or_attr (kernelTable_aligned _))
    rcases palloc_cases .kernel s with ⟨-, hall⟩ | ⟨i, hi, hfree, -, hpal⟩
    · obtain ⟨c, hc⟩ := hroom hp
      obtain ⟨hc, hcfree⟩ := mem_free.mp hc
      exact absurd (hall c hc) hcfree
    · have hal := (s.pool .kernel).frame_aligned i
      have hflt := or_attr_lt hal ((s.pool .kernel).frame_lt hi)
      have hst := (take_kept s .kernel i).stays
      obtain ⟨ht, hc⟩ := h.take hh hi hfree
      have hf' : Unnamed (s.take .kernel i) dirs f :=
        ⟨hf.held.mono hst, hf.notDir, hf.notTable, hf.notPage⟩
      have hneDir := (hh.known_ne_free (hh.known _ hd) hfree).symm
      have hne : (s.pool .kernel).frame i ≠ f := (hh.held_ne_free hf.held hi hfree).symm
      obtain ⟨m, hadd, hzero, hout⟩ := pageTableAdd_absent f hself hv hp hpal hal hneDir hflt
      rw [hadd] at ha
      cases ha
      -- once the table is entered, the page is an entry of it
      have htab : Tabled (s.take .kernel i) va ((s.pool .kernel).frame i) m := ⟨hzero, hout⟩
      have hheal : Healthy (s.take .kernel i) dirs := hh.stays hst fun d _ x _ => rfl
      have hinv := hheal.toSpaceInv
      have hknown : Known (s.take .kernel i) ((s.pool .kernel).frame i) := ⟨hal, .inr ⟨i, hi, rfl, used_mark.mpr (.inr rfl)⟩⟩
      have hinv' : SpaceInv { s.take .kernel i with phys := m } dirs :=
        hinv.newTable hd (j := pdeIdx va) (by unfold pdeIdx; omega) hknown hc.notDir hflt hout
      have hpde : m.read32 (s.cr3 + pdeIdx va * 4) = (s.pool .kernel).frame i ||| pgAttr :=
        (htab.pde hinv hd hlow hc hd (pdeIdx_lt (by omega))).trans (if_pos ⟨rfl, rfl⟩)
      have hat : pteAt m s.cr3 va = (s.pool .kernel).frame i + pteIdx va * 4 := by
        unfold pteAt
        rw [hpde, frameOf_or_attr hal]
      have hpres : Present (m.read32 (s.cr3 + pdeIdx va * 4)) := by
        rw [hpde]
        exact present_or_attr hal
      have hsole := ht.tabled hinv hd hlow hp hc htab
      have hun := hf'.tabled hinv hd hlow hp hc hne htab
      rw [← hat]
      refine ⟨hsole.entered hinv' hh.userLow hd hv hpres hun, ?_⟩
      exact (hsole.entered_pte hinv' hh.userLow hd hv hpres hun.held.lt hd hv).trans (if_pos ⟨rfl, rfl⟩)

/-! ## The calls -/

theorem mem_frameOf (x : Nat) : x ∈ frame (frameOf x) := by
  rw [Set.mem_Ico]
  unfold frameOf
  omega

/-- A page that is no directory is no table either. -/
theorem Sole.page_apart (h : Sole s dirs) (hi : SpaceInv s dirs) (hd : d ∈ dirs) (hv : va < 0xffc00000) {pa x : Nat}
    (ht : translate s.phys d va = some pa) (hno : frameOf pa ∉ dirs) (hx : x ∈ frame (frameOf pa)) :
    x ∉ walkTables s.phys dirs := by
  obtain ⟨hp, hf⟩ := pteWord_of_translate ht
  rintro ⟨d', hd', hx' | ⟨j, hj, hpj, hx'⟩⟩
  · have hne : frameOf pa ≠ d' := fun e => hno (by rw [e]; exact hd')
    exact frame_apart (frameOf_mod pa) (hi.known d' hd').1 hne hx hx'
  · have hne := h.noTable d hd va hv hp d' hd' j hj hpj
    rw [hf] at hne
    exact frame_apart (frameOf_mod pa) (frameOf_mod _) hne hx hx'

/-- Clearing pages that are no directories. -/
theorem Sole.memset {len : Nat} {p : Nat → Nat} (h : Sole s dirs) (hi : SpaceInv s dirs) (hd : s.cr3 ∈ dirs) (hpos : 0 < va)
    (hend : va + len ≤ 0xffc00000) (hmaps : ∀ k, k < len → translate s.phys s.cr3 (va + k) = some (p k))
    (hno : ∀ k, k < len → frameOf (p k) ∉ dirs) (hm : memset s.phys s.cr3 va 0 len = .ok m) :
    Sole { s with phys := m } dirs := by
  have hreads : ∀ k, k < len → footprint s.phys s.cr3 (va + k) ⊆ walkTables s.phys dirs := by
    intro k hk
    have hj := pdeIdx_lt_window (by omega : va + k < 0xffc00000)
    have hpr := pteWord_present (pteWord_of_translate (hmaps k hk)).1
    unfold footprint
    refine Set.union_subset (fun x hx => ⟨_, hd, .inl (pde_word_subset (by omega) hx)⟩) fun x hx => ?_
    exact ⟨_, hd, .inr ⟨_, hj, hpr, pteAt_word _ _ _ hx⟩⟩
  have hout : ∀ k, k < len → p k ∉ walkTables s.phys dirs := fun k hk =>
    h.page_apart hi hd (by omega) (hmaps k hk) (hno k hk) (mem_frameOf _)
  obtain ⟨m', he, -, hext⟩ := memset_spec 0 ⟨hmaps, hreads⟩ hout hpos (by omega)
  rw [he] at hm
  cases hm
  refine h.stores (kept_phys s m).stays fun x hx => hext x fun k hk e => hout k hk (e ▸ hx)

/-- The loop of `malloc_page`, on the kernel's pages or with frames enough. -/
theorem Sole.mapPages {b : Bool} (h : Sole s dirs) (hh : Healthy s dirs) (hd : s.cr3 ∈ dirs)
    (hend : va + n * pgSize ≤ 0xffc00000)
    (hn : n ≤ 4096) (hr : 0xc0000000 ≤ va ∨ s.Enough va n pf) (hm : mapPages pf n va s = .ok (b, s')) :
    Sole s' dirs ∧ Healthy s' dirs := by
  induction n generalizing va s with
  | zero =>
    cases hm
    exact ⟨h, hh⟩
  | succ n ih =>
    rcases palloc_cases pf s with ⟨hpal, -⟩ | ⟨i, hi, hfree, -, hpal⟩
    · rw [Memory.mapPages, hpal] at hm
      cases hm
      exact ⟨h, hh⟩
    · have hpos := (s.pool pf).frame_pos i
      have hva : va < 0xffc00000 := by unfold pgSize at hend; omega
      have hnext : (va + pgSize) % 2 ^ 32 = va + pgSize := Nat.mod_eq_of_lt (by unfold pgSize at *; omega)
      rw [Memory.mapPages, hpal, ok_bind] at hm
      simp only at hm
      rw [if_neg (by omega), hnext] at hm
      obtain ⟨s1, hadd, hm⟩ := bind_ok_iff.mp hm
      have hroom : ¬ Present (s.phys.read32 (s.cr3 + pdeIdx va * 4)) → ∃ c, c ∈ (s.take pf i).free .kernel := by
        intro hp
        rcases hr with hk | he
        · obtain ⟨h1, h2⟩ := KernelAddr.pdeIdx ⟨hk, hva⟩
          rw [hh.kernel _ hd _ h1 h2] at hp
          exact absurd (present_or_attr (kernelTable_aligned _)) hp
        · exact hh.table_frame hi hfree he hp
      have hst := (take_kept s pf i).stays
      obtain ⟨ht, hf⟩ := h.take hh hi hfree
      have hheal : Healthy (s.take pf i) dirs := hh.stays hst fun d _ x _ => rfl
      have hsole := (ht.pageTableAdd hheal hd hva hf hroom hadd).1
      rcases hh.page hd hva hi hfree hroom with ⟨-, hstop⟩ | ⟨s2, hok, hp⟩
      · rw [hstop] at hadd
        cases hadd
      · rw [hok] at hadd
        cases hadd
        exact ih hsole hp.healthy (by rw [hp.kept.cr3]; exact hd) (by unfold pgSize at *; omega) (by omega)
          (hr.imp (fun hk => Nat.le_trans hk (Nat.le_add_right _ _)) fun he => hp.enough hend he) hm

theorem Sole.setLock (h : Sole s dirs) (pf : PoolFlags) (l : PoolLock) : Sole (s.setLock pf l) dirs :=
  h.same (setLock_stays s pf l) (fun _ _ _ _ => rfl) fun _ _ _ _ => rfl

theorem Sole.data (h : Sole s dirs) (hg : Grows s.data m) : Sole { s with data := m } dirs :=
  h.same (kept_data hg).stays (fun _ _ _ _ => rfl) fun _ _ _ _ => rfl

theorem Sole.getKernelPages (h : Sole s dirs) (hh : Healthy s dirs) (hd : s.cr3 ∈ dirs)
    (hc : getKernelPages n s = .ok (v, s')) :
    Sole s' dirs := by
  obtain ⟨l, sm, phys, -, hm, hp, hr⟩ := getKernelPages_ok hc
  obtain ⟨l', -, rfl⟩ := lockRelease_ok hr
  have hs := hh.space hd
  obtain ⟨u, hcnt, -⟩ := bind_ok_iff.mp hm
  have hcnt := of_decide_eq_true (assert_ok.mp hcnt)
  refine Sole.setLock ?_ .kernel l'
  rcases mallocPage_cases hm with ⟨-, rfl, rfl⟩ | ⟨b, m, k, hsome, hset, hmap, hend⟩
  · cases hp
    exact h.setLock .kernel l
  · obtain ⟨-, hb, -⟩ := bitmapScan_some hcnt.1 hsome
    have hb : b + n ≤ 8 * s.kernelVaddr.vaddrBitmap.btmpBytesLen + 1 := hb
    obtain ⟨h1, h2, ha⟩ := hs.page (n := k) (b := b) (by omega)
    have hg : Grows s.data m := (setBits_kept (s := s.setLock .kernel l) hset).grows
    have hst := (setLock_stays s .kernel l).trans (kept_data (s := s.setLock .kernel l) hg).stays
    have hh0 : Healthy { s.setLock .kernel l with data := m } dirs := hh.stays hst fun d _ x _ => rfl
    obtain ⟨hsole, hheal⟩ := ((h.setLock .kernel l).data hg).mapPages hh0 hd h2 (by omega) (.inl h1) hmap
    rcases hend with ⟨rfl, -⟩ | ⟨rfl, hpos, rfl⟩
    · cases hp
      exact hsole
    · rw [if_pos (by omega), Nat.mod_eq_of_lt (by unfold pgSize; omega)] at hp
      obtain ⟨f, hf⟩ := mapPages_mapped (s := { s.setLock .kernel l with data := m }) hs.dir h1 h2 hmap
      have hcr3 : sm.cr3 = s.cr3 := hf.kept.cr3
      refine hsole.memset hheal.toSpaceInv (by rw [hcr3]; exact hd) hpos h2 (hf.window hs.dir ha h1 h2).maps (fun o ho => ?_) hp
      have hi : o / 4096 < k := by unfold pgSize at ho; omega
      rw [frameOf_add (Pool.frame_aligned _ _) (by omega)]
      exact fun hmem => hh0.known_ne_free (hh0.known _ hmem) (hf.free _ hi) rfl

/-- Where the entries of a new directory, the kernel's and no others, stand in the old ones. -/
theorem newDir_entries {c F : Nat} (hi : SpaceInv s (F :: dirs)) (hc : c ∈ dirs)
    (hz : ∀ j, j < 768 → s.phys.read32 (F + j * 4) = 0)
    (hd : d ∈ F :: dirs) (hj : j < 1023) (hp : Present (s.phys.read32 (d + j * 4))) :
    ∃ e ∈ dirs, s.phys.read32 (e + j * 4) = s.phys.read32 (d + j * 4) ∧ slot e j = slot d j := by
  rcases List.mem_cons.mp hd with rfl | hd
  · by_cases hu : j < 768
    · rw [hz j hu] at hp
      exact absurd hp (by decide)
    · have hk : 768 ≤ j := by omega
      refine ⟨c, hc, ?_, by rw [slot_kernel c hk, slot_kernel d hk]⟩
      rw [hi.kernel c (List.mem_cons_of_mem _ hc) j hk hj, hi.kernel d List.mem_cons_self j hk hj]
  · exact ⟨d, hd, rfl, rfl⟩

/-- A directory that is mapped in the kernel's part only, with the kernel's entries and no others. -/
theorem Sole.cons {c F : Nat} (h : Sole s dirs) (hi : SpaceInv s (F :: dirs)) (hc : c ∈ dirs)
    (hz : ∀ j, j < 768 → s.phys.read32 (F + j * 4) = 0) (hF : F ≠ pageDirTablePos)
    (hk : ∀ d ∈ dirs, ∀ va, va < 0xffc00000 → Present (pteWord s.phys d va) → frameOf (pteWord s.phys d va) = F →
      (slot d (pdeIdx va)).1 = none) : Sole s (F :: dirs) := by
  have hpde : ∀ d ∈ F :: dirs, ∀ j, j < 1023 → Present (s.phys.read32 (d + j * 4)) →
      ∃ e ∈ dirs, s.phys.read32 (e + j * 4) = s.phys.read32 (d + j * 4) ∧ slot e j = slot d j := fun d hd j hj hp =>
    newDir_entries hi hc hz hd hj hp
  have hpte : ∀ d ∈ F :: dirs, ∀ va, va < 0xffc00000 → Present (pteWord s.phys d va) →
      ∃ e ∈ dirs, pteWord s.phys e va = pteWord s.phys d va ∧ slot e (pdeIdx va) = slot d (pdeIdx va) := by
    intro d hd va hv hp
    obtain ⟨e, he, hw, hs⟩ := hpde d hd _ (pdeIdx_lt_window hv) (pteWord_present hp)
    refine ⟨e, he, ?_, hs⟩
    unfold pteWord pteAt
    rw [hw]
  refine ⟨fun hb => ?_, fun d hd j hj hy => ?_, fun d hd d' hd' j j' hj hj' hy hy' e => ?_, fun d hd va hv hy => ?_,
    fun d hd d' hd' va va' hv hv' hy hy' hu e => ?_, fun d hd va hv hy d' hd' j hj hy' => ?_, fun d hd va hv hy hm => ?_,
    fun d hd j hj hy => ?_, fun d hd va hv hy => ?_⟩
  · exact h.low ((List.mem_cons.mp hb).resolve_left fun e => hF e.symm)
  · obtain ⟨c, hc, hw, hs⟩ := hpde d hd j (by omega) hy
    rw [← hw] at hy ⊢
    rw [← hs]
    exact h.owned c hc j hj hy
  · obtain ⟨c, hc, hw, hs⟩ := hpde d hd j (by omega) hy
    obtain ⟨c', hc', hw', hs'⟩ := hpde d' hd' j' (by omega) hy'
    rw [← hw] at hy e
    rw [← hw'] at hy' e
    rw [← hs, ← hs']
    exact h.cross c hc c' hc' j j' hj hj' hy hy' e
  · obtain ⟨c, hc, hw, hs⟩ := hpte d hd va hv hy
    rw [← hw] at hy ⊢
    rw [← hs]
    exact h.held c hc va hv hy
  · obtain ⟨c, hc, hw, hs⟩ := hpte d hd va hv hy
    obtain ⟨c', hc', hw', hs'⟩ := hpte d' hd' va' hv' hy'
    rw [← hw] at hy hu e
    rw [← hw'] at hy' e
    rw [← hs, ← hs']
    exact h.sole c hc c' hc' va va' hv hv' hy hy' hu e
  · obtain ⟨c, hc, hw, -⟩ := hpte d hd va hv hy
    obtain ⟨c', hc', hw', -⟩ := hpde d' hd' j hj hy'
    rw [← hw] at hy ⊢
    rw [← hw'] at hy' ⊢
    exact h.noTable c hc va hv hy c' hc' j hj hy'
  · obtain ⟨c, hc, hw, hs⟩ := hpte d hd va hv hy
    rw [← hw] at hy hm
    rw [← hs]
    rcases List.mem_cons.mp hm with e | hm
    · exact hk c hc va hv hy e
    · exact h.noDir c hc va hv hy hm
  · obtain ⟨c, hc, hw, -⟩ := hpde d hd j (by omega) hy
    rw [← hw] at hy ⊢
    exact h.pdeOpen c hc j hj hy
  · obtain ⟨c, hc, hw, -⟩ := hpte d hd va hv hy
    rw [← hw] at hy ⊢
    exact h.pteOpen c hc va hv hy

/-- The frame of the kernel page at `va` becomes a directory. -/
theorem Sole.newDir {F : Nat} {phys : Bytes} (h : Sole s dirs) (hi : SpaceInv s dirs) (hu : usedMem ≤ F) (hd : s.cr3 ∈ dirs)
    (hk : KernelAddr va) (hat : s.phys.read32 (entry kernelTable va) = F ||| pgAttr) (hal : F % 4096 = 0) (hF : F ∉ dirs)
    (hn : NewDir s.phys phys s.cr3 F) (hi' : SpaceInv { s with phys := phys } (F :: dirs)) :
    Sole { s with phys := phys } (F :: dirs) := by
  obtain ⟨h1, h2⟩ := hk.pdeIdx
  have hword : pteWord s.phys s.cr3 va = F ||| pgAttr := by
    unfold pteWord
    rw [hi.kernel _ hd _ h1 h2, if_pos (present_or_attr (kernelTable_aligned _)), (hi.dir hd).pteAt hk, hat]
  have hpres : Present (pteWord s.phys s.cr3 va) := by rw [hword]; exact present_or_attr hal
  have hframe : frameOf (pteWord s.phys s.cr3 va) = F := by rw [hword]; exact frameOf_or_attr hal
  have hout : ∀ x ∈ walkTables s.phys dirs, x ∉ frame F := by
    rintro x ⟨d, hdm, hx | ⟨j, hj, hp, hx⟩⟩
    · have hne : d ≠ F := fun e => hF (by rw [← e]; exact hdm)
      exact frame_apart (hi.known d hdm).1 hal hne hx
    · have hne := h.noTable _ hd va hk.2 hpres d hdm j hj hp
      rw [hframe] at hne
      exact frame_apart (frameOf_mod _) hal hne.symm hx
  have hold := h.stores (kept_phys s phys).stays fun x hx => hn.outside x (hout x hx)
  refine hold.cons hi' hd hn.user ?_ ?_
  · intro e
    rw [e] at hu
    exact absurd hu (by decide)
  · -- the page is mapped where it is, and nowhere else
    intro d hdm vb hvb hp hf
    have hsame : pteWord phys d vb = pteWord s.phys d vb := by
      have hj := pdeIdx_lt_window hvb
      have hpde : phys.read32 (d + pdeIdx vb * 4) = s.phys.read32 (d + pdeIdx vb * 4) := Bytes.read32_congr fun x hx =>
        hn.outside x (hout x ⟨d, hdm, .inl (pde_word_subset (by omega) hx)⟩)
      refine pteWord_same hpde fun hpr => Bytes.read32_congr fun x hx => ?_
      exact hn.outside x (hout x ⟨d, hdm, .inr ⟨_, hj, hpr, pteAt_word _ _ _ hx⟩⟩)
    have hp : Present (pteWord phys d vb) := hp
    have hf : frameOf (pteWord phys d vb) = F := hf
    rw [hsame] at hp hf
    obtain ⟨hs, -⟩ := h.sole _ hd d hdm va vb hk.2 hvb hpres hp (by rw [hframe]; exact hu) (hframe.trans hf.symm)
    rw [← hs, slot_kernel _ h1]

theorem Sole.createPageDir (h : Sole s dirs) (hh : Healthy s dirs) (hd : s.cr3 ∈ dirs) (hc : createPageDir s = .ok (v, s')) :
    v = 0 ∧ Sole s' dirs ∨ v ≠ 0 ∧ ∃ F, addrV2p v s' = .ok F ∧ Sole s' (F :: dirs) := by
  rcases createPageDir_cases (hh.space hd) hc with ⟨hv, hk⟩ | ⟨hv, s1, g, m, phys, hg, hk, hn, rfl, hat⟩
  · exact .inl ⟨hv, h.getKernelPages hh hd hk⟩
  · have h1 := h.getKernelPages hh hd hk
    have hh1 : Healthy s1 dirs := hh.stays hg.stays (hh.granted hg)
    have hcr3 : s1.cr3 = s.cr3 := hg.stays.cr3
    obtain ⟨hka, hentry⟩ := hg.first (by omega)
    obtain ⟨hnew, -⟩ := hh.toSpaceInv.newDir hd hg hn
    have hhigh : usedMem ≤ (s.pool .kernel).frame (g 0) := by
      rw [← hh.pool]
      exact Nat.le_add_right _ _
    rw [← hcr3] at hn
    refine .inr ⟨hv, _, hat, h1.newDir hh1.toSpaceInv hhigh (by rw [hcr3]; exact hd) hka hentry
      (Pool.frame_aligned _ _) hnew hn ?_⟩
    rw [hcr3] at hn
    exact (hh.toSpaceInv.newDir hd hg hn).2

theorem Sole.getUserPages (h : Sole s dirs) (hh : Healthy s dirs) (hd : s.cr3 ∈ dirs) (hlegal : (Req.getUserPages n).Legal s)
    (hroom : (Req.getUserPages n).HasRoom s) (hc : getUserPages n s = .ok (v, s')) : Sole s' dirs := by
  obtain ⟨h1, h2, hal⟩ := hlegal
  obtain ⟨l, sm, phys, -, hm, hp, hr⟩ := getUserPages_ok hc
  obtain ⟨l', -, rfl⟩ := lockRelease_ok hr
  refine Sole.setLock ?_ .user l'
  obtain ⟨b, hbit, he⟩ | ⟨pf, va, hr, -⟩ := hroom
  · have hbit' : bitmapScan s.data (s.vaddr .user).vaddrBitmap n = some b := hbit
    have hres : (Req.getUserPages n).reserved s = s.reserve .user b n := by
      unfold Req.reserved
      rw [hbit]
      rfl
    rw [hres] at he
    have hlock := hh.locked .user l
    have he : ((s.setLock .user l).reserve .user b n).Enough ((s.vaddr .user).page b) n .user := by
      rw [reserve_setLock]
      exact he.setLock .user l
    rcases mallocPage_room (s := s.setLock .user l) hlock.healthy hd .user ⟨h1, h2⟩ hbit' he with
      ⟨-, -, hstop⟩ | ⟨-, hstop⟩ | ⟨s1, g, hok, hne, hlow, hmap, hf⟩
    · rw [hstop] at hm
      cases hm
    · rw [hstop] at hm
      cases hm
    · rw [hok] at hm
      cases hm
      have hend := hlock.healthy.scanned hd .user ⟨h1, h2⟩ hbit' hlow
      have hst := (reserve_kept (s.setLock .user l) .user b n).stays
      have hh0 : Healthy ((s.setLock .user l).reserve .user b n) dirs := hlock.healthy.stays hst fun d _ x _ => rfl
      have h0 : Sole ((s.setLock .user l).reserve .user b n) dirs :=
        (h.setLock .user l).same hst (fun _ _ _ _ => rfl) fun _ _ _ _ => rfl
      obtain ⟨hsole, hheal⟩ := h0.mapPages hh0 hd hend (by omega) (.inr he) hmap
      have hcr3 : sm.cr3 = s.cr3 := hf.kept.cr3
      have hpal : ((s.setLock .user l).vaddr .user).page b % 4096 = 0 := by
        show (s.cur.userprogVaddr.vaddrStart + b * pgSize) % 4096 = 0
        unfold pgSize at hal ⊢
        omega
      rw [Nat.mod_eq_of_lt (by unfold pgSize; omega)] at hp
      refine hsole.memset hheal.toSpaceInv (by rw [hcr3]; exact hd) (Nat.pos_of_ne_zero hne) hend (fun k hk => ?_)
        (p := fun k => (((s.setLock .user l).reserve .user b n).pool .user).frame (g (k / 4096)) + k % 4096) (fun k hk => ?_) hp
      · have hpage := hf.pages (k / 4096) (by unfold pgSize at hk; omega) (((s.setLock .user l).vaddr .user).page b + k)
          (by unfold pgSize; omega)
        rw [hcr3]
        exact hpage.trans (congrArg some (by omega))
      · have hi : k / 4096 < n := by unfold pgSize at hk; omega
        rw [frameOf_add (Pool.frame_aligned _ _) (by omega)]
        exact fun hmem => hh0.known_ne_free (hh0.known _ hmem) (hf.free _ hi) rfl
  · cases hr

theorem Sole.getAPage (h : Sole s dirs) (hh : Healthy s dirs) (hd : s.cr3 ∈ dirs) (hlegal : Permitted s pf va)
    (hroom : (Req.getAPage pf va).HasRoom s) (hc : getAPage pf va s = .ok (v, s')) : Sole s' dirs := by
  obtain ⟨l, sm, f, sp, -, hm, hp, hend⟩ := getAPage_ok hc
  have hvaddr : (s.setLock pf l).vaddr pf = s.vaddr pf := by cases pf <;> rfl
  have hmark := (Permitted.mk hlegal.task (by rw [hvaddr]; exact hlegal.idx) hlegal.below hlegal.unmapped :
    Permitted (s.setLock pf l) pf va).markVaddr
  rw [hvaddr] at hmark
  rw [hmark] at hm
  cases hm
  have hst := (setLock_stays s pf l).trans (reserve_kept (s.setLock pf l) pf (vaddrIdx (s.vaddr pf) va) 1).stays
  have h0 : Sole ((s.setLock pf l).reserve pf (vaddrIdx (s.vaddr pf) va) 1) dirs :=
    h.same hst (fun _ _ _ _ => rfl) fun _ _ _ _ => rfl
  have hh0 : Healthy ((s.setLock pf l).reserve pf (vaddrIdx (s.vaddr pf) va) 1) dirs := hh.stays hst fun d _ x _ => rfl
  rw [reserve_setLock] at h0 hh0 hp
  have hres : (Req.getAPage pf va).reserved s = s.reserve pf (vaddrIdx (s.vaddr pf) va) 1 := rfl
  unfold Req.HasRoom at hroom
  rw [hres] at hroom
  rcases palloc_cases pf ((s.reserve pf (vaddrIdx (s.vaddr pf) va) 1).setLock pf l) with ⟨hpal, -⟩ | ⟨i, hi, hfree, -, hpal⟩
  · rw [hpal] at hp
    cases hp
    rcases hend with ⟨-, rfl⟩ | ⟨hne, -⟩
    · exact h0
    · exact absurd rfl hne
  · rw [hpal] at hp
    cases hp
    have hpos := (((s.reserve pf (vaddrIdx (s.vaddr pf) va) 1).setLock pf l).pool pf).frame_pos i
    rcases hend with ⟨hz, -⟩ | ⟨-, sadd, hadd, hr⟩
    · omega
    · obtain ⟨l', -, rfl⟩ := lockRelease_ok hr
      have henough : ((s.reserve pf (vaddrIdx (s.vaddr pf) va) 1).setLock pf l).Enough va 1 pf := by
        rcases hroom with ⟨c, -, he⟩ | ⟨q, x, e, hempty⟩
        · exact Mem.Enough.setLock he pf l
        · cases e
          have hleft := mem_free.mpr ⟨hi, hfree⟩
          rw [free_setLock, hempty] at hleft
          exact absurd hleft (Finset.notMem_empty i)
      obtain ⟨ht, hf⟩ := h0.take hh0 hi hfree
      have hheal := hh0.stays (take_kept _ pf i).stays fun d _ x _ => rfl
      exact ((ht.pageTableAdd hheal hd hlegal.below hf (hh0.table_frame hi hfree henough) hadd).1).setLock pf l'

/-- `thread_start` fills the page that it gets. -/
theorem Sole.threadStart {a : ThreadArgs} (h : Sole s dirs) (hh : Healthy s dirs) (hd : s.cr3 ∈ dirs) (ha : a.Fits)
    (hc : threadStart a s = .ok (v, s')) : Sole s' dirs := by
  have hs := hh.space hd
  obtain ⟨⟨v, s1⟩, hk, hc⟩ := bind_ok_iff.mp hc
  obtain ⟨m1, hinit, hc⟩ := bind_ok_iff.mp hc
  obtain ⟨m2, hcreate, hc⟩ := bind_ok_iff.mp hc
  cases hc
  have h1 := h.getKernelPages hh hd hk
  -- memset asserts that there is a page
  have hne : v ≠ 0 := by
    rintro rfl
    cases hinit
  rcases getKernelPages_cases hs hk with ⟨-, hv0, -⟩ | ⟨b, m, k, g, -, -, hg, ⟨hv0, -⟩ | ⟨rfl, hpos, rfl, -⟩⟩
  · exact absurd hv0 hne
  · exact absurd hv0 hne
  · have hcr3 : s1.cr3 = s.cr3 := hg.stays.cr3
    have hfree := hg.free 0 (by omega)
    have hout := hs.out _ (hg.fits 0 (by omega)) hfree
    have hh1 : Healthy s1 dirs := hh.stays hg.stays (hh.granted hg)
    have hbelow := hg.below
    have hpage : PageAt s1.phys s1.cr3 (s.kernelVaddr.page b) ((s.pool .kernel).frame (g 0)) (walked s1.cr3) :=
      ⟨hg.page hs, fun x hx => hs.not_frame hout (by rw [← hcr3]; exact hx), hpos, by unfold pgSize at hbelow; omega⟩
    obtain ⟨m1', m2', hinit', hcreate', hin⟩ := hpage.prepare ha
    rw [hinit'] at hinit
    cases hinit
    rw [hcreate'] at hcreate
    cases hcreate
    have hka := (hg.first (by omega)).1
    have hmap := (hg.page hs).maps 0 (by omega)
    rw [Nat.add_zero, Nat.add_zero, hcr3] at hmap
    have hframe : frameOf ((s.pool .kernel).frame (g 0)) = (s.pool .kernel).frame (g 0) :=
      frameOf_add ((s.pool .kernel).frame_aligned _) (o := 0) (by omega)
    have hno : frameOf ((s.pool .kernel).frame (g 0)) ∉ dirs := by
      rw [hframe]
      exact fun hmem => hh.known_ne_free (hh.known _ hmem) hfree rfl
    refine h1.stores (kept_phys s1 m2).stays fun x hx => hin x fun hx' => ?_
    exact h1.page_apart hh1.toSpaceInv hd hka.2 hmap hno (by rw [hframe]; exact hx') hx

/-! ## Runs -/

/-- After `setup_page` on memory that held no present entry in the tables, and mem_pool_init with any `all_mem`. -/
def CleanStart (S : Space) : Prop :=
  (∃ allMem s0 m, CleanTables m ∧ s0.phys = setupPage m ∧ memPoolInit allMem s0 = .ok S.mem) ∧ S.dirs = [pageDirTablePos]

/-- Nobody stores to a directory or a table. -/
def Fenced (S : Space) : SysOp → Prop
  | .write a _ => a ∉ walkTables S.mem.phys S.dirs
  | _ => True

def FencedRuns : Space → Prop := Reach CleanStart (fun S op => (SysLegal S op ∧ Roomy S op) ∧ Fenced S op) sysStep

variable {S S' : Space}

theorem CleanStart.start (h : CleanStart S) : SpaceStart S := by
  obtain ⟨⟨allMem, s0, m, -, hp, hi⟩, hd⟩ := h
  exact ⟨⟨allMem, s0, m, hp, hi⟩, hd⟩

/-- The first megabyte is all that is mapped, through the first table of the kernel. -/
theorem CleanStart.sole (h : CleanStart S) : Sole S.mem S.dirs := by
  obtain ⟨⟨allMem, s0, m, hclean, hp, hi⟩, hd⟩ := h
  rw [memPoolInit_eq] at hi
  have hphys : S.mem.phys = setupPage m := by rw [← Except.ok.inj hi, poolsInit_phys, hp]
  have hlay := hclean.layout
  have hpde : ∀ j, j < 768 → Present ((setupPage m).read32 (pageDirTablePos + j * 4)) → j = 0 := by
    intro j hj hpj
    rw [setupPage_user hj] at hpj
    by_contra hne
    rw [if_neg hne] at hpj
    exact absurd hpj (by decide)
  have h0 : (setupPage m).read32 (pageDirTablePos + 0 * 4) = kernelTable 768 ||| pgAttr :=
    (setupPage_user (by omega)).trans (if_pos rfl)
  have hslot : slot pageDirTablePos 0 = (none, 768) := by decide
  have hpte : ∀ va, va < 0xffc00000 → Present (pteWord (setupPage m) pageDirTablePos va) →
      slot pageDirTablePos (pdeIdx va) = (none, 768) ∧ pteIdx va < 256 ∧
        pteWord (setupPage m) pageDirTablePos va = pteIdx va * 4096 + 7 := by
    intro va hv hpv
    have htr := translate_pteWord (setupPage m) pageDirTablePos va
    rw [if_pos hpv] at htr
    by_cases hlow : va < 0x100000 ∨ 0xc0000000 ≤ va ∧ va < 0xc0100000
    · have hidx : (pdeIdx va = 0 ∨ pdeIdx va = 768) ∧ pteIdx va < 256 := by
        unfold pdeIdx pteIdx
        omega
      have hw : (setupPage m).read32 (pageDirTablePos + pdeIdx va * 4) = kernelTable 768 ||| pgAttr := by
        rcases hidx.1 with e | e
        · rw [e]; exact h0
        · rw [e]; exact setupPage_kernel (by omega) (by omega)
      refine ⟨?_, hidx.2, ?_⟩
      · rcases hidx.1 with e | e
        · rw [e]; exact hslot
        · rw [e]; exact slot_kernel _ (Nat.le_refl _)
      · unfold pteWord pteAt
        rw [hw, if_pos (present_or_attr (kernelTable_aligned _)), frameOf_or_attr (kernelTable_aligned _)]
        exact setupPage_pte hidx.2
    · rw [not_or] at hlow
      rw [hlay.nothing va hv hlow.1 hlow.2] at htr
      cases htr
  have hframe : ∀ va, va < 0xffc00000 → Present (pteWord (setupPage m) pageDirTablePos va) →
      frameOf (pteWord (setupPage m) pageDirTablePos va) = pteIdx va * 4096 ∧ pteIdx va < 256 := by
    intro va hv hpv
    obtain ⟨-, hlt, hw⟩ := hpte va hv hpv
    rw [hw]
    refine ⟨?_, hlt⟩
    unfold frameOf
    omega
  rw [hd]
  refine ⟨fun _ => ?_, List.forall_mem_singleton.mpr ?_, List.forall_mem_singleton.mpr (List.forall_mem_singleton.mpr ?_),
    List.forall_mem_singleton.mpr ?_, List.forall_mem_singleton.mpr (List.forall_mem_singleton.mpr ?_),
    List.forall_mem_singleton.mpr ?_, List.forall_mem_singleton.mpr ?_, List.forall_mem_singleton.mpr ?_,
    List.forall_mem_singleton.mpr ?_⟩
  all_goals rw [hphys]
  · exact h0
  · intro j hj hpj
    rw [hpde j hj hpj]
    exact .inl hslot
  · intro j j' hj hj' hpj hpj' _
    rw [hpde j hj hpj, hpde j' hj' hpj']
  · intro va hv hpv
    obtain ⟨he, hlt⟩ := hframe va hv hpv
    exact .inr ⟨(hpte va hv hpv).1, by omega⟩
  · intro va va' hv hv' hpv hpv' hu _
    obtain ⟨he, hlt⟩ := hframe va hv hpv
    unfold usedMem at hu
    omega
  · intro va hv hpv
    obtain ⟨he, hlt⟩ := hframe va hv hpv
    refine List.forall_mem_singleton.mpr fun j hj hpj => ?_
    have hT : pageDirTablePos ≤ frameOf ((setupPage m).read32 (pageDirTablePos + j * 4)) := by
      by_cases hu : j < 768
      · rw [hpde j hu hpj, h0, frameOf_or_attr (kernelTable_aligned _)]
        decide
      · rw [setupPage_kernel (by omega) hj, frameOf_or_attr (kernelTable_aligned _)]
        unfold kernelTable
        omega
    unfold pageDirTablePos at hT ⊢
    unfold pageDirTablePos at he
    omega
  · intro va hv hpv _
    rw [(hpte va hv hpv).1]
  · intro j hj hpj
    rw [hpde j hj hpj, h0]
    exact or_attr_open (kernelTable_aligned _)
  · intro va hv hpv
    rw [(hpte va hv hpv).2.2]
    unfold pgAttr
    omega

theorem Sole.activate (h : Sole s dirs) (dir : Nat) (cur : Caller) : Sole (s.activate dir cur) dirs :=
  ⟨h.low, h.owned, h.cross, h.held, h.sole, h.noTable, h.noDir, h.pdeOpen, h.pteOpen⟩

theorem Sole.step {op : SysOp} (h : Sole S.mem S.dirs) (hs : Sound S) (hl : SysLegal S op) (hr : Roomy S op) (hf : Fenced S op)
    (he : sysStep S op = .ok S') : Sole S'.mem S'.dirs := by
  cases op with
  | request dir cur r =>
    obtain ⟨hd, -, hlegal⟩ := hl
    obtain ⟨⟨v, s⟩, hrun, he⟩ := bind_ok_iff.mp he
    cases he
    have hh := hs.healthy.activate dir cur
    cases r with
    | getUserPages n => exact (h.activate dir cur).getUserPages hh hd hlegal hr hrun
    | getAPage pf va => exact (h.activate dir cur).getAPage hh hd hlegal hr hrun
    | threadStart a => exact (h.activate dir cur).threadStart hh hd hlegal hrun
  | getKernelPages dir cur n =>
    obtain ⟨⟨v, s⟩, hrun, he⟩ := bind_ok_iff.mp he
    cases he
    exact (h.activate dir cur).getKernelPages (hs.healthy.activate dir cur) hl.1 hrun
  | createPageDir dir cur =>
    obtain ⟨⟨v, s⟩, hrun, he⟩ := bind_ok_iff.mp he
    simp only at he
    rcases (h.activate dir cur).createPageDir (hs.healthy.activate dir cur) hl.1 hrun with ⟨hv, hsole⟩ | ⟨hv, F, hat, hsole⟩
    · rw [if_pos hv] at he
      cases he
      exact hsole
    · rw [if_neg hv, hat] at he
      cases he
      exact hsole
  | write a b =>
    cases he
    exact h.stores (kept_phys _ _).stays fun x hx => Bytes.write8_ne _ _ fun e => hf (e ▸ hx)

theorem FencedRuns.inv (h : FencedRuns S) : Sound S ∧ Sole S.mem S.dirs :=
  Reach.invariant (P := fun S => Sound S ∧ Sole S.mem S.dirs) (fun _ hs => ⟨Sound.first hs.start, hs.sole⟩)
    (fun _ _ _ hi hl he => ⟨hi.1.step hl.1.1 hl.1.2 he, hi.2.step hi.1 hl.1.1 hl.1.2 hl.2 he⟩) h

/-- After `setup_page` on cleared memory. -/
theorem bootMem_clean (allMem : Nat) : CleanStart ⟨poolsInit allMem bootMem, [pageDirTablePos]⟩ := by
  refine ⟨⟨allMem, bootMem, fun _ => 0, fun a _ _ _ hp => ?_, by simp only [bootMem], memPoolInit_eq _ _⟩, rfl⟩
  rw [Bytes.read32_of_zero fun _ _ => rfl] at hp
  exact absurd hp (by decide)

theorem bootSpace_fenced : FencedRuns bootSpace := .first (bootMem_clean 0x2000000)

/-! ## Protection -/

/-- What an entry allows ring 3: U/S, and R/W for a write. -/
def Allows (write : Bool) (e : Nat) : Prop := e / 4 % 2 = 1 ∧ (write = true → e / 2 % 2 = 1)

instance (write : Bool) (e : Nat) : Decidable (Allows write e) := inferInstanceAs (Decidable (_ ∧ _))

/-- The walk for an access from ring 3: both entries have to allow it. -/
def translateUser (m : Bytes) (cr3 vaddr : Nat) (write : Bool) : Option Nat :=
  let pde := m.read32 (cr3 + pdeIdx vaddr * 4)
  if Present pde ∧ Allows write pde then
    let pte := m.read32 (frameOf pde + pteIdx vaddr * 4)
    if Present pte ∧ Allows write pte then some (frameOf pte + vaddr % 2 ^ 12) else none
  else none

theorem allows_of_open {e : Nat} (h : e % 8 = pgAttr) (write : Bool) : Allows write e := by
  unfold pgAttr at h
  exact ⟨by omega, fun _ => by omega⟩

/-- Every entry of a directory allows everything, the self map included. -/
theorem Sole.pde_open (h : Sole s dirs) (hi : SpaceInv s dirs) (hd : d ∈ dirs) (hj : j < 1024)
    (hp : Present (s.phys.read32 (d + j * 4))) : s.phys.read32 (d + j * 4) % 8 = pgAttr := by
  by_cases hu : j < 768
  · exact h.pdeOpen d hd j hu hp
  · by_cases hk : j < 1023
    · rw [hi.kernel d hd j (by omega) hk]
      exact or_attr_open (kernelTable_aligned j)
    · have e : j = 1023 := by omega
      rw [e, hi.own d hd]
      exact or_attr_open (hi.known d hd).1

/-- The entry that the walk of `va` ends at. -/
theorem Sole.pte_open (h : Sole s dirs) (hi : SpaceInv s dirs) (hd : d ∈ dirs) (hv : va < 2 ^ 32)
    (hp : Present (s.phys.read32 (d + pdeIdx va * 4))) (hp' : Present (s.phys.read32 (pteAt s.phys d va))) :
    s.phys.read32 (pteAt s.phys d va) % 8 = pgAttr := by
  by_cases hw : va < 0xffc00000
  · have hword : pteWord s.phys d va = s.phys.read32 (pteAt s.phys d va) := if_pos hp
    have hopen := h.pteOpen d hd va hw (by rw [hword]; exact hp')
    rw [hword] at hopen
    exact hopen
  · -- in the window on the tables the entries of the directory are walked twice
    have hat : pteAt s.phys d va = d + pteIdx va * 4 := by
      have e : pdeIdx va = 1023 := by unfold pdeIdx; omega
      unfold pteAt
      rw [e, hi.own d hd, frameOf_or_attr (hi.known d hd).1]
    rw [hat] at hp' ⊢
    exact h.pde_open hi hd (pteIdx_lt va) hp'

/-- Ring 3 may read and write all that is mapped: the kernel's pages, and in the window the tables. -/
theorem runs_unprotected (h : FencedRuns S) {dir : Nat} (hd : dir ∈ S.dirs) {vaddr : Nat} (hv : vaddr < 2 ^ 32) (write : Bool) :
    translateUser S.mem.phys dir vaddr write = translate S.mem.phys dir vaddr := by
  obtain ⟨hs, hsole⟩ := h.inv
  have hi := hs.healthy.toSpaceInv
  unfold translateUser translate
  by_cases hp : Present (S.mem.phys.read32 (dir + pdeIdx vaddr * 4))
  · have ha := allows_of_open (hsole.pde_open hi hd (pdeIdx_lt hv) hp) write
    simp only [if_pos hp, if_pos (And.intro hp ha)]
    by_cases hp' : Present (S.mem.phys.read32 (frameOf (S.mem.phys.read32 (dir + pdeIdx vaddr * 4)) + pteIdx vaddr * 4))
    · have ha' := allows_of_open (hsole.pte_open hi hd hv hp hp') write
      unfold pteAt at ha'
      rw [if_pos hp', if_pos ⟨hp', ha'⟩]
    · rw [if_neg hp', if_neg fun e => hp' e.1]
  · simp only [if_neg hp, if_neg (fun e : _ ∧ _ => hp e.1)]

theorem bootSpace_unprotected :
    translateUser bootSpace.mem.phys pageDirTablePos 0xfffff000 true =
      translate bootSpace.mem.phys pageDirTablePos 0xfffff000 :=
  runs_unprotected bootSpace_fenced (List.mem_singleton.mpr rfl) (by decide) true

end TinyOs.Memory
