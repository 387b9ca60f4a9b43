/-
  TinyOs.Memory.Handouts — which frames `palloc` has given out.

  From mem_pool_init on, `palloc` on both pools and `vaddr_get` on the heap run in any
  order. Nothing here gives a frame back, so the results are kept in one list a pool.
  The three bitmaps lie back to back: `palloc` marks a byte of its own, and `vaddr_get`,
  whose range may end one bit past the heap, marks bytes of the heap's map or behind
  it, which is the last of the three.

  `handouts_sound`: the frames given out are distinct, aligned and in their own pool,
  and a pool answers NULL only with every bit of its map given out.
-/

import Mathlib.Data.List.Nodup
import TinyOs.Memory.Failures

namespace TinyOs.Memory

open TinyOs.Kernel TinyOs.Lib TinyOs.Logic

structure Handouts where
  mem : Mem
  /-- The non-NULL results of `palloc`, the last one first. -/
  handed : PoolFlags → List Nat

inductive HandOp where
  | palloc (pf : PoolFlags)
  | vaddrGet (pgCnt : Nat)

def handStep (g : Handouts) : HandOp → Except Stop Handouts
  | .palloc pf => do
    let (r, s) ← palloc pf g.mem
    .ok ⟨s, if r = 0 then g.handed else Function.update g.handed pf (r :: g.handed pf)⟩
  | .vaddrGet pgCnt => do
    let (_, s) ← vaddrGet .kernel pgCnt g.mem
    .ok ⟨s, g.handed⟩

def HandLegal (_ : Handouts) : HandOp → Prop
  | .palloc _ => True
  | .vaddrGet pgCnt => 1 ≤ pgCnt

def HandStart (allMem : Nat) (s0 : Mem) (g : Handouts) : Prop :=
  memPoolInit allMem s0 = .ok g.mem ∧ ∀ pf, g.handed pf = []

def HandRuns (allMem : Nat) (s0 : Mem) : Handouts → Prop := Reach (HandStart allMem s0) HandLegal handStep

/-- `pool_size` of a pool. -/
def poolSize (allMem : Nat) : PoolFlags → Nat
  | .kernel => kernelFreePages allMem * pgSize
  | .user => userFreePages allMem * pgSize

/-! ## Three maps in one memory -/

theorem mark_eqOn {b b' : Bitmap} (m : Bytes) {i : Nat} (hi : i < 8 * b.btmpBytesLen)
    (hd : ∀ x ∈ b.area, x ∉ b'.area) : Set.EqOn (b.mark m i) m b'.area := by
  intro x hx
  apply mark_of_ne
  intro e
  refine hd x ?_ hx
  exact Set.mem_Ico.mpr ⟨by omega, by omega⟩

theorem area_disjoint (allMem : Nat) (s0 : Mem) {pf pf' : PoolFlags} (hne : pf ≠ pf') :
    ∀ x ∈ ((poolsInit allMem s0).pool pf).poolBitmap.area, x ∉ ((poolsInit allMem s0).pool pf').poolBitmap.area := by
  have hlow : ∀ x ∈ (kernelBitmap allMem).area, x ∉ (userBitmap allMem).area := by
    intro x hk hu
    have hk := (Set.mem_Ico.mp hk).2
    have hu := (Set.mem_Ico.mp hu).1
    unfold kernelBitmap at hk
    unfold userBitmap at hu
    simp only at hk hu
    omega
  cases pf
  · cases pf'
    · exact absurd rfl hne
    · exact hlow
  · cases pf'
    · exact fun x hu hk => hlow x hk hu
    · exact absurd rfl hne

/-- Both pools' maps lie below the heap's. -/
theorem area_below_heap (allMem : Nat) (s0 : Mem) (pf : PoolFlags) :
    ∀ x ∈ ((poolsInit allMem s0).pool pf).poolBitmap.area, x < (kernelVaddrBitmap allMem).bits := by
  intro x hx
  have hx := (Set.mem_Ico.mp hx).2
  cases pf with
  | kernel =>
    change x < memBitmapBase + kbmLength allMem at hx
    show x < memBitmapBase + kbmLength allMem + ubmLength allMem
    omega
  | user => exact hx

/-! ## Given out -/

/-- The bits of a pool's map are the frames given out. -/
structure HandInv (allMem : Nat) (s0 : Mem) (g : Handouts) : Prop where
  pool : g.mem.pool = (poolsInit allMem s0).pool
  kernelVaddr : g.mem.kernelVaddr = kernelHeap allMem
  taken : ∀ pf i, i < g.mem.frames pf → (g.mem.Taken pf i ↔ (g.mem.pool pf).frame i ∈ g.handed pf)
  inPool : ∀ pf, ∀ f ∈ g.handed pf, ∃ i, i < g.mem.frames pf ∧ f = (g.mem.pool pf).frame i
  nodup : ∀ pf, (g.handed pf).Nodup

variable {allMem : Nat} {s0 : Mem} {g g' : Handouts}

theorem HandInv.first (h : HandStart allMem s0 g) : HandInv allMem s0 g := by
  obtain ⟨hm, hnone⟩ := h
  rw [memPoolInit_eq] at hm
  have hm := (Except.ok.inj hm).symm
  refine ⟨congrArg Mem.pool hm, congrArg Mem.kernelVaddr hm, fun pf i hi => ?_, fun pf f hf => ?_, fun pf => ?_⟩
  · rw [hnone, hm] at *
    exact iff_of_false (poolsInit_free allMem s0 pf hi) List.not_mem_nil
  · rw [hnone] at hf
    cases hf
  · rw [hnone]
    exact List.nodup_nil

/-- A bit of one pool's map is set: no bit of the other map changes. -/
theorem HandInv.taken_take (hi : HandInv allMem s0 g) {pf pf' : PoolFlags} {i j : Nat} (hlt : i < g.mem.frames pf)
    (hj : j < g.mem.frames pf') : (g.mem.take pf i).Taken pf' j ↔ g.mem.Taken pf' j ∨ (pf' = pf ∧ j = i) := by
  by_cases e : pf' = pf
  · subst e
    simp only [true_and]
    exact used_mark
  · have hd : ∀ x ∈ (g.mem.pool pf).poolBitmap.area, x ∉ (g.mem.pool pf').poolBitmap.area := by
      rw [hi.pool]
      exact area_disjoint allMem s0 (Ne.symm e)
    simp only [e, false_and, or_false]
    exact used_congr (mark_eqOn g.mem.data hlt hd) hj

theorem HandInv.palloc (hi : HandInv allMem s0 g) {pf : PoolFlags} {i : Nat} (hlt : i < g.mem.frames pf)
    (hfree : ¬ g.mem.Taken pf i) :
    HandInv allMem s0 ⟨g.mem.take pf i, Function.update g.handed pf ((g.mem.pool pf).frame i :: g.handed pf)⟩ := by
  have hnew : (g.mem.pool pf).frame i ∉ g.handed pf := fun hm => hfree ((hi.taken pf i hlt).mpr hm)
  refine ⟨hi.pool, hi.kernelVaddr, fun pf' j hj => ?_, fun pf' f hf => ?_, fun pf' => ?_⟩
  · rw [hi.taken_take hlt hj, hi.taken pf' j hj]
    show _ ↔ (g.mem.pool pf').frame j ∈ Function.update g.handed pf _ pf'
    by_cases e : pf' = pf
    · subst e
      rw [Function.update_self, List.mem_cons, or_comm]
      refine or_congr_left ⟨fun h => congrArg _ h.2, fun h => ⟨rfl, (g.mem.pool pf').frame_inj h⟩⟩
    · rw [Function.update_of_ne e]
      simp [e]
  · change f ∈ Function.update g.handed pf _ pf' at hf
    by_cases e : pf' = pf
    · subst e
      rw [Function.update_self, List.mem_cons] at hf
      rcases hf with rfl | hf
      · exact ⟨i, hlt, rfl⟩
      · exact hi.inPool pf' f hf
    · rw [Function.update_of_ne e] at hf
      exact hi.inPool pf' f hf
  · show (Function.update g.handed pf _ pf').Nodup
    by_cases e : pf' = pf
    · subst e
      rw [Function.update_self]
      exact List.nodup_cons.mpr ⟨hnew, hi.nodup pf'⟩
    · rw [Function.update_of_ne e]
      exact hi.nodup pf'

/-- What is written from the heap's map on, or behind it, is in no pool's map. -/
theorem HandInv.congr (hi : HandInv allMem s0 g) {m : Bytes}
    (hx : ∀ x, x < (kernelVaddrBitmap allMem).bits → m x = g.mem.data x) :
    HandInv allMem s0 ⟨{ g.mem with data := m }, g.handed⟩ := by
  refine ⟨hi.pool, hi.kernelVaddr, fun pf i hlt => ?_, hi.inPool, hi.nodup⟩
  rw [← hi.taken pf i hlt]
  refine used_congr ?_ hlt
  intro x hm
  refine hx x (area_below_heap allMem s0 pf x ?_)
  rw [← hi.pool]
  exact hm

theorem HandInv.step (hi : HandInv allMem s0 g) {op : HandOp} (hl : HandLegal g op) (h : handStep g op = .ok g') :
    HandInv allMem s0 g' := by
  cases op with
  | palloc pf =>
    obtain ⟨⟨r, s⟩, hp, h⟩ := bind_ok_iff.mp h
    cases h
    rcases palloc_cases pf g.mem with ⟨he, -⟩ | ⟨i, hlt, hfree, -, he⟩
    · rw [he] at hp
      cases hp
      exact hi
    · rw [he] at hp
      cases hp
      have hpos := (g.mem.pool pf).frame_pos i
      simp only [if_neg (Nat.ne_of_gt hpos)]
      exact hi.palloc hlt hfree
  | vaddrGet pgCnt =>
    obtain ⟨⟨r, s⟩, hv, h⟩ := bind_ok_iff.mp h
    cases h
    rcases vaddrGet_cases hl hv with ⟨-, -, rfl⟩ | ⟨b, -, -, -, hset, hs⟩
    · exact hi
    · obtain ⟨m, hm, -, -, hx⟩ := setBits_spec (g.mem.vaddr .kernel).vaddrBitmap pgCnt b g.mem.data
      rw [hm] at hset
      have hdata : m = s.data := Except.ok.inj hset
      rw [hs, ← hdata]
      apply hi.congr
      intro x hlt
      apply hx x
      intro j _ _
      have hbits : (g.mem.vaddr .kernel).vaddrBitmap.bits = (kernelVaddrBitmap allMem).bits :=
        congrArg (fun va => va.vaddrBitmap.bits) hi.kernelVaddr
      omega

theorem handRuns_inv (h : HandRuns allMem s0 g) : HandInv allMem s0 g :=
  h.invariant (fun _ => HandInv.first) fun _ _ _ hi hl he => hi.step hl he

/-! ## What the runs give out -/

/-- A frame of a pool lies between phy_addr_start and phy_addr_start + pool_size. -/
theorem frame_in_pool (hp : g.mem.pool = (poolsInit allMem s0).pool) {pf : PoolFlags} {i : Nat}
    (hlt : i < g.mem.frames pf) : (g.mem.pool pf).phyAddrStart ≤ (g.mem.pool pf).frame i ∧
      (g.mem.pool pf).frame i + pgSize ≤ (g.mem.pool pf).phyAddrStart + poolSize allMem pf := by
  have hcap : (i + 1) * pgSize ≤ poolSize allMem pf := by
    unfold Mem.frames at hlt
    rw [hp] at hlt
    cases pf with
    | kernel =>
      change i < 8 * (kernelFreePages allMem / 8) at hlt
      exact Nat.mul_le_mul_right _ (by omega)
    | user =>
      change i < 8 * (userFreePages allMem / 8) at hlt
      exact Nat.mul_le_mul_right _ (by omega)
  unfold Pool.frame
  rw [Nat.succ_mul] at hcap
  exact ⟨by omega, by omega⟩

/-- kernel_pool ends where user_pool starts. -/
theorem HandInv.apart (hi : HandInv allMem s0 g) : ∀ f ∈ g.handed .kernel, f ∉ g.handed .user := by
  intro f hk hu
  obtain ⟨i, hlt, rfl⟩ := hi.inPool .kernel f hk
  obtain ⟨j, hlt', e⟩ := hi.inPool .user _ hu
  have hbelow := (frame_in_pool hi.pool hlt).2
  have habove := (frame_in_pool hi.pool hlt').1
  have hstart : (g.mem.pool .user).phyAddrStart = (g.mem.pool .kernel).phyAddrStart + poolSize allMem .kernel := by
    rw [hi.pool]
    rfl
  unfold pgSize at hbelow
  omega

/-- With every bit set, the frames given out are those of the pool. -/
theorem HandInv.all (hi : HandInv allMem s0 g) {pf : PoolFlags} (hall : ∀ i, i < g.mem.frames pf → g.mem.Taken pf i) :
    (g.handed pf).length = g.mem.frames pf := by
  have hnodup : ((List.range (g.mem.frames pf)).map (g.mem.pool pf).frame).Nodup :=
    List.Nodup.map (fun _ _ h => (g.mem.pool pf).frame_inj h) List.nodup_range
  have hperm : (g.handed pf).Perm ((List.range (g.mem.frames pf)).map (g.mem.pool pf).frame) := by
    refine (List.perm_ext_iff_of_nodup (hi.nodup pf) hnodup).mpr ?_
    intro f
    rw [List.mem_map]
    constructor
    · intro hf
      obtain ⟨i, hlt, e⟩ := hi.inPool pf f hf
      exact ⟨i, List.mem_range.mpr hlt, e.symm⟩
    · intro hf
      obtain ⟨i, hlt, rfl⟩ := hf
      have hlt := List.mem_range.mp hlt
      exact (hi.taken pf i hlt).mp (hall i hlt)
  rw [hperm.length_eq, List.length_map, List.length_range]

theorem handouts_sound (h : HandRuns allMem s0 g) :
    (g.handed .kernel ++ g.handed .user).Nodup ∧
      (∀ pf, ∀ f ∈ g.handed pf, f % pgSize = 0 ∧ (g.mem.pool pf).phyAddrStart ≤ f ∧
        f + pgSize ≤ (g.mem.pool pf).phyAddrStart + poolSize allMem pf) ∧
      ∀ pf s, palloc pf g.mem = .ok (0, s) → (g.handed pf).length = 8 * (g.mem.pool pf).poolBitmap.btmpBytesLen := by
  have hi := handRuns_inv h
  refine ⟨?_, fun pf f hf => ?_, fun pf s hnull => ?_⟩
  · refine List.nodup_append.mpr ⟨hi.nodup .kernel, hi.nodup .user, ?_⟩
    intro a ha b hb e
    exact hi.apart a ha (e ▸ hb)
  · obtain ⟨i, hlt, rfl⟩ := hi.inPool pf f hf
    exact ⟨(g.mem.pool pf).frame_aligned i, frame_in_pool hi.pool hlt⟩
  · exact hi.all ((palloc_null hnull).mp rfl)

/-! ### A frame of each pool, with two pages of the heap reserved in between -/

instance (g : Handouts) (op : HandOp) : Decidable (HandLegal g op) :=
  match op with
  | .palloc _ => inferInstanceAs (Decidable True)
  | .vaddrGet pgCnt => inferInstanceAs (Decidable (1 ≤ pgCnt))

def oneEach : Handouts :=
  [HandOp.palloc .kernel, .vaddrGet 2, .palloc .user].foldl (next handStep) ⟨poolsInit 0x210000 smallMem, fun _ => []⟩

theorem oneEach_runs : HandRuns 0x210000 smallMem oneEach :=
  Reach.script (.first ⟨memPoolInit_eq _ _, fun _ => rfl⟩) (by decide +kernel)

theorem oneEach_sound : oneEach.handed .kernel ++ oneEach.handed .user = [0x200000, 0x208000] ∧
    (oneEach.handed .kernel ++ oneEach.handed .user).Nodup :=
  ⟨by decide +kernel, (handouts_sound oneEach_runs).1⟩

end TinyOs.Memory
