/-
  TinyOs.Logic.Links — doubly linked chains in a shared map of links.

  A `Links α` gives every address its `prev` and `next` word. A chain is a list of
  addresses in which each neighbour pair points at one another; a family of chains
  (`Rep`) is separated when no address is on two of them or twice on one. Splicing an
  address in (`insertBefore`) or out (`remove`) writes the words of at most three
  addresses, so it rewrites one chain of the family and leaves the others as they were.

  Proved:
  - `Chain.congr`: a chain depends only on the `next` words of all but its last
    address and the `prev` words of all but its first.
  - `Rep.insertBefore` / `Rep.remove`: what the two operations do to the whole family.
-/

import Mathlib.Data.List.Chain
import Mathlib.Data.List.Iterate
import Mathlib.Data.Set.Basic
import Mathlib.Logic.Function.Basic

namespace TinyOs.Logic

structure Links (α : Type*) where
  prev : α → α
  next : α → α

namespace Links

variable {α : Type*}

/-! ## Chains -/

def Linked (m : Links α) (a b : α) : Prop := m.next a = b ∧ m.prev b = a

def Chain (m : Links α) (l : List α) : Prop := l.IsChain (Linked m)

theorem Chain.congr {m m' : Links α} {l : List α} (h : Chain m l)
    (hn : ∀ a ∈ l.dropLast, m'.next a = m.next a) (hp : ∀ b ∈ l.tail, m'.prev b = m.prev b) : Chain m' l := by
  unfold Chain at h ⊢
  induction l with
  | nil => exact .nil
  | cons a l ih =>
    cases l with
    | nil => exact .singleton a
    | cons b l =>
      obtain ⟨⟨h1, h2⟩, hc⟩ := List.isChain_cons_cons.mp h
      refine List.isChain_cons_cons.mpr ⟨⟨?_, ?_⟩, ih hc (fun x hx => ?_) (fun x hx => ?_)⟩
      · rw [hn a (by simp), h1]
      · rw [hp b (by simp), h2]
      · exact hn x (by simp [hx])
      · exact hp x (List.mem_cons_of_mem _ hx)

/-- A chain cut between two neighbours. -/
theorem chain_cut {m : Links α} {A B : List α} {p b : α} :
    Chain m (A ++ p :: b :: B) ↔ Chain m (A ++ [p]) ∧ Linked m p b ∧ Chain m (b :: B) :=
  List.isChain_append_cons_cons

theorem chain_pair {m : Links α} {a b : α} : Chain m [a, b] ↔ Linked m a b := by
  simp [Chain]

/-- Every node behind the first has its predecessor in the chain. -/
theorem Chain.prev_mem {m : Links α} {a y : α} {l : List α} (h : Chain m (a :: l)) (hy : y ∈ l) : m.prev y ∈ a :: l := by
  induction l generalizing a with
  | nil => cases hy
  | cons b l ih =>
    obtain ⟨hab, hc⟩ := List.isChain_cons_cons.mp h
    rcases List.mem_cons.mp hy with rfl | hy
    · rw [hab.2]; exact List.mem_cons_self
    · exact List.mem_cons_of_mem _ (ih hc hy)

theorem mem_snoc_dropLast {A : List α} {p a : α} (h : a ∈ (A ++ [p]).dropLast) : a ∈ A := by
  simpa using h

/-- Following `next` from the first address of a chain visits the others in order. -/
theorem Chain.iterate_next {m : Links α} {a : α} {l : List α} (h : Chain m (a :: l)) :
    List.iterate m.next (m.next a) l.length = l := by
  induction l generalizing a with
  | nil => rfl
  | cons b l ih =>
    obtain ⟨⟨hn, -⟩, hc⟩ := List.isChain_cons_cons.mp h
    rw [List.length_cons, List.iterate, hn, ih hc]

/-- And following `prev` from the last one visits them in reverse. -/
theorem Chain.iterate_prev {m : Links α} {a : α} {l : List α} (h : Chain m (l ++ [a])) :
    List.iterate m.prev (m.prev a) l.length = l.reverse := by
  induction l using List.reverseRecOn generalizing a with
  | nil => rfl
  | append_singleton l b ih =>
    rw [List.append_assoc] at h
    obtain ⟨hc, ⟨-, hp⟩, -⟩ := chain_cut.mp h
    rw [List.length_append, List.length_singleton, List.iterate, hp, ih hc, List.reverse_append]
    rfl

/-! ## Splicing one chain -/

variable [DecidableEq α]

def setNext (m : Links α) (a b : α) : Links α := { m with next := Function.update m.next a b }

def setPrev (m : Links α) (a b : α) : Links α := { m with prev := Function.update m.prev a b }

/-- Four writes, each reading the links the earlier ones left. -/
def insertBefore (m : Links α) (before elem : α) : Links α :=
  let m := m.setNext (m.prev before) elem
  let m := m.setPrev elem (m.prev before)
  let m := m.setNext elem before
  m.setPrev before elem

def remove (m : Links α) (elem : α) : Links α :=
  let m := m.setNext (m.prev elem) (m.next elem)
  m.setPrev (m.next elem) (m.prev elem)

@[simp] theorem setNext_prev (m : Links α) (a b : α) : (m.setNext a b).prev = m.prev := rfl
@[simp] theorem setPrev_next (m : Links α) (a b : α) : (m.setPrev a b).next = m.next := rfl
@[simp] theorem setNext_next (m : Links α) (a b c : α) :
    (m.setNext a b).next c = if c = a then b else m.next c := by simp [setNext, Function.update_apply]
@[simp] theorem setPrev_prev (m : Links α) (a b c : α) :
    (m.setPrev a b).prev c = if c = a then b else m.prev c := by simp [setPrev, Function.update_apply]

theorem insertBefore_next {m : Links α} {before elem a : α} :
    (m.insertBefore before elem).next a = if a = elem then before else if a = m.prev before then elem else m.next a := by
  simp [insertBefore]

theorem insertBefore_prev {m : Links α} {before elem a : α} :
    (m.insertBefore before elem).prev a = if a = before then elem else if a = elem then m.prev before else m.prev a := by
  simp [insertBefore]

theorem remove_next {m : Links α} {elem a : α} :
    (m.remove elem).next a = if a = m.prev elem then m.next elem else m.next a := by
  simp [remove]

theorem remove_prev {m : Links α} {elem a : α} (h : m.prev elem ≠ elem) :
    (m.remove elem).prev a = if a = m.next elem then m.prev elem else m.prev a := by
  simp [remove, Ne.symm h]

theorem Chain.insertBefore {m : Links α} {A B : List α} {p b x : α} (h : Chain m (A ++ p :: b :: B))
    (hnd : (A ++ p :: b :: B).Nodup) (hx : x ∉ A ++ p :: b :: B) :
    Chain (m.insertBefore b x) (A ++ p :: x :: b :: B) := by
  obtain ⟨hA, ⟨-, hpb⟩, hB⟩ := chain_cut.mp h
  simp only [List.mem_append, List.mem_cons, not_or] at hx
  obtain ⟨hxA, hxp, hxb, hxB⟩ := hx
  have hpA : p ∉ A := fun hm => by
    have := List.nodup_append.mp hnd
    exact this.2.2 p hm p (by simp) rfl
  have hbA : b ∉ A := fun hm => by
    have := List.nodup_append.mp hnd
    exact this.2.2 b hm b (by simp) rfl
  have htl := (List.nodup_append.mp hnd).2.1
  have hpbne : p ≠ b := fun e => by subst e; simp at htl
  have hpB : p ∉ B := fun hm => by
    simp only [List.nodup_cons, List.mem_cons, not_or] at htl
    exact htl.1.2 hm
  have hbB : b ∉ B := fun hm => by
    simp only [List.nodup_cons] at htl
    exact htl.2.1 hm
  refine chain_cut.mpr ⟨hA.congr (fun a ha => ?_) (fun a ha => ?_), ⟨?_, ?_⟩, ?_⟩
  · have ha := mem_snoc_dropLast ha
    have h1 : a ≠ x := fun e => hxA (e ▸ ha)
    have h2 : a ≠ p := fun e => hpA (e ▸ ha)
    simp [insertBefore_next, hpb, h1, h2]
  · have ha := List.mem_of_mem_tail ha
    have h1 : a ≠ b := fun e => by subst e; simp [hbA, Ne.symm hpbne] at ha
    have h2 : a ≠ x := fun e => by subst e; simp [hxA, hxp] at ha
    simp [insertBefore_prev, h1, h2]
  · simp [insertBefore_next, hpb, Ne.symm hxp]
  · simp [insertBefore_prev, hpb, hxb]
  · refine List.isChain_cons_cons.mpr ⟨⟨by simp [insertBefore_next], by simp [insertBefore_prev]⟩,
      hB.congr (fun a ha => ?_) (fun a ha => ?_)⟩
    · have ha := (List.dropLast_sublist _).subset ha
      have h1 : a ≠ x := fun e => by subst e; simp [hxb, hxB] at ha
      have h2 : a ≠ p := fun e => by subst e; simp [hpbne, hpB] at ha
      simp [insertBefore_next, hpb, h1, h2]
    · have h1 : a ≠ b := fun e => hbB (e ▸ ha)
      have h2 : a ≠ x := fun e => hxB (e ▸ ha)
      simp [insertBefore_prev, h1, h2]

theorem Chain.remove {m : Links α} {A B : List α} {p x b : α} (h : Chain m (A ++ p :: x :: b :: B))
    (hnd : (A ++ p :: x :: b :: B).Nodup) : Chain (m.remove x) (A ++ p :: b :: B) := by
  obtain ⟨hA, ⟨-, hpx⟩, hxB⟩ := chain_cut.mp h
  obtain ⟨⟨hxb, -⟩, hB⟩ := List.isChain_cons_cons.mp hxB
  have hap := (List.nodup_append.mp hnd).2.2
  have htl := (List.nodup_append.mp hnd).2.1
  simp only [List.nodup_cons, List.mem_cons, not_or] at htl
  obtain ⟨⟨hpxne, hpb, hpB⟩, ⟨-, -⟩, hbB, -⟩ := htl
  refine chain_cut.mpr ⟨hA.congr (fun a ha => ?_) (fun a ha => ?_), ⟨?_, ?_⟩,
    Chain.congr hB (fun a ha => ?_) (fun a ha => ?_)⟩
  · have h1 : a ≠ p := fun e => hap a (mem_snoc_dropLast ha) p (by simp) e
    simp [remove_next, hpx, h1]
  · have hab : a ≠ b := by
      intro e
      subst e
      rcases List.mem_append.mp (List.mem_of_mem_tail ha) with hm | hm
      · exact hap a hm a (by simp) rfl
      · exact hpb (List.mem_singleton.mp hm).symm
    rw [remove_prev (by rw [hpx]; exact hpxne)]
    simp [hxb, hab]
  · simp [remove_next, hpx, hxb]
  · rw [remove_prev (by rw [hpx]; exact hpxne)]
    simp [hxb, hpx]
  · have h1 : a ≠ p := fun e => by
      have := (List.dropLast_sublist _).subset ha
      subst e; simp [hpb, hpB] at this
    simp [remove_next, hpx, h1]
  · have h1 : a ≠ b := fun e => hbB (e ▸ ha)
    rw [remove_prev (by rw [hpx]; exact hpxne)]
    simp [hxb, h1]

/-! ## Families of chains -/

variable {ι : Type*} [DecidableEq ι]

/-- The chains of `I` have the contents `L`, and share no address. -/
structure Rep (m : Links α) (I : Set ι) (L : ι → List α) : Prop where
  chain : ∀ i ∈ I, Chain m (L i)
  nodup : ∀ i ∈ I, (L i).Nodup
  disjoint : ∀ i ∈ I, ∀ j ∈ I, i ≠ j → ∀ a ∈ L i, a ∉ L j

theorem Rep.insertBefore {m : Links α} {I : Set ι} {L : ι → List α} (h : Rep m I L) {i : ι} (hi : i ∈ I)
    {A B : List α} {p b x : α} (hL : L i = A ++ p :: b :: B) (hx : ∀ j ∈ I, x ∉ L j) :
    Rep (m.insertBefore b x) I (Function.update L i (A ++ p :: x :: b :: B)) := by
  have hc := h.chain i hi
  have hnd := h.nodup i hi
  have hxi := hx i hi
  rw [hL] at hc hnd hxi
  have hpb : m.prev b = p := (chain_cut.mp hc).2.1.2
  have hperm : (A ++ p :: x :: b :: B).Perm (x :: (A ++ p :: b :: B)) := by
    have h1 : A ++ p :: x :: b :: B = (A ++ [p]) ++ x :: (b :: B) := by simp
    have h2 : A ++ p :: b :: B = (A ++ [p]) ++ (b :: B) := by simp
    rw [h1, h2]; exact List.perm_middle
  have hmem : ∀ a, a ∈ A ++ p :: x :: b :: B ↔ a = x ∨ a ∈ L i := fun a => by
    rw [hperm.mem_iff, List.mem_cons, hL]
  refine ⟨fun j hj => ?_, fun j hj => ?_, fun j hj k hk hjk a ha => ?_⟩
  · by_cases e : j = i
    · subst e; rw [Function.update_self]; exact hc.insertBefore hnd hxi
    · rw [Function.update_of_ne e]
      -- none of the three addresses written is on another chain
      have hb : b ∉ L j := h.disjoint i hi j hj (Ne.symm e) b (by simp [hL])
      have hp : p ∉ L j := h.disjoint i hi j hj (Ne.symm e) p (by simp [hL])
      refine (h.chain j hj).congr (fun a ha => ?_) (fun a ha => ?_)
      · have ha := (List.dropLast_sublist _).subset ha
        have h1 : a ≠ x := fun e => hx j hj (e ▸ ha)
        have h2 : a ≠ p := fun e => hp (e ▸ ha)
        simp [insertBefore_next, hpb, h1, h2]
      · have ha := List.mem_of_mem_tail ha
        have h1 : a ≠ b := fun e => hb (e ▸ ha)
        have h2 : a ≠ x := fun e => hx j hj (e ▸ ha)
        simp [insertBefore_prev, h1, h2]
  · by_cases e : j = i
    · subst e; rw [Function.update_self, hperm.nodup_iff]; exact List.nodup_cons.mpr ⟨hxi, hnd⟩
    · rw [Function.update_of_ne e]; exact h.nodup j hj
  · by_cases ej : j = i
    · subst ej
      rw [Function.update_self, hmem] at ha
      rw [Function.update_of_ne (Ne.symm hjk)]
      rcases ha with rfl | ha
      · exact hx k hk
      · exact h.disjoint j hj k hk hjk a ha
    · rw [Function.update_of_ne ej] at ha
      by_cases ek : k = i
      · subst ek
        rw [Function.update_self, hmem]
        intro hex
        rcases hex with rfl | ha'
        · exact hx j hj ha
        · exact h.disjoint j hj k hk hjk a ha ha'
      · rw [Function.update_of_ne ek]; exact h.disjoint j hj k hk hjk a ha

theorem Rep.remove {m : Links α} {I : Set ι} {L : ι → List α} (h : Rep m I L) {i : ι} (hi : i ∈ I)
    {A B : List α} {p x b : α} (hL : L i = A ++ p :: x :: b :: B) :
    Rep (m.remove x) I (Function.update L i (A ++ p :: b :: B)) := by
  have hc := h.chain i hi
  have hnd := h.nodup i hi
  rw [hL] at hc hnd
  have hpx : m.prev x = p := (chain_cut.mp hc).2.1.2
  have hxb : m.next x = b := (List.isChain_cons_cons.mp (chain_cut.mp hc).2.2).1.1
  have hpne : m.prev x ≠ x := by
    have := (List.nodup_append.mp hnd).2.1
    rw [hpx]; rintro rfl; simp at this
  have hsub : (A ++ p :: b :: B).Sublist (A ++ p :: x :: b :: B) := by simp
  have hmem : ∀ a, a ∈ A ++ p :: b :: B → a ∈ L i := fun a ha => hL ▸ hsub.subset ha
  refine ⟨fun j hj => ?_, fun j hj => ?_, fun j hj k hk hjk a ha => ?_⟩
  · by_cases e : j = i
    · subst e; rw [Function.update_self]; exact hc.remove hnd
    · rw [Function.update_of_ne e]
      have hb : b ∉ L j := h.disjoint i hi j hj (Ne.symm e) b (by simp [hL])
      have hp : p ∉ L j := h.disjoint i hi j hj (Ne.symm e) p (by simp [hL])
      refine (h.chain j hj).congr (fun a ha => ?_) (fun a ha => ?_)
      · have h1 : a ≠ p := fun e => hp (e ▸ (List.dropLast_sublist _).subset ha)
        simp [remove_next, hpx, h1]
      · have h1 : a ≠ b := fun e => hb (e ▸ List.mem_of_mem_tail ha)
        rw [remove_prev hpne]; simp [hxb, h1]
  · by_cases e : j = i
    · subst e; rw [Function.update_self]; exact hsub.nodup hnd
    · rw [Function.update_of_ne e]; exact h.nodup j hj
  · by_cases ej : j = i
    · subst ej
      rw [Function.update_self] at ha
      rw [Function.update_of_ne (Ne.symm hjk)]
      exact h.disjoint j hj k hk hjk a (hmem a ha)
    · rw [Function.update_of_ne ej] at ha
      by_cases ek : k = i
      · subst ek
        rw [Function.update_self]
        exact fun ha' => h.disjoint j hj k hk hjk a ha (hmem a ha')
      · rw [Function.update_of_ne ek]; exact h.disjoint j hj k hk hjk a ha

end Links

end TinyOs.Logic
