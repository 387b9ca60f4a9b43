/-
  TinyOs.Lib.List — the intrusive lists of lib/kernel/list.c, on shared prev and next
  words.

  A `struct list` is its two sentinels, whose addresses `&plist->head` and
  `&plist->tail` never change. A list in order holds the nodes `xs` when head, `xs`
  and tail form a chain. `elemFind` follows `next` until it meets the tail: from a
  node that is no longer in the list it may run on through another list, meet a NULL
  link (a fault) or go round forever (the fuel runs out).
-/

import TinyOs.Kernel.Debug
import TinyOs.Logic.Links

namespace TinyOs.Lib

open TinyOs.Kernel TinyOs.Logic

variable {α : Type}

/-- A `struct list`, by the addresses of its sentinels. -/
structure PList (α : Type) where
  head : α
  tail : α

/-- The addresses of a list holding `xs`, sentinels included. -/
def PList.nodes (plist : PList α) (xs : List α) : List α := plist.head :: (xs ++ [plist.tail])

def IsList (m : Links α) (plist : PList α) (xs : List α) : Prop := m.Chain (plist.nodes xs)

theorem isList_nil {m : Links α} {plist : PList α} :
    IsList m plist [] ↔ m.next plist.head = plist.tail ∧ m.prev plist.tail = plist.head := by
  simp [IsList, PList.nodes, Links.Chain, Links.Linked]

theorem IsList.next_head {m : Links α} {plist : PList α} {xs : List α} (h : IsList m plist xs) :
    m.next plist.head = (xs ++ [plist.tail]).head (by simp) := by
  cases xs with
  | nil => exact (isList_nil.mp h).1
  | cons x xs => exact (List.isChain_cons_cons.mp h).1.1

/-! ## The functions of list.c -/

variable [DecidableEq α]

def listInit (null : α) (m : Links α) (plist : PList α) : Links α :=
  let m := m.setPrev plist.head null
  let m := m.setNext plist.head plist.tail
  let m := m.setPrev plist.tail plist.head
  m.setNext plist.tail null

def listEmpty (m : Links α) (plist : PList α) : Bool := m.next plist.head = plist.tail

/-- Runs with interrupts off, so no thread sees the links half written. -/
def listInsertBefore (m : Links α) (before elem : α) : Links α := m.insertBefore before elem

def listPush (m : Links α) (plist : PList α) (elem : α) : Links α := listInsertBefore m (m.next plist.head) elem

def listAppend (m : Links α) (plist : PList α) (elem : α) : Links α := listInsertBefore m plist.tail elem

def listRemove (m : Links α) (pelem : α) : Links α := m.remove pelem

def listPop (m : Links α) (plist : PList α) : α × Links α :=
  let elem := m.next plist.head
  (elem, listRemove m elem)

/-- The loop of `elem_find`, at node `elem`. -/
def elemFindFrom (null : α) (m : Links α) (plist : PList α) (obj : α) : Nat → α → Except Stop Bool
  | 0, _ => .error .diverge
  | n + 1, elem =>
    if elem = plist.tail then .ok false
    else if elem = obj then .ok true
    else if elem = null then .error .fault
    else elemFindFrom null m plist obj n (m.next elem)

def elemFind (null : α) (fuel : Nat) (m : Links α) (plist : PList α) (obj : α) : Except Stop Bool :=
  elemFindFrom null m plist obj fuel (m.next plist.head)

/-! ## What the readers answer on a list in order -/

theorem IsList.listEmpty {m : Links α} {plist : PList α} {xs : List α} (h : IsList m plist xs)
    (ht : plist.tail ∉ xs) : listEmpty m plist = xs.isEmpty := by
  unfold Lib.listEmpty
  rw [h.next_head]
  cases xs with
  | nil => simp
  | cons x xs =>
    have : x ≠ plist.tail := fun e => ht (by simp [e])
    simp [this]

/-- A walk inside a chain that ends at the tail finds `obj` exactly when it is on it. -/
theorem elemFindFrom_chain {null : α} {m : Links α} {plist : PList α} {obj : α} {xs : List α} {elem : α}
    (h : m.Chain (elem :: (xs ++ [plist.tail]))) (ht : plist.tail ∉ elem :: xs) (hn : null ∉ elem :: xs)
    {fuel : Nat} (hf : xs.length + 1 < fuel) :
    elemFindFrom null m plist obj fuel elem = .ok (decide (obj ∈ elem :: xs)) := by
  induction xs generalizing elem fuel with
  | nil =>
    obtain ⟨n, rfl⟩ : ∃ n, fuel = n + 2 := ⟨fuel - 2, by simp at hf; omega⟩
    have hnext : m.next elem = plist.tail := (List.isChain_cons_cons.mp h).1.1
    simp only [List.mem_singleton] at ht hn
    by_cases e : elem = obj
    · simp [elemFindFrom, e]
      exact fun e' => ht (e'.symm.trans e.symm)
    · simp [elemFindFrom, Ne.symm ht, Ne.symm hn, e, hnext, Ne.symm e]
  | cons x xs ih =>
    obtain ⟨n, rfl⟩ : ∃ n, fuel = n + 1 := ⟨fuel - 1, by simp at hf; omega⟩
    obtain ⟨⟨hnext, -⟩, hc⟩ := List.isChain_cons_cons.mp h
    have ht' : plist.tail ∉ x :: xs := fun hm => ht (List.mem_cons_of_mem _ hm)
    have hn' : null ∉ x :: xs := fun hm => hn (List.mem_cons_of_mem _ hm)
    have hte : elem ≠ plist.tail := fun e => ht (by simp [e])
    have hne : elem ≠ null := fun e => hn (by simp [e])
    by_cases e : elem = obj
    · subst e; simp [elemFindFrom, hte]
    · have hlen : xs.length + 1 < n := by simp at hf; omega
      have := ih hc ht' hn' hlen
      simp [elemFindFrom, hte, hne, e, hnext, this, Ne.symm e]

theorem IsList.elemFind {null : α} {m : Links α} {plist : PList α} {xs : List α} (h : IsList m plist xs)
    (ht : plist.tail ∉ xs) (hn : null ∉ xs) (obj : α) {fuel : Nat} (hf : xs.length < fuel) :
    elemFind null fuel m plist obj = .ok (decide (obj ∈ xs)) := by
  unfold Lib.elemFind
  rw [h.next_head]
  cases xs with
  | nil =>
    obtain ⟨n, rfl⟩ : ∃ n, fuel = n + 1 := ⟨fuel - 1, by simp at hf; omega⟩
    simp [elemFindFrom]
  | cons x xs => exact elemFindFrom_chain (List.isChain_cons_cons.mp h).2 ht hn (by simpa using hf)

end TinyOs.Lib
