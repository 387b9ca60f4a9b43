/-
  TinyOs.Lib.Lists — many lists on one shared memory stand for many sequences.

  `Anchors` gives every `struct list` its sentinels, at addresses of their own. A list
  comes into use by `list_init`; from then on a node may be put in front of any node or
  tail as long as it is in no list, and any node may be taken out (`LegalList`). The
  run keeps beside the links the sequence that each list is to stand for.

  `lists_refine`: in every state of every such run each list in use is well formed
  both ways, no node is in two of them, and the four readers and `list_pop` answer
  what the sequence says.
-/

import Mathlib.Data.Set.Insert
import TinyOs.Lib.List
import TinyOs.Logic.Runs

namespace TinyOs.Lib

open TinyOs.Kernel TinyOs.Logic

variable {α ι : Type}

/-! ## A family of lists -/

/-- The `struct list`s, and NULL. -/
structure Anchors (ι α : Type) where
  plist : ι → PList α
  null : α
  head_inj : ∀ i j, (plist i).head = (plist j).head → i = j
  tail_inj : ∀ i j, (plist i).tail = (plist j).tail → i = j
  head_ne_tail : ∀ i j, (plist i).head ≠ (plist j).tail

/-- An address that a `struct list_elem` outside the sentinels can have. -/
def Anchors.IsNode (A : Anchors ι α) (x : α) : Prop := x ≠ A.null ∧ ∀ i, x ≠ (A.plist i).head ∧ x ≠ (A.plist i).tail

/-- The lists of `I` hold the sequences `q`, and share no address. -/
def Holds (A : Anchors ι α) (m : Links α) (I : Set ι) (q : ι → List α) : Prop :=
  Links.Rep m I fun i => (A.plist i).nodes (q i)

theorem mem_nodes {plist : PList α} {xs : List α} {a : α} :
    a ∈ plist.nodes xs ↔ a = plist.head ∨ a ∈ xs ∨ a = plist.tail := by
  simp [PList.nodes]

theorem nodes_append (plist : PList α) (X Y : List α) :
    plist.nodes (X ++ Y) = (plist.head :: X) ++ (Y ++ [plist.tail]) := by
  simp [PList.nodes]

/-- The address in front of the part `Y` of a list, and the first one of it. -/
theorem nodes_cut (plist : PList α) (X Y : List α) :
    ∃ P p b B, plist.head :: X = P ++ [p] ∧ Y ++ [plist.tail] = b :: B := by
  obtain ⟨P, p, hP⟩ : ∃ P p, plist.head :: X = P ++ [p] :=
    ⟨_, _, (List.dropLast_append_getLast (List.cons_ne_nil _ _)).symm⟩
  obtain ⟨b, B, hB⟩ : ∃ b B, Y ++ [plist.tail] = b :: B := List.exists_cons_of_ne_nil (by simp)
  exact ⟨P, p, b, B, hP, hB⟩

theorem insertIdx_append (X Y : List α) (x : α) : (X ++ Y).insertIdx X.length x = X ++ x :: Y := by
  induction X with
  | nil => simp
  | cons y X ih => simp [ih]

/-- The links, and the sequence of each list in use. -/
structure Lists (ι α : Type) where
  mem : Links α
  seqs : ι → Option (List α)

/-- The lists in use, and their sequences. -/
def Lists.up (s : Lists ι α) : Set ι := {i | (s.seqs i).isSome}

def Lists.seq (s : Lists ι α) (i : ι) : List α := (s.seqs i).getD []

theorem Lists.seq_eq {s : Lists ι α} {i : ι} {xs : List α} (h : s.seqs i = some xs) : i ∈ s.up ∧ s.seq i = xs := by
  simp [Lists.up, Lists.seq, h]

variable [DecidableEq ι]

theorem nodes_update (A : Anchors ι α) (q : ι → List α) (i : ι) (xs : List α) :
    (fun j => (A.plist j).nodes (Function.update q i xs j)) =
      Function.update (fun j => (A.plist j).nodes (q j)) i ((A.plist i).nodes xs) := by
  funext j
  by_cases e : j = i
  · subst e; simp
  · simp [e]

theorem Lists.seq_update {s : Lists ι α} {i : ι} (mem : Links α) (hi : i ∈ s.up) (ys : List α) :
    (Lists.mk mem (Function.update s.seqs i (some ys))).up = s.up ∧
      (Lists.mk mem (Function.update s.seqs i (some ys))).seq = Function.update s.seq i ys := by
  constructor
  · ext j
    by_cases e : j = i
    · subst e
      have hi : (s.seqs j).isSome = true := hi
      simp [Lists.up, hi]
    · simp [Lists.up, e]
  · funext j
    by_cases e : j = i
    · subst e; simp [Lists.seq]
    · simp [Lists.seq, e]

variable [DecidableEq α] {A : Anchors ι α} {m : Links α} {I : Set ι} {q : ι → List α} {i : ι} {x b : α}
  {X Y : List α}

/-- A node put in front of the part `Y` of a list. -/
theorem Holds.insert (h : Holds A m I q) (hi : i ∈ I) (hq : q i = X ++ Y) (hb : (Y ++ [(A.plist i).tail]).head? = some b)
    (hx : ∀ j ∈ I, x ∉ (A.plist j).nodes (q j)) : Holds A (m.insertBefore b x) I (Function.update q i (X ++ x :: Y)) := by
  obtain ⟨P, p, b', B, hP, hB⟩ := nodes_cut (A.plist i) X Y
  obtain rfl : b' = b := by
    rw [hB] at hb
    exact Option.some.inj hb
  have hL : (A.plist i).nodes (q i) = P ++ p :: b' :: B := by
    rw [hq, nodes_append, hP, hB]
    simp
  have hL' : (A.plist i).nodes (X ++ x :: Y) = P ++ p :: x :: b' :: B := by
    rw [nodes_append, hP, List.cons_append, hB]
    simp
  unfold Holds
  rw [nodes_update, hL']
  exact Links.Rep.insertBefore h hi hL hx

theorem Holds.remove (h : Holds A m I q) (hi : i ∈ I) (hq : q i = X ++ x :: Y) :
    Holds A (m.remove x) I (Function.update q i (X ++ Y)) := by
  obtain ⟨P, p, b, B, hP, hB⟩ := nodes_cut (A.plist i) X Y
  have hL : (A.plist i).nodes (q i) = P ++ p :: x :: b :: B := by
    rw [hq, nodes_append, hP, List.cons_append, hB]
    simp
  have hL' : (A.plist i).nodes (X ++ Y) = P ++ p :: b :: B := by
    rw [nodes_append, hP, hB]
    simp
  unfold Holds
  rw [nodes_update, hL']
  exact Links.Rep.remove h hi hL

/-- A list that comes into use. -/
theorem Holds.init (h : Holds A m I q) (hi : i ∉ I) (hn : ∀ j ∈ I, ∀ y ∈ q j, A.IsNode y) :
    Holds A (listInit A.null m (A.plist i)) (Set.insert i I) (Function.update q i []) := by
  have hne : (A.plist i).head ≠ (A.plist i).tail := A.head_ne_tail i i
  -- the two sentinels are on no list in use
  have hoff : ∀ j ∈ I, ∀ a ∈ (A.plist j).nodes (q j), a ≠ (A.plist i).head ∧ a ≠ (A.plist i).tail := by
    intro j hj a ha
    have hji : j ≠ i := fun e => hi (e ▸ hj)
    rcases mem_nodes.mp ha with ha | ha | ha
    · exact ⟨fun e => hji (A.head_inj _ _ (ha.symm.trans e)), fun e => A.head_ne_tail j i (ha.symm.trans e)⟩
    · exact (hn j hj a ha).2 i
    · exact ⟨fun e => A.head_ne_tail i j (e.symm.trans ha), fun e => hji (A.tail_inj _ _ (ha.symm.trans e))⟩
  have hnodes : (A.plist i).nodes [] = [(A.plist i).head, (A.plist i).tail] := rfl
  unfold Holds
  rw [nodes_update]
  refine ⟨?_, ?_, ?_⟩
  · intro j hj
    by_cases e : j = i
    · subst e
      rw [Function.update_self, hnodes]
      exact Links.chain_pair.mpr ⟨by simp [listInit, hne], by simp [listInit]⟩
    · have hj : j ∈ I := hj.resolve_left e
      rw [Function.update_of_ne e]
      refine (h.chain j hj).congr ?_ ?_
      · intro a ha
        obtain ⟨h1, h2⟩ := hoff j hj a ((List.dropLast_sublist _).subset ha)
        simp [listInit, h1, h2]
      · intro a ha
        obtain ⟨h1, h2⟩ := hoff j hj a (List.mem_of_mem_tail ha)
        simp [listInit, h1, h2]
  · intro j hj
    by_cases e : j = i
    · subst e
      rw [Function.update_self, hnodes]
      simp [hne]
    · rw [Function.update_of_ne e]
      exact h.nodup j (hj.resolve_left e)
  · intro j hj k hk hjk a ha
    by_cases ej : j = i
    · subst ej
      rw [Function.update_self, hnodes] at ha
      rw [Function.update_of_ne (Ne.symm hjk)]
      intro ha'
      obtain ⟨h1, h2⟩ := hoff k (hk.resolve_left (Ne.symm hjk)) a ha'
      simp [h1, h2] at ha
    · rw [Function.update_of_ne ej] at ha
      have hj' : j ∈ I := hj.resolve_left ej
      by_cases ek : k = i
      · subst ek
        obtain ⟨h1, h2⟩ := hoff j hj' a ha
        rw [Function.update_self, hnodes]
        simp [h1, h2]
      · rw [Function.update_of_ne ek]
        exact h.disjoint j hj' k (hk.resolve_left ek) hjk a ha

/-! ## The remaining readers of list.c -/

/-- The loop of `list_len`, at node `elem`. -/
def listLenFrom (null : α) (m : Links α) (plist : PList α) : Nat → Nat → α → Except Stop Nat
  | 0, _, _ => .error .diverge
  | n + 1, len, elem =>
    if elem = plist.tail then .ok len
    else if elem = null then .error .fault
    else listLenFrom null m plist n ((len + 1) % 2 ^ 32) (m.next elem)

def listLen (null : α) (fuel : Nat) (m : Links α) (plist : PList α) : Except Stop Nat :=
  listLenFrom null m plist fuel 0 (m.next plist.head)

/-- The loop of `list_traversal`, at node `elem`. -/
def listTraversalFrom (null : α) (m : Links α) (plist : PList α) (func : α → Int → Bool) (arg : Int) :
    Nat → α → Except Stop α
  | 0, _ => .error .diverge
  | n + 1, elem =>
    if elem = plist.tail then .ok null
    else if func elem arg then .ok elem
    else if elem = null then .error .fault
    else listTraversalFrom null m plist func arg n (m.next elem)

def listTraversal (null : α) (fuel : Nat) (m : Links α) (plist : PList α) (func : α → Int → Bool) (arg : Int) :
    Except Stop α :=
  let elem := m.next plist.head
  if listEmpty m plist then .ok null else listTraversalFrom null m plist func arg fuel elem

variable {plist : PList α} {xs : List α} {null a : α} {fuel : Nat}

/-- From the address in front of `xs`. -/
theorem listLenFrom_chain {len : Nat} (h : m.Chain (a :: (xs ++ [plist.tail]))) (ht : plist.tail ∉ xs) (hn : null ∉ xs)
    (hf : xs.length < fuel) (hlen : len < 2 ^ 32) :
    listLenFrom null m plist fuel len (m.next a) = .ok ((len + xs.length) % 2 ^ 32) := by
  induction xs generalizing a fuel len with
  | nil =>
    obtain ⟨n, rfl⟩ : ∃ n, fuel = n + 1 := ⟨fuel - 1, by simp at hf; omega⟩
    have hnext : m.next a = plist.tail := (List.isChain_cons_cons.mp h).1.1
    rw [listLenFrom, if_pos hnext, List.length_nil, Nat.add_zero, Nat.mod_eq_of_lt hlen]
  | cons x xs ih =>
    obtain ⟨n, rfl⟩ : ∃ n, fuel = n + 1 := ⟨fuel - 1, by simp at hf; omega⟩
    obtain ⟨⟨hnext, -⟩, hc⟩ := List.isChain_cons_cons.mp h
    simp only [List.mem_cons, not_or] at ht hn
    rw [listLenFrom, hnext, if_neg (Ne.symm ht.1), if_neg (Ne.symm hn.1),
      ih hc ht.2 hn.2 (by simp at hf; omega) (Nat.mod_lt _ (by omega)), Nat.mod_add_mod, List.length_cons,
      Nat.add_assoc, Nat.add_comm 1]

theorem listTraversalFrom_chain {func : α → Int → Bool} {arg : Int} (h : m.Chain (a :: (xs ++ [plist.tail])))
    (ht : plist.tail ∉ xs) (hn : null ∉ xs) (hf : xs.length < fuel) :
    listTraversalFrom null m plist func arg fuel (m.next a) = .ok ((xs.find? (func · arg)).getD null) := by
  induction xs generalizing a fuel with
  | nil =>
    obtain ⟨n, rfl⟩ : ∃ n, fuel = n + 1 := ⟨fuel - 1, by simp at hf; omega⟩
    have hnext : m.next a = plist.tail := (List.isChain_cons_cons.mp h).1.1
    rw [listTraversalFrom, if_pos hnext]
    rfl
  | cons x xs ih =>
    obtain ⟨n, rfl⟩ : ∃ n, fuel = n + 1 := ⟨fuel - 1, by simp at hf; omega⟩
    obtain ⟨⟨hnext, -⟩, hc⟩ := List.isChain_cons_cons.mp h
    simp only [List.mem_cons, not_or] at ht hn
    rw [listTraversalFrom, hnext, if_neg (Ne.symm ht.1)]
    by_cases hx : func x arg = true
    · rw [if_pos hx, List.find?_cons_of_pos (p := fun y => func y arg) hx]
      rfl
    · rw [if_neg hx, if_neg (Ne.symm hn.1), List.find?_cons_of_neg (p := fun y => func y arg) hx]
      exact ih hc ht.2 hn.2 (by simp at hf; omega)

/-! ## Runs -/

/-- An operation on one list. -/
inductive Edit (α : Type) where
  | push (elem : α)
  | append (elem : α)
  | insertBefore (before elem : α)
  | remove (pelem : α)
  | pop

/-- What list.c does. -/
def Edit.links (plist : PList α) (m : Links α) : Edit α → Links α
  | .push elem => listPush m plist elem
  | .append elem => listAppend m plist elem
  | .insertBefore before elem => listInsertBefore m before elem
  | .remove pelem => listRemove m pelem
  | .pop => (listPop m plist).2

/-- What it is to do to the sequence; the tail's index is the length. -/
def Edit.seq (xs : List α) : Edit α → List α
  | .push elem => elem :: xs
  | .append elem => xs ++ [elem]
  | .insertBefore before elem => xs.insertIdx (xs.idxOf before) elem
  | .remove pelem => xs.erase pelem
  | .pop => xs.tail

inductive ListOp (ι α : Type) where
  | init (i : ι)
  | edit (i : ι) (e : Edit α)

def listStep (A : Anchors ι α) (s : Lists ι α) : ListOp ι α → Except Stop (Lists ι α)
  | .init i => .ok ⟨listInit A.null s.mem (A.plist i), Function.update s.seqs i (some [])⟩
  | .edit i e => .ok ⟨e.links (A.plist i) s.mem, Function.update s.seqs i ((s.seqs i).map fun xs => e.seq xs)⟩

/-- A node in no list. -/
def Unlinked (A : Anchors ι α) (s : Lists ι α) (x : α) : Prop := A.IsNode x ∧ ∀ j ys, s.seqs j = some ys → x ∉ ys

def LegalEdit (A : Anchors ι α) (s : Lists ι α) (i : ι) (xs : List α) : Edit α → Prop
  | .push elem => Unlinked A s elem
  | .append elem => Unlinked A s elem
  | .insertBefore before elem => (before ∈ xs ∨ before = (A.plist i).tail) ∧ Unlinked A s elem
  | .remove pelem => pelem ∈ xs
  | .pop => xs ≠ []

def LegalList (A : Anchors ι α) (s : Lists ι α) : ListOp ι α → Prop
  | .init i => s.seqs i = none
  | .edit i e => ∃ xs, s.seqs i = some xs ∧ LegalEdit A s i xs e

/-- From any memory, no list in use. -/
def ListRuns (A : Anchors ι α) : Lists ι α → Prop :=
  Reach (fun s => ∀ i, s.seqs i = none) (LegalList A) (listStep A)

/-- The list `i` is well formed and holds `xs`, and the readers answer so. -/
structure Answers (A : Anchors ι α) (m : Links α) (i : ι) (xs : List α) : Prop where
  forward : List.iterate m.next (m.next (A.plist i).head) (xs.length + 1) = xs ++ [(A.plist i).tail]
  backward : List.iterate m.prev (m.prev (A.plist i).tail) (xs.length + 1) = xs.reverse ++ [(A.plist i).head]
  nodup : xs.Nodup
  empty : listEmpty m (A.plist i) = xs.isEmpty
  len : ∀ fuel, xs.length < fuel → listLen A.null fuel m (A.plist i) = .ok (xs.length % 2 ^ 32)
  find : ∀ fuel obj, xs.length < fuel → elemFind A.null fuel m (A.plist i) obj = .ok (decide (obj ∈ xs))
  traversal : ∀ fuel func arg, xs.length < fuel →
    listTraversal A.null fuel m (A.plist i) func arg = .ok ((xs.find? (func · arg)).getD A.null)
  pop : ∀ x ys, xs = x :: ys → (listPop m (A.plist i)).1 = x

/-! ### The invariant -/

structure ListInv (A : Anchors ι α) (s : Lists ι α) : Prop where
  holds : Holds A s.mem s.up s.seq
  nodes : ∀ i xs, s.seqs i = some xs → ∀ x ∈ xs, A.IsNode x

variable {s s' : Lists ι α} {e : Edit α}

omit [DecidableEq ι] [DecidableEq α] in
theorem unlinked_iff : Unlinked A s x ↔ A.IsNode x ∧ ∀ j, x ∉ s.seq j := by
  refine and_congr_right fun _ => ⟨fun h j => ?_, fun h j ys hs hx => ?_⟩
  · unfold Lists.seq
    cases hs : s.seqs j with
    | none => exact List.not_mem_nil
    | some ys => exact h j ys hs
  · apply h j
    rw [(Lists.seq_eq hs).2]
    exact hx

omit [DecidableEq ι] [DecidableEq α] in
/-- An unlinked node is on no list, sentinels included. -/
theorem Unlinked.off (h : Unlinked A s x) : ∀ j ∈ s.up, x ∉ (A.plist j).nodes (s.seq j) := by
  intro j hj hx
  obtain ⟨ys, hys⟩ := Option.isSome_iff_exists.mp hj
  rcases mem_nodes.mp hx with e | hx | e
  · exact (h.1.2 j).1 e
  · rw [(Lists.seq_eq hys).2] at hx
    exact h.2 j ys hys hx
  · exact (h.1.2 j).2 e

omit [DecidableEq ι] [DecidableEq α] in
/-- `head.next` is the first node, or the tail. -/
theorem ListInv.next_head (h : ListInv A s) (hs : s.seqs i = some xs) :
    (xs ++ [(A.plist i).tail]).head? = some (s.mem.next (A.plist i).head) := by
  obtain ⟨hi, hq⟩ := Lists.seq_eq hs
  have hc : IsList s.mem (A.plist i) (s.seq i) := h.holds.chain i hi
  rw [hc.next_head, hq, List.head?_eq_some_head]

omit [DecidableEq ι] in
/-- Every operation puts one unlinked node between two parts of the sequence, or takes one node out. -/
theorem ListInv.edit (h : ListInv A s) (hs : s.seqs i = some xs) (hl : LegalEdit A s i xs e) :
    (∃ X Y x b, xs = X ++ Y ∧ e.seq xs = X ++ x :: Y ∧ (Y ++ [(A.plist i).tail]).head? = some b ∧ Unlinked A s x ∧
      e.links (A.plist i) s.mem = s.mem.insertBefore b x) ∨
    ∃ X Y x, xs = X ++ x :: Y ∧ e.seq xs = X ++ Y ∧ e.links (A.plist i) s.mem = s.mem.remove x := by
  cases e with
  | push elem => exact .inl ⟨[], xs, elem, _, rfl, rfl, h.next_head hs, hl, rfl⟩
  | append elem => exact .inl ⟨xs, [], elem, _, by simp, rfl, rfl, hl, rfl⟩
  | insertBefore before elem =>
    obtain ⟨hb, hu⟩ := hl
    refine .inl ?_
    by_cases hm : before ∈ xs
    · obtain ⟨X, Y, rfl, hX⟩ := List.eq_append_cons_of_mem hm
      have hidx : (X ++ before :: Y).idxOf before = X.length := by simp [List.idxOf_append, hX]
      refine ⟨X, before :: Y, elem, before, rfl, ?_, rfl, hu, rfl⟩
      show List.insertIdx _ _ _ = _
      rw [hidx, insertIdx_append]
    · have ht : before = (A.plist i).tail := hb.resolve_left hm
      refine ⟨xs, [], elem, before, by simp, ?_, by rw [ht]; rfl, hu, rfl⟩
      show List.insertIdx _ _ _ = _
      rw [List.idxOf_eq_length hm, List.insertIdx_length_self]
  | remove pelem =>
    have hm : pelem ∈ xs := hl
    obtain ⟨X, Y, rfl, hX⟩ := List.eq_append_cons_of_mem hm
    refine .inr ⟨X, Y, pelem, rfl, ?_, rfl⟩
    show List.erase _ _ = _
    rw [List.erase_append_right _ hX, List.erase_cons_head]
  | pop =>
    have hne : xs ≠ [] := hl
    obtain ⟨x, Y, rfl⟩ := List.exists_cons_of_ne_nil hne
    have hx : s.mem.next (A.plist i).head = x := (Option.some.inj (h.next_head hs)).symm
    refine .inr ⟨[], Y, x, rfl, rfl, ?_⟩
    show listRemove _ _ = _
    rw [hx]
    rfl

theorem ListInv.step (h : ListInv A s) {op : ListOp ι α} (hl : LegalList A s op) (hs : listStep A s op = .ok s') :
    ListInv A s' := by
  cases op with
  | init i =>
    cases hs
    have hl : s.seqs i = none := hl
    have hi : i ∉ s.up := by simp [Lists.up, hl]
    have hup : (Lists.mk (listInit A.null s.mem (A.plist i)) (Function.update s.seqs i (some []))).up = insert i s.up := by
      ext j
      by_cases e : j = i
      · subst e; simp [Lists.up]
      · simp [Lists.up, e]
    have hseq : (Lists.mk (listInit A.null s.mem (A.plist i)) (Function.update s.seqs i (some []))).seq =
        Function.update s.seq i [] := by
      funext j
      by_cases e : j = i
      · subst e; simp [Lists.seq]
      · simp [Lists.seq, e]
    refine ⟨?_, ?_⟩
    · rw [hup, hseq]
      apply h.holds.init hi
      intro j hj y hy
      obtain ⟨ys, hys⟩ := Option.isSome_iff_exists.mp hj
      rw [(Lists.seq_eq hys).2] at hy
      exact h.nodes j ys hys y hy
    · intro j ys hys y hy
      by_cases e : j = i
      · subst e
        simp only [Function.update_self, Option.some.injEq] at hys
        simp [← hys] at hy
      · simp only [Function.update_of_ne e] at hys
        exact h.nodes j ys hys y hy
  | edit i e =>
    obtain ⟨xs, hxs, hl⟩ := hl
    obtain ⟨hi, hq⟩ := Lists.seq_eq hxs
    cases hs
    simp only [hxs, Option.map_some]
    obtain ⟨hup, hseq⟩ := Lists.seq_update (s := s) (e.links (A.plist i) s.mem) hi (e.seq xs)
    have hmem : ∀ y ∈ e.seq xs, A.IsNode y := by
      intro y hy
      rcases h.edit hxs hl with ⟨X, Y, x, b, hX, he, -, hu, -⟩ | ⟨X, Y, x, hX, he, -⟩
      · rw [he] at hy
        rcases List.mem_append.mp hy with hy | hy
        · exact h.nodes i xs hxs y (by rw [hX]; exact List.mem_append_left _ hy)
        · rcases List.mem_cons.mp hy with hy | hy
          · rw [hy]; exact hu.1
          · exact h.nodes i xs hxs y (by rw [hX]; exact List.mem_append_right _ hy)
      · rw [he] at hy
        apply h.nodes i xs hxs y
        rw [hX]
        exact ((List.sublist_cons_self x Y).append_left X).subset hy
    refine ⟨?_, ?_⟩
    · rw [hup, hseq]
      rcases h.edit hxs hl with ⟨X, Y, x, b, hX, he, hb, hu, hm⟩ | ⟨X, Y, x, hX, he, hm⟩
      · rw [hm, he]
        exact h.holds.insert hi (hq.trans hX) hb hu.off
      · rw [hm, he]
        exact h.holds.remove hi (hq.trans hX)
    · intro j ys hys y hy
      by_cases ej : j = i
      · subst ej
        simp only [Function.update_self, Option.some.injEq] at hys
        rw [← hys] at hy
        exact hmem y hy
      · simp only [Function.update_of_ne ej] at hys
        exact h.nodes j ys hys y hy

theorem ListRuns.inv (h : ListRuns A s) : ListInv A s := by
  apply h.invariant
  · intro s h0
    refine ⟨⟨?_, ?_, ?_⟩, ?_⟩
    · intro i hi; simp [Lists.up, h0 i] at hi
    · intro i hi; simp [Lists.up, h0 i] at hi
    · intro i hi; simp [Lists.up, h0 i] at hi
    · intro i xs hs; rw [h0 i] at hs; cases hs
  · intro s s' op h hl hs
    exact h.step hl hs

omit [DecidableEq ι] in
/-- A list of a state that satisfies the invariant. -/
theorem ListInv.answers (h : ListInv A s) (hs : s.seqs i = some xs) : Answers A s.mem i xs := by
  obtain ⟨hi, hq⟩ := Lists.seq_eq hs
  have hl : IsList s.mem (A.plist i) xs := by
    have := h.holds.chain i hi
    rwa [hq] at this
  have hnd : ((A.plist i).nodes xs).Nodup := by
    have := h.holds.nodup i hi
    rwa [hq] at this
  have ht : (A.plist i).tail ∉ xs := fun hm => ((h.nodes i xs hs _ hm).2 i).2 rfl
  have hn : A.null ∉ xs := fun hm => (h.nodes i xs hs _ hm).1 rfl
  refine ⟨?_, ?_, ?_, hl.listEmpty ht, ?_, ?_, ?_, ?_⟩
  · have := Links.Chain.iterate_next hl
    rwa [List.length_append] at this
  · have hl' : s.mem.Chain (((A.plist i).head :: xs) ++ [(A.plist i).tail]) := hl
    have := Links.Chain.iterate_prev hl'
    rwa [List.length_cons, List.reverse_cons] at this
  · exact (List.nodup_append.mp (List.nodup_cons.mp hnd).2).1
  · intro fuel hf
    have := listLenFrom_chain hl ht hn hf (Nat.two_pow_pos 32)
    rwa [Nat.zero_add] at this
  · intro fuel obj hf
    exact hl.elemFind ht hn obj hf
  · intro fuel func arg hf
    unfold listTraversal
    rw [hl.listEmpty ht]
    cases xs with
    | nil => rfl
    | cons x xs => exact listTraversalFrom_chain hl ht hn hf
  · intro x ys hx
    have := h.next_head hs
    rw [hx] at this
    exact (Option.some.inj this).symm

theorem lists_refine (hr : ListRuns A s) : (∀ i xs, s.seqs i = some xs → Answers A s.mem i xs) ∧
    ∀ i j xs ys, i ≠ j → s.seqs i = some xs → s.seqs j = some ys → ∀ x ∈ xs, x ∉ ys := by
  have h := hr.inv
  refine ⟨?_, ?_⟩
  · intro i xs hs
    exact h.answers hs
  · intro i j xs ys hij hi hj x hx hy
    obtain ⟨hiu, hiq⟩ := Lists.seq_eq hi
    obtain ⟨hju, hjq⟩ := Lists.seq_eq hj
    apply h.holds.disjoint i hiu j hju hij x
    · exact mem_nodes.mpr (.inr (.inl (by rw [hiq]; exact hx)))
    · exact mem_nodes.mpr (.inr (.inl (by rw [hjq]; exact hy)))

/-! ### Two lists -/

/-- Sentinels at 1 to 4. -/
def twoAnchors : Anchors Bool Nat where
  plist
    | true => ⟨1, 2⟩
    | false => ⟨3, 4⟩
  null := 0
  head_inj := by decide
  tail_inj := by decide
  head_ne_tail := by decide

def runList (s : Lists Bool Nat) (ops : List (ListOp Bool Nat)) : Lists Bool Nat := ops.foldl (next (listStep twoAnchors)) s

instance (x : Nat) : Decidable (twoAnchors.IsNode x) := inferInstanceAs (Decidable (_ ∧ ∀ _ : Bool, _))

instance (s : Lists Bool Nat) (x : Nat) : Decidable (Unlinked twoAnchors s x) := decidable_of_iff _ unlinked_iff.symm

instance (s : Lists Bool Nat) (i : Bool) (xs : List Nat) : DecidablePred (LegalEdit twoAnchors s i xs)
  | .push elem | .append elem => inferInstanceAs (Decidable (Unlinked twoAnchors s elem))
  | .insertBefore before elem =>
    inferInstanceAs (Decidable ((before ∈ xs ∨ before = (twoAnchors.plist i).tail) ∧ Unlinked twoAnchors s elem))
  | .remove pelem => inferInstanceAs (Decidable (pelem ∈ xs))
  | .pop => inferInstanceAs (Decidable (xs ≠ []))

instance (s : Lists Bool Nat) : DecidablePred (LegalList twoAnchors s)
  | .init i => inferInstanceAs (Decidable (s.seqs i = none))
  | .edit i e => decidable_of_iff (∃ xs ∈ s.seqs i, LegalEdit twoAnchors s i xs e) Iff.rfl

/-- Nodes come at both ends and in the middle, one goes over to the other list, and the first one is taken. -/
def edits : List (ListOp Bool Nat) :=
  [.init true, .init false, .edit true (.append 10), .edit true (.push 11), .edit true (.insertBefore 10 12),
    .edit true (.insertBefore 2 13), .edit true (.remove 12), .edit false (.append 12), .edit true .pop]

def twoLists : Lists Bool Nat := runList ⟨⟨fun _ => 0, fun _ => 0⟩, fun _ => none⟩ edits

theorem twoLists_runs : ListRuns twoAnchors twoLists := Reach.script (.first fun _ => rfl) (by decide)

theorem twoLists_refine : (∀ i xs, twoLists.seqs i = some xs → Answers twoAnchors twoLists.mem i xs) ∧
    ∀ i j xs ys, i ≠ j → twoLists.seqs i = some xs → twoLists.seqs j = some ys → ∀ x ∈ xs, x ∉ ys :=
  lists_refine twoLists_runs

example : twoLists.seqs true = some [10, 13] ∧ twoLists.seqs false = some [12] := by decide

end TinyOs.Lib
