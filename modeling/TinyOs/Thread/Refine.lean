/-
  TinyOs.Thread.Refine — the links in memory stand for the sequences of tasks.

  `Stands J m q`: in the link words `m` each list of `J` is well formed and holds the
  tags of the tasks `q` gives it, and no tag is on two lists. Every operation of list.c
  that the scheduler uses keeps this, as long as a tag is linked only when it is on no
  list (`Off`), which is what the queue invariant is for. So the kernel on links and
  the kernel on sequences take the same steps and stop at the same assertions.
-/

import Mathlib.Data.List.Perm.Subperm
import Mathlib.Data.Set.Insert
import TinyOs.Thread.Effects

namespace TinyOs.Thread

open TinyOs.Kernel TinyOs.Lib TinyOs.Logic

/-- The addresses of list `i` when it holds the tasks `q i`. -/
def nodesOf (q : Queues) (i : Qid) : List Node := i.plist.nodes ((q i).map i.node)

def Stands (J : Set Qid) (m : Links Node) (q : Queues) : Prop := Links.Rep m J (nodesOf q)

/-- The lists in use: the scheduler's two, and the waiters of `I`. -/
def lists (I : Set Sema) : Set Qid := {i | ∀ s, i = .waiters s → s ∈ I}

/-- The node by which list `i` links `t` is on no list of `J`. -/
def Off (J : Set Qid) (q : Queues) (i : Qid) (t : Tid) : Prop := ∀ j ∈ J, (i = .all ↔ j = .all) → t ∉ q j

variable {J : Set Qid} {I : Set Sema} {P : Set Tid} {m : Links Node} {q : Queues}

/-! ## The nodes -/

theorem node_inj {i j : Qid} {t u : Tid} : i.node t = j.node u ↔ t = u ∧ (i = .all ↔ j = .all) := by
  cases i <;> cases j <;> simp [Qid.node]

theorem node_ne_head (i j : Qid) (t : Tid) : i.node t ≠ .head j := by cases i <;> simp [Qid.node]
theorem node_ne_tail (i j : Qid) (t : Tid) : i.node t ≠ .tail j := by cases i <;> simp [Qid.node]
theorem node_ne_null (i : Qid) (t : Tid) : i.node t ≠ .null := by cases i <;> simp [Qid.node]

theorem mem_nodesOf {i : Qid} {a : Node} : a ∈ nodesOf q i ↔ a = .head i ∨ (∃ t ∈ q i, i.node t = a) ∨ a = .tail i := by
  simp [nodesOf, PList.nodes, Qid.plist]

theorem Off.not_mem {i : Qid} {t : Tid} (h : Off J q i t) {j : Qid} (hj : j ∈ J) : i.node t ∉ nodesOf q j := by
  rw [mem_nodesOf]
  intro hex
  rcases hex with e | ⟨u, hu, e⟩ | e
  · exact node_ne_head i j t e
  · obtain ⟨rfl, hc⟩ := node_inj.mp e
    exact h j hj hc.symm hu
  · exact node_ne_tail i j t e

theorem nodesOf_update (i : Qid) (ts : List Tid) :
    nodesOf (Function.update q i ts) = Function.update (nodesOf q) i (i.plist.nodes (ts.map i.node)) := by
  funext j
  by_cases e : j = i
  · subst e; simp [nodesOf]
  · simp [nodesOf, e]

/-! ## The operations -/

theorem Stands.isList (h : Stands J m q) {i : Qid} (hi : i ∈ J) : IsList m i.plist ((q i).map i.node) := h.chain i hi

theorem Stands.isEmpty (h : Stands J m q) {i : Qid} (hi : i ∈ J) :
    QueueStore.isEmpty m i = QueueStore.isEmpty q i := by
  have h1 := (h.isList hi).listEmpty (by simp only [List.mem_map, not_exists, not_and]; exact fun t _ => node_ne_tail i i t)
  show Lib.listEmpty m i.plist = (q i).isEmpty
  simpa using h1

theorem Stands.find (h : Stands J m q) {i : Qid} (hi : i ∈ J) {n : Nat} (hn : (q i).length < n) (t : Tid) :
    QueueStore.find n m i t = QueueStore.find n q i t := by
  have h1 : elemFind .null n m i.plist (i.node t) = .ok (decide (i.node t ∈ (q i).map i.node)) :=
    (h.isList hi).elemFind
      (by simp only [List.mem_map, not_exists, not_and]; exact fun t _ => node_ne_tail i i t)
      (by simp only [List.mem_map, not_exists, not_and]; exact fun t _ => node_ne_null i t) (i.node t)
      (by simpa using hn)
  show elemFind .null n m i.plist (i.node t) = .ok (decide (t ∈ q i))
  rw [h1]
  congr 1
  simp [node_inj]

theorem Stands.append (h : Stands J m q) {i : Qid} (hi : i ∈ J) {t : Tid} (ht : Off J q i t) :
    Stands J (QueueStore.append m i t) (QueueStore.append q i t) := by
  -- the last node, or the head of an empty list
  obtain ⟨A, p, hA⟩ : ∃ A p, Node.head i :: (q i).map i.node = A ++ [p] :=
    ⟨_, _, (List.dropLast_append_getLast (List.cons_ne_nil _ _)).symm⟩
  have hL : nodesOf q i = A ++ p :: .tail i :: [] := by
    show (Node.head i :: (q i).map i.node) ++ [Node.tail i] = _
    rw [hA]; simp
  have h1 := Links.Rep.insertBefore h hi hL (fun j hj => ht.not_mem hj)
  have e : i.plist.nodes ((q i ++ [t]).map i.node) = A ++ p :: i.node t :: Node.tail i :: [] := by
    show (Node.head i :: ((q i ++ [t]).map i.node ++ [Node.tail i])) = _
    have : (Node.head i :: ((q i ++ [t]).map i.node ++ [Node.tail i]))
        = (Node.head i :: (q i).map i.node) ++ [i.node t, Node.tail i] := by simp
    rw [this, hA]; simp
  show Links.Rep (m.insertBefore (.tail i) (i.node t)) J (nodesOf (Function.update q i (q i ++ [t])))
  rw [nodesOf_update, e]
  exact h1

theorem Stands.next_head (h : Stands J m q) {i : Qid} (hi : i ∈ J) {b : Node} {B : List Node}
    (hb : (q i).map i.node ++ [.tail i] = b :: B) : m.next (.head i) = b := by
  have h1 := (h.isList hi).next_head
  simpa [Qid.plist, hb] using h1

theorem Stands.push (h : Stands J m q) {i : Qid} (hi : i ∈ J) {t : Tid} (ht : Off J q i t) :
    Stands J (QueueStore.push m i t) (QueueStore.push q i t) := by
  obtain ⟨b, B, hb⟩ : ∃ b B, (q i).map i.node ++ [Node.tail i] = b :: B := List.exists_cons_of_ne_nil (by simp)
  have hL : nodesOf q i = [] ++ Node.head i :: b :: B := by
    show Node.head i :: ((q i).map i.node ++ [Node.tail i]) = _
    rw [hb]; rfl
  have h1 := Links.Rep.insertBefore h hi hL (fun j hj => ht.not_mem hj)
  have e : i.plist.nodes ((t :: q i).map i.node) = [] ++ Node.head i :: i.node t :: b :: B := by
    show Node.head i :: i.node t :: ((q i).map i.node ++ [Node.tail i]) = _
    rw [hb]; rfl
  show Links.Rep (m.insertBefore (m.next (.head i)) (i.node t)) J (nodesOf (Function.update q i (t :: q i)))
  rw [nodesOf_update, e, h.next_head hi hb]
  exact h1

theorem Stands.pop (h : Stands J m q) {i : Qid} (hi : i ∈ J) (hne : i ≠ .all) :
    Agree (fun a b => a.1 = b.1 ∧ Stands J a.2 b.2) (QueueStore.pop m i) (QueueStore.pop q i) := by
  have hnext : ∀ {b B}, (q i).map i.node ++ [Node.tail i] = b :: B →
      QueueStore.pop m i = (do let t ← elem2entry b; .ok (t, m.remove b)) := fun hb => by
    show (do let t ← elem2entry (m.next (.head i)); Except.ok (t, m.remove (m.next (.head i)))) = _
    rw [h.next_head hi hb]
  have hnode : ∀ t, elem2entry (i.node t) = .ok t := fun t => by
    cases i with
    | all => exact absurd rfl hne
    | ready => rfl
    | waiters s => rfl
  cases hq : q i with
  | nil =>
    rw [hnext (b := .tail i) (B := []) (by simp [hq]), queues_pop_nil hq]
    rfl
  | cons t ts =>
    obtain ⟨b, B, hb⟩ : ∃ b B, ts.map i.node ++ [Node.tail i] = b :: B := List.exists_cons_of_ne_nil (by simp)
    have hL : nodesOf q i = [] ++ Node.head i :: i.node t :: b :: B := by
      show Node.head i :: ((q i).map i.node ++ [Node.tail i]) = _
      rw [hq, ← hb]; rfl
    have h1 := Links.Rep.remove h hi hL
    rw [hnext (b := i.node t) (B := b :: B) (by rw [hq, ← hb]; rfl), hnode, queues_pop hq]
    refine ⟨rfl, ?_⟩
    show Links.Rep (m.remove (i.node t)) J (nodesOf (Function.update q i ts))
    have e : i.plist.nodes (ts.map i.node) = [] ++ Node.head i :: b :: B := by
      show Node.head i :: (ts.map i.node ++ [Node.tail i]) = _
      rw [hb]; rfl
    rw [nodesOf_update, e]
    exact h1

/-- Links of addresses on no list may hold anything. -/
theorem Stands.congr (h : Stands J m q) {m' : Links Node}
    (hm : ∀ i ∈ J, ∀ a ∈ nodesOf q i, m'.next a = m.next a ∧ m'.prev a = m.prev a) : Stands J m' q :=
  ⟨fun i hi => (h.chain i hi).congr (fun a ha => (hm i hi a ((List.dropLast_sublist _).subset ha)).1)
    (fun a ha => (hm i hi a (List.mem_of_mem_tail ha)).2), h.nodup, h.disjoint⟩

theorem Stands.zeroTags (h : Stands J m q) {t : Tid} (ht : ∀ j ∈ J, t ∉ q j) :
    Stands J (QueueStore.zeroTags m t) (QueueStore.zeroTags q t) := by
  refine h.congr (fun i hi a ha => ?_)
  have hoff : ∀ k : Qid, k.node t ∉ nodesOf q i := fun k => (show Off J q k t from fun j hj _ => ht j hj).not_mem hi
  have hg : a ≠ .generalTag t := by rintro rfl; exact hoff .ready ha
  have hl : a ≠ .allListTag t := by rintro rfl; exact hoff .all ha
  simp [QueueStore.zeroTags, hg, hl]

/-- `list_init` of a list not in use. -/
theorem Stands.init (h : Stands J m q) {i : Qid} (hi : i ∉ J) :
    Stands (insert i J) (QueueStore.init m i) (QueueStore.init q i) := by
  have hne : ∀ {j}, j ∈ J → j ≠ i := fun hj e => hi (e ▸ hj)
  have hhead : ∀ j ∈ J, Node.head i ∉ nodesOf q j ∧ Node.tail i ∉ nodesOf q j := fun j hj => by
    have hji : i ≠ j := fun e => hi (e ▸ hj)
    simp only [mem_nodesOf, not_or, not_exists, not_and]
    exact ⟨⟨by simpa using hji, fun t _ e => node_ne_head j i t e, by simp⟩,
      by simp, fun t _ e => node_ne_tail j i t e, by simpa using hji⟩
  have hnew : nodesOf (Function.update q i []) i = [.head i, .tail i] := by simp [nodesOf, PList.nodes, Qid.plist]
  have hold : ∀ j ∈ J, nodesOf (Function.update q i []) j = nodesOf q j := fun j hj => by simp [nodesOf, hne hj]
  refine ⟨fun j hj => ?_, fun j hj => ?_, fun j hj k hk hjk a ha => ?_⟩
  · show Links.Chain (listInit .null m i.plist) (nodesOf (Function.update q i []) j)
    rcases hj with rfl | hj
    · rw [hnew, Links.chain_pair]
      simp [listInit, Qid.plist, Links.Linked]
    · rw [hold j hj]
      refine (h.chain j hj).congr (fun a ha => ?_) (fun a ha => ?_)
      · have ha := (List.dropLast_sublist _).subset ha
        have h1 : a ≠ .head i := fun e => (hhead j hj).1 (e ▸ ha)
        have h2 : a ≠ .tail i := fun e => (hhead j hj).2 (e ▸ ha)
        simp [listInit, Qid.plist, h1, h2]
      · have ha := List.mem_of_mem_tail ha
        have h1 : a ≠ .head i := fun e => (hhead j hj).1 (e ▸ ha)
        have h2 : a ≠ .tail i := fun e => (hhead j hj).2 (e ▸ ha)
        simp [listInit, Qid.plist, h1, h2]
  · show (nodesOf (Function.update q i []) j).Nodup
    rcases hj with rfl | hj
    · rw [hnew]; simp
    · rw [hold j hj]; exact h.nodup j hj
  · have ha : a ∈ nodesOf (Function.update q i []) j := ha
    show a ∉ nodesOf (Function.update q i []) k
    rcases hj with rfl | hj <;> rcases hk with rfl | hk
    · exact absurd rfl hjk
    · rw [hnew] at ha
      rw [hold k hk]
      rcases List.mem_pair.mp ha with rfl | rfl
      · exact (hhead k hk).1
      · exact (hhead k hk).2
    · rw [hold j hj] at ha
      rw [hnew, List.mem_pair]
      intro hex
      rcases hex with rfl | rfl
      · exact (hhead j hj).1 ha
      · exact (hhead j hj).2 ha
    · rw [hold j hj] at ha
      rw [hold k hk]
      exact h.disjoint j hj k hk hjk a ha

/-! ## The kernel on links follows the kernel on sequences -/

/-- The same kernel with its lists kept in `m`. -/
def Kernel.onto {σ τ : Type} (k : Kernel σ) (m : τ) : Kernel τ :=
  ⟨k.cur, k.mainThread, k.task, m, k.value, k.lock, k.intr, k.ticks, k.created⟩

structure Stand (I : Set Sema) (k : Kernel (Links Node)) (a : Kernel Queues) : Prop where
  onto : k = a.onto k.queues
  stands : Stands (lists I) k.queues a.queues

theorem Stand.ok {k : Kernel (Links Node)} {a : Kernel Queues} (ho : k = a.onto k.queues)
    (h : Stands (lists I) k.queues a.queues) : Agree (Stand I) (.ok k : Except Stop _) (.ok a) := ⟨ho, h⟩

theorem ready_lists : Qid.ready ∈ lists I := by simp [lists]
theorem all_lists : Qid.all ∈ lists I := by simp [lists]
theorem waiters_lists {s : Sema} (h : s ∈ I) : Qid.waiters s ∈ lists I := by
  intro s' e; cases e; exact h

variable {a : Kernel Queues}

/-- Every walk has fuel for its list. -/
theorem Wf.fuel {run : Option Tid} (h : Wf I P run a) {i : Qid} (hi : i ∈ lists I) :
    (a.queues i).length < a.created.length + 2 := by
  have hsub : (a.queues i).Nodup ∧ ∀ t ∈ a.queues i, t ∈ a.created := by
    cases i with
    | ready => exact ⟨h.readyNodup, fun t ht => ((h.readyMem t).mp ht).1⟩
    | all => exact ⟨h.allNodup, fun t ht => ((h.allMem t).mp ht).1⟩
    | waiters s => exact ⟨h.waitNodup s (hi s rfl), fun t ht => ((h.waitMem s (hi s rfl) t).mp ht).1⟩
  have := (hsub.1.subperm hsub.2).length_le
  omega

/-- The running thread is on no list but thread_all_list. -/
theorem Wf.cur_off (h : Wf I P (some a.cur) a) {i : Qid} (hi : i ≠ .all) : Off (lists I) a.queues i a.cur := by
  intro j hj hc
  cases j with
  | ready => exact h.cur_not_ready
  | all => exact absurd (hc.mpr rfl) hi
  | waiters s => exact h.cur_not_waiting (hj s rfl)

theorem switchToFirst_stand (h : Stands (lists I) m a.queues) (r : Resume) :
    Agree (Stand I) (switchToFirst r (a.onto m)) (switchToFirst r a) := by
  unfold switchToFirst
  have e : QueueStore.isEmpty (a.onto m).queues Qid.ready = QueueStore.isEmpty a.queues Qid.ready := h.isEmpty ready_lists
  refine Agree.cons (by rw [e]) (fun _ => ?_)
  refine Agree.bind (h.pop ready_lists (by simp)) (fun x y hxy => ?_)
  obtain ⟨n, m'⟩ := x
  obtain ⟨n', q'⟩ := y
  obtain ⟨rfl, hm⟩ := hxy
  exact Stand.ok rfl hm

theorem requeueRunning_stand (h : Stands (lists I) m a.queues) (hf : (a.queues .ready).length < a.created.length + 2)
    (hc : (a.task a.cur).status = .running → Off (lists I) a.queues .ready a.cur) :
    Agree (Stand I) (requeueRunning (a.onto m)) (requeueRunning a) := by
  unfold requeueRunning
  show Agree _ (if (a.task a.cur).status = .running then _ else _) _
  split
  · next hr =>
    have e : QueueStore.find (a.onto m).fuel (a.onto m).queues Qid.ready (a.onto m).cur
        = QueueStore.find a.fuel a.queues Qid.ready a.cur := h.find ready_lists hf a.cur
    refine Agree.cons e (fun _ => Agree.cons rfl (fun _ => ?_))
    exact Stand.ok rfl (h.append ready_lists (hc hr))
  · exact Stand.ok rfl h

theorem schedule_stand (h : Stands (lists I) m a.queues) (hf : (a.queues .ready).length < a.created.length + 2)
    (hc : (a.task a.cur).status = .running → Off (lists I) a.queues .ready a.cur) (r : Resume) :
    Agree (Stand I) (schedule r (a.onto m)) (schedule r a) := by
  unfold schedule
  refine Agree.cons rfl (fun _ => ?_)
  refine Agree.bind (requeueRunning_stand h hf hc) (fun k b hkb => ?_)
  rw [hkb.onto]
  exact switchToFirst_stand hkb.stands r

theorem threadBlock_stand (h : Stands (lists I) m a.queues) (hf : (a.queues .ready).length < a.created.length + 2)
    (stat : TaskStatus) : Agree (Stand I) (threadBlock stat (a.onto m)) (threadBlock stat a) := by
  unfold threadBlock
  cases hs : stat.nonRunnable with
  | false => rfl
  | true =>
    refine schedule_stand (a := stop stat a) h hf (fun hr => ?_) _
    rw [show ((stop stat a).task (stop stat a).cur).status = stat by simp [stop]] at hr
    exact absurd hr (nonRunnable_ne hs).1

theorem wakeUp_stand (h : Stands (lists I) m a.queues) (hf : (a.queues .ready).length < a.created.length + 2)
    {t : Tid} (ht : (a.task t).status ≠ .ready → Off (lists I) a.queues .ready t) :
    Agree (Stand I) (wakeUp t (a.onto m)) (wakeUp t a) := by
  have e : QueueStore.find (a.onto m).fuel (a.onto m).queues Qid.ready t = QueueStore.find a.fuel a.queues Qid.ready t :=
    h.find ready_lists hf t
  unfold wakeUp
  refine Agree.bind (R := Stand I) ?_ (fun k b hkb => ?_)
  · show Agree _ (if (a.task t).status ≠ .ready then _ else _) (if (a.task t).status ≠ .ready then _ else _)
    split
    · next hst =>
      refine Agree.cons e (fun _ => Agree.cons rfl (fun _ => Agree.cons e (fun _ => Agree.cons rfl (fun _ => ?_))))
      exact Stand.ok rfl (h.push ready_lists (ht hst))
    · exact Stand.ok rfl h
  · obtain ⟨ho, hb⟩ := hkb
    refine Stand.ok ?_ hb
    rw [ho]; rfl

theorem threadUnblock_stand (h : Stands (lists I) m a.queues) (hf : (a.queues .ready).length < a.created.length + 2)
    {t : Tid} (ht : Off (lists I) a.queues .ready t) :
    Agree (Stand I) (threadUnblock t (a.onto m)) (threadUnblock t a) := by
  unfold threadUnblock
  exact Agree.cons rfl (fun _ => wakeUp_stand h hf (fun _ => ht))

theorem threadYield_stand (h : Stands (lists I) m a.queues) (hw : Wf I P (some a.cur) a) :
    Agree (Stand I) (threadYield (a.onto m)) (threadYield a) := by
  unfold threadYield
  refine Agree.cons (h.find ready_lists (hw.fuel ready_lists) a.cur) (fun _ => Agree.cons rfl (fun _ => ?_))
  refine schedule_stand (a := requeue false { a with intr := false })
    (h.append ready_lists (hw.cur_off (by simp))) ?_ (fun hr => ?_) _
  · have h0 : Wf I P (some a.cur) { a with intr := false } := intrOff_wf hw
    exact (@requeue_wf I P { a with intr := false } h0 false).fuel ready_lists
  · simp [requeue] at hr

theorem intrTimerHandler_stand (h : Stands (lists I) m a.queues) (hw : Wf I P (some a.cur) a) :
    Agree (Stand I) (intrTimerHandler (a.onto m)) (intrTimerHandler a) := by
  unfold intrTimerHandler
  refine Agree.cons rfl (fun _ => ?_)
  show Agree _ (if ((counted a).task a.cur).ticks = 0 then _ else _) (if ((counted a).task a.cur).ticks = 0 then _ else _)
  split
  · exact schedule_stand (a := counted a) h ((counted_wf hw).fuel ready_lists) (fun _ => (counted_wf hw).cur_off (by simp)) _
  · exact Stand.ok rfl h

/-- A thread not created is on no list. -/
theorem Wf.off_of_absent (h : Wf I P (some a.cur) a) {t : Tid} (ht : t ∉ a.created) : ∀ i ∈ lists I, t ∉ a.queues i := fun i hi => by
  cases i with
  | ready => exact fun hm => ht ((h.readyMem t).mp hm).1
  | all => exact fun hm => ht ((h.allMem t).mp hm).1
  | waiters s => exact fun hm => ht ((h.waitMem s (hi s rfl) t).mp hm).1

/-- The second search and both appends of a new thread. -/
theorem Stands.enlist (h : Stands (lists I) m a.queues) (hw : Wf I P (some a.cur) a) {t : Tid} (ht : t ∉ a.created) :
    QueueStore.find (a.created.length + 2) (QueueStore.append m .ready t) .all t = .ok (decide (t ∈ a.queues .all)) ∧
      Stands (lists I) (QueueStore.append (QueueStore.append m .ready t) .all t)
        (QueueStore.append (QueueStore.append a.queues .ready t) .all t) := by
  have hoff := hw.off_of_absent ht
  have h1 := h.append ready_lists (t := t) (fun j hj _ => hoff j hj)
  have hall : QueueStore.append a.queues .ready t .all = a.queues .all := Function.update_of_ne (by decide) ..
  refine ⟨?_, h1.append all_lists (fun j hj hc => ?_)⟩
  · rw [h1.find all_lists (hall ▸ hw.fuel all_lists) t]
    exact congrArg (fun q => Except.ok (decide (t ∈ q))) hall
  · rw [hc.mp rfl, hall]
    exact hoff .all all_lists

theorem threadStart_stand (h : Stands (lists I) m a.queues) (hw : Wf I P (some a.cur) a) {t : Tid} (ht : t ∉ a.created)
    (prio : Nat) : Agree (Stand I) (threadStart (some t) prio (a.onto m)) (threadStart (some t) prio a) := by
  have h0 := h.zeroTags (hw.off_of_absent ht)
  obtain ⟨hall, hboth⟩ := h0.enlist hw ht
  unfold threadStart
  refine Agree.cons (h0.find ready_lists (hw.fuel ready_lists) t) (fun _ => Agree.cons rfl (fun _ => ?_))
  exact Agree.cons hall (fun _ => Agree.cons rfl (fun _ => Stand.ok rfl hboth))

theorem semaDownLoop_stand (h : Stands (lists I) m a.queues) (hw : Wf I P (some a.cur) a) {s : Sema} (hs : s ∈ I) (old : Bool) :
    Agree (Stand I) (semaDownLoop s old (a.onto m)) (semaDownLoop s old a) := by
  have e := h.find (waiters_lists hs) (hw.fuel (waiters_lists hs)) a.cur
  unfold semaDownLoop
  show Agree _ (if a.value s = 0 then _ else _) _
  split
  · refine Agree.cons e (fun _ => Agree.cons rfl (fun _ => Agree.cons e (fun _ => Agree.cons rfl (fun _ => ?_))))
    refine threadBlock_stand (a := ({ a with queues := QueueStore.append a.queues (.waiters s) a.cur }).setPc (.semaLoop s old))
      (h.append (waiters_lists hs) (hw.cur_off (by simp))) ?_ _
    simpa [Kernel.setPc] using hw.fuel ready_lists
  · exact Agree.cons rfl (fun _ => Stand.ok rfl h)

theorem semaUp_stand (h : Stands (lists I) m a.queues) (hw : Wf I P (some a.cur) a) {s : Sema} (hs : s ∈ I) :
    Agree (Stand I) (semaUp s (a.onto m)) (semaUp s a) := by
  have e : QueueStore.isEmpty m (.waiters s) = QueueStore.isEmpty a.queues (.waiters s) := h.isEmpty (waiters_lists hs)
  unfold semaUp
  refine Agree.cons rfl (fun _ => ?_)
  refine Agree.bind (R := Stand I) ?_ (fun k b hkb => ?_)
  · show Agree _ (if (!QueueStore.isEmpty m (.waiters s)) = true then _ else _)
      (if (!QueueStore.isEmpty a.queues (.waiters s)) = true then _ else _)
    rw [e]
    split
    · next hne =>
      obtain ⟨t, ts, hq⟩ : ∃ t ts, a.queues (.waiters s) = t :: ts := List.exists_cons_of_ne_nil (by simpa using hne)
      obtain ⟨-, -, hnr, hwoken⟩ := woken_wf hw hs hq
      have hp : Agree (fun x y => x.1 = y.1 ∧ Stands (lists I) x.2 y.2 ∧ y = (t, Function.update a.queues (.waiters s) ts))
          (QueueStore.pop m (.waiters s)) (QueueStore.pop a.queues (.waiters s)) := by
        have hp := h.pop (waiters_lists hs) (by simp)
        rw [queues_pop hq] at hp ⊢
        cases hx : QueueStore.pop m (.waiters s) with
        | error e => rw [hx] at hp; exact hp.elim
        | ok x => rw [hx] at hp; exact ⟨hp.1, hp.2, rfl⟩
      refine Agree.bind hp (fun x y hxy => ?_)
      obtain ⟨t', m'⟩ := x
      obtain ⟨rfl, hm, rfl⟩ := hxy
      -- the popped thread is on no other list, else it would be ready and blocked at once
      refine threadUnblock_stand (a := { a with intr := false, queues := Function.update a.queues (.waiters s) ts }) hm
        (by simpa using hw.fuel ready_lists) (fun j hj hc => ?_)
      cases j with
      | ready => simpa using hnr
      | all => exact absurd (hc.mpr rfl) (by simp)
      | waiters s' =>
        intro hmem
        have := ((hwoken.waitMem s' (hj s' rfl) t).mp (by simpa [unblocked] using hmem)).2.1
        simp [unblocked] at this
    · exact Stand.ok rfl h
  · rw [hkb.onto]
    exact Agree.cons rfl (fun _ => Stand.ok rfl hkb.stands)

/-- A thread that stopped itself is on no list but thread_all_list. -/
theorem Wf.stopped_off (hw : Wf I P (some a.cur) a) {t : Tid} (hs : (a.task t).status ≠ .ready)
    (hpt : (a.task t).pc = .run) : Off (lists I) a.queues .ready t := by
  intro j hj hc
  cases j with
  | ready => exact hw.not_ready hs
  | all => exact absurd (hc.mpr rfl) (by simp)
  | waiters s =>
    intro hm
    obtain ⟨-, -, old, hp⟩ := (hw.waitMem s (hj s rfl) t).mp hm
    rw [hpt] at hp; cases hp

theorem exec_stand (h : Stands (lists I) m a.queues) (hw : Wf I P (some a.cur) a) (hr : (a.task a.cur).resume = none)
    (hf : Fresh a .go) :
    Agree (Stand I) (exec (a.onto m) a.pc) (exec a a.pc) := by
  have hsema : ∀ s, a.pc.sema = some s → s ∈ I := (hw.tasks a.cur hw.curCreated).sema
  cases hpc : a.pc with
  | run => exact Stand.ok rfl h
  | unblock t =>
    have ht := wakeable_of_fresh hw hr hpc hf
    unfold exec
    refine Agree.bind (wakeUp_stand h (hw.fuel ready_lists) (fun hst => ?_)) (fun k b hkb => ?_)
    · exact hw.stopped_off hst (ht.stopped hst).2
    · rw [hkb.onto]
      exact Stand.ok rfl hkb.stands
  | semaDown s =>
    have h0 : Wf I P (some a.cur) { a with intr := false } := intrOff_wf hw
    exact @semaDownLoop_stand I P m { a with intr := false } h h0 s (hsema s (by rw [hpc]; rfl)) a.intr
  | semaLoop s old => exact semaDownLoop_stand h hw (hsema s (by rw [hpc]; rfl)) old
  | semaUp s => exact semaUp_stand h hw (hsema s (by rw [hpc]; rfl))
  | acqAssert l | relAssert l | relAssertOne l => exact Agree.cons rfl (fun _ => Stand.ok rfl h)
  | acqTest l | acqHolder l | acqNr l | acqInc l | acqIncStore l nr | relTest l | relDec l | relDecStore l nr
  | relClear l | relZero l => exact Stand.ok rfl h

theorem step_stand (h : Stands (lists I) m a.queues) (hw : Wf I P (some a.cur) a) {op : Op} (hl : Legal I a op) :
    Agree (Stand I) (step (a.onto m) op) (step a op) := by
  cases op with
  | timer => exact intrTimerHandler_stand h hw
  | go =>
    cases hr : (a.task a.cur).resume with
    | none =>
      rw [step_go_exec (k := a.onto m) hr, step_go_exec hr]
      exact exec_stand h hw hr hl.2
    | some r =>
      rw [step_go_resume (k := a.onto m) hr, step_go_resume hr]
      cases r <;> exact Stand.ok rfl h
  | call c =>
    obtain ⟨⟨-, -, hl⟩, -⟩ := hl
    cases c with
    | threadStart page prio =>
      cases page with
      | none => rfl
      | some t => exact threadStart_stand h hw (hl) prio
    | threadYield => exact threadYield_stand h hw
    | threadBlock stat => exact threadBlock_stand h (hw.fuel ready_lists) stat
    | threadUnblock t => exact Agree.cons rfl (fun _ => Stand.ok rfl h)
    | intrEnable | intrDisable | semaDown n | semaUp n | lockAcquire l | lockRelease l => exact Stand.ok rfl h

/-! ## Runs -/

/-- Before `threads_init`: interrupts are off, and the waiters lists of `I` are empty. -/
structure Boot (I : Set Sema) (k : Kernel (Links Node)) : Prop where
  intrOff : k.intr = false
  waiters : ∀ s ∈ I, IsList k.queues (Qid.waiters s).plist []

/-- After `threads_init`. -/
def Booted (I : Set Sema) (k : Kernel (Links Node)) : Prop := ∃ k0, Boot I k0 ∧ threadsInit k0 = .ok k

/-- The sequences after `threads_init`. -/
def bootQueues (main : Tid) : Queues := Function.update (fun _ => []) .all [main]

/-- The kernel after `threads_init`, on sequences. -/
def booted (k : Kernel (Links Node)) : Kernel Queues :=
  { initThread { k.onto (bootQueues k.cur) with mainThread := k.cur } k.cur 31 with
    created := [k.cur] }

theorem booted_task (k : Kernel (Links Node)) : (booted k).task k.cur =
    ⟨.running, 31, 31, 0, 0x19870916, .run, none, fun _ => 0⟩ := by
  simp [booted, initThread]

theorem booted_wf {k : Kernel (Links Node)} (h : k.intr = false) : Wf I ∅ (some (booted k).cur) (booted k) := by
  have hc : (booted k).cur = k.cur := rfl
  have hcr : (booted k).created = [k.cur] := rfl
  have hbq : (booted k).queues = bootQueues k.cur := rfl
  have hq : ∀ i, i ≠ .all → (booted k).queues i = [] := fun i hi => by simp [hbq, bootQueues, hi]
  have hall : (booted k).queues .all = [k.cur] := by simp [hbq, bootQueues]
  have htask := booted_task k
  refine ⟨by simp [hcr], by simp [hcr, hc], by rw [hcr]; exact List.mem_singleton_self _, fun t ht => ?_, fun t => ?_,
    by simp [hq], fun s _ t => ?_, fun s _ => by simp [hq], fun t => by simp [hall, hcr], by simp [hall],
    fun t ht => ?_, fun t ht hne => ?_, fun _ => h⟩
  · rw [hcr, List.mem_singleton] at ht
    subst ht; simp [htask, hc]
  · rw [hq _ (by simp), hcr, List.mem_singleton]
    refine ⟨fun hm => (by simp at hm), ?_⟩
    intro hex
    obtain ⟨rfl, hs⟩ := hex
    rw [htask] at hs; cases hs
  · rw [hq _ (by simp), hcr, List.mem_singleton]
    refine ⟨fun hm => (by simp at hm), ?_⟩
    intro hex
    obtain ⟨rfl, hs, -⟩ := hex
    rw [htask] at hs; cases hs
  · rw [hcr, List.mem_singleton] at ht
    subst ht
    rw [htask]
    exact ⟨fun hn => absurd rfl hn, trivial, by simp [Pc.isLoop], rfl⟩
  · rw [hcr, List.mem_singleton] at ht
    exact absurd ht hne

theorem lists_eq : lists I = insert .all (insert .ready {i | ∃ s ∈ I, i = .waiters s}) := by
  ext i
  cases i with
  | ready => simp [lists]
  | all => simp [lists]
  | waiters s => simp [lists]

theorem threadsInit_stand {k : Kernel (Links Node)} (h : Boot I k) : ∃ k', threadsInit k = .ok k' ∧ Stand I k' (booted k) := by
  have h0 : Stands {i | ∃ s ∈ I, i = .waiters s} k.queues (fun _ => []) := by
    refine ⟨?_, fun i _ => by simp [nodesOf, PList.nodes, Qid.plist], fun i _ j _ hij b hb => ?_⟩
    · intro i hex
      obtain ⟨s, hs, rfl⟩ := hex
      exact h.waiters s hs
    · simp only [nodesOf, PList.nodes, Qid.plist, List.map_nil, List.nil_append, List.mem_pair] at hb ⊢
      rcases hb with rfl | rfl <;> simpa using hij
  have h1 := (h0.init (i := .ready) (by simp)).init (i := .all) (by simp)
  rw [← lists_eq] at h1
  have hq : QueueStore.append (QueueStore.init (QueueStore.init (fun _ => [] : Queues) .ready) .all) .all k.cur
      = bootQueues k.cur := by
    funext j
    cases j <;> simp [bootQueues]
  have hempty : ∀ j ∈ lists I, k.cur ∉ (QueueStore.init (QueueStore.init (fun _ => [] : Queues) .ready) .all) j :=
    fun j _ => by simp [Function.update_apply]
  have h2 := h1.zeroTags hempty
  have h3 := h2.append all_lists (t := k.cur) (fun j hj _ => hempty j hj)
  have hfind : QueueStore.find (k.created.length + 2)
      (QueueStore.zeroTags (QueueStore.init (QueueStore.init k.queues .ready) .all) k.cur) .all k.cur = .ok false := by
    rw [h2.find all_lists (by simp) k.cur]
    simp
  rw [queues_zeroTags, hq] at h3
  refine ⟨(booted k).onto _, ?_, rfl, h3⟩
  show (do
    let found ← QueueStore.find (k.created.length + 2)
      (QueueStore.zeroTags (QueueStore.init (QueueStore.init k.queues .ready) .all) k.cur) .all k.cur
    assert (!found) .makeMainFind
    .ok _) = _
  rw [hfind]
  rfl

/-- The states of all runs from `threads_init` on. `F` is what holds of the semaphores and
    locks at first, `E` what the running thread's own state lets it do. -/
def Runs (I : Set Sema) (F : (Sema → Nat) → (LockId → Lock) → Prop) (E : Task → Op → Prop) :
    Kernel (Links Node) → Prop :=
  Reach (fun k => Booted I k ∧ F k.value k.lock) (fun k op => Legal I k op ∧ E (k.task k.cur) op) step

variable {F : (Sema → Nat) → (LockId → Lock) → Prop} {E : Task → Op → Prop} {k : Kernel (Links Node)}

theorem Stand.legal (h : Stand I k a) {op : Op} (hl : Legal I k op) : Legal I a op := by
  rw [h.onto] at hl
  exact hl

theorem Stand.step (h : Stand I k a) (hw : Wf I P (some a.cur) a) {op : Op} (hl : Legal I a op) :
    Agree (Stand I) (TinyOs.Thread.step k op) (TinyOs.Thread.step a op) := by
  rw [h.onto]
  exact step_stand h.stands hw hl

/-- What holds on sequences after `threads_init` and is kept by every step holds of some
    sequences the links stand for, in every state of every run. -/
theorem Runs.invariant {Q : Kernel Queues → Prop} (h : Runs I F E k) (h0 : ∀ k0, F k0.value k0.lock → Q (booted k0))
    (hs : ∀ a a' op, Wf I ∅ (some a.cur) a → Q a → Legal I a op → E (a.task a.cur) op → TinyOs.Thread.step a op = .ok a' → Q a') :
    ∃ a, Stand I k a ∧ Wf I ∅ (some a.cur) a ∧ Q a := by
  let first' : Kernel Queues → Prop := fun a => ∃ k0, Boot I k0 ∧ F k0.value k0.lock ∧ a = booted k0
  let legal' : Kernel Queues → Op → Prop := fun a op => Legal I a op ∧ E (a.task a.cur) op
  have hinv : ∀ a, Reach first' legal' TinyOs.Thread.step a → Wf I ∅ (some a.cur) a ∧ Q a := fun a ha => by
    refine ha.invariant (P := fun a => Wf I ∅ (some a.cur) a ∧ Q a) ?_ (fun a a' op hi hl hk => ?_)
    · intro _ hex
      obtain ⟨k0, hb, hF, rfl⟩ := hex
      exact ⟨booted_wf hb.intrOff, h0 k0 hF⟩
    · exact ⟨step_wf hi.1 (fun t ht => absurd ht (Set.notMem_empty t)) hl.1 hk, hs a a' op hi.1 hi.2 hl.1 hl.2 hk⟩
  have hsim : ∃ a, Reach first' legal' TinyOs.Thread.step a ∧ Stand I k a := by
    refine Reach.simulate (fun k1 hk1 => ?_) (fun k1 a op hst ha hl => ?_) h
    · obtain ⟨⟨k0, hb, hk0⟩, hF⟩ := hk1
      obtain ⟨k', hk', hst⟩ := threadsInit_stand hb
      rw [hk0] at hk'
      cases hk'
      rw [hst.onto] at hF
      exact ⟨booted k0, ⟨k0, hb, hF, rfl⟩, hst⟩
    · have hl' : Legal I a op := hst.legal hl.1
      have hE := hl.2
      rw [hst.onto] at hE
      exact ⟨⟨hl', hE⟩, hst.step (hinv a ha).1 hl'⟩
  obtain ⟨a, ha, hst⟩ := hsim
  exact ⟨a, hst, hinv a ha⟩

end TinyOs.Thread
