import Grommet.Core.Queue
import Mathlib.Data.List.GetD
import Mathlib.Data.Set.Card
import Mathlib.Logic.Relation

/-!
# Many queues over one slab

A slab serves the lists of any number of keys.  `Bank.run` performs `push_back`, `pop_front`
and `front` on them in any order, and `Queues.run` does the same with queues that share
nothing.  The two agree on every returned item, the lists never meet each other or the free
list, and the slab has as many nodes as there were items queued at once.
-/

open Checked

namespace Grommet.Queue

variable {ι T : Type}

/-! ### Reachable nodes -/

/-- Following links from a member of a list stays in the list. -/
theorem mem_of_reaches {f : ι → Option ι} {l : List ι} (h : Follows f none l) {x y : ι}
    (hx : x ∈ l) (hy : Relation.ReflTransGen (fun y z => f y = some z) x y) :
  y ∈ l
  := by
  induction hy with
  | refl => exact hx
  | tail _ hlink ih =>
    obtain ⟨a, b, rfl⟩ := List.append_of_mem ih
    rw [h.link, Option.or_none] at hlink
    rw [List.mem_append, List.mem_cons]
    exact Or.inr (Or.inr (List.mem_of_head? hlink))

namespace Slab

variable {slab slab' : Slab T} {list list' : Fifo} {item : T}

/-- The node `x` is met on the chain that starts at `index`. -/
def Reaches (slab : Slab T) (index x : ℕ) : Prop :=
  index ≠ NIL ∧ Relation.ReflTransGen (fun y z => slab.link y = some z) index x

/-! ### The size of the slab -/

theorem popFront_capacity {front : Option T} (h : slab.popFront list = .ok (slab', list', front)) :
  slab'.capacity = slab.capacity
  := by
  rw [popFront] at h
  split at h
  · cases h
    rfl
  · simp only [bind_eq_ok] at h
    obtain ⟨node, -, len, -, _, -, h⟩ := h
    cases h
    rw [capacity, List.length_set, capacity]

theorem alloc_capacity {index : ℕ} (h : slab.alloc item = .ok (slab', index)) :
  slab'.capacity = slab.capacity ∨ slab.free = NIL ∧ slab'.capacity = slab.capacity + 1
  := by
  rw [alloc] at h
  split at h
  · rw [bind_eq_ok] at h
    obtain ⟨node, -, h⟩ := h
    cases h
    left
    rw [capacity, List.length_set, capacity]
  · rename_i hfull
    simp only [bind_eq_ok] at h
    obtain ⟨_, -, h⟩ := h
    cases h
    right
    refine ⟨not_not.mp hfull, ?_⟩
    rw [capacity, List.length_append, List.length_singleton, capacity]

/-- The slab grows only when it has no free node. -/
theorem pushBack_capacity (h : slab.pushBack list item = .ok (slab', list')) :
  slab'.capacity = slab.capacity ∨ slab.free = NIL ∧ slab'.capacity = slab.capacity + 1
  := by
  rw [pushBack, bind_eq_ok] at h
  obtain ⟨⟨slab₁, index⟩, halloc, h⟩ := h
  have hcase := alloc_capacity halloc
  simp only at h
  split at h
  · cases h
    apply hcase
  · rw [bind_eq_ok] at h
    obtain ⟨node, -, h⟩ := h
    cases h
    rw [capacity, List.length_set]
    apply hcase

end Slab

/-! ### Independent queues -/

/-- An operation on one of the lists. -/
inductive Op (ι T : Type) where
  | pushBack (list : ι) (item : T)
  | popFront (list : ι)
  | front (list : ι)

/-- The list that an operation is on. -/
def Op.list : Op ι T → ι
  | .pushBack i _ => i
  | .popFront i => i
  | .front i => i

/-- One queue for each list, none of them sharing anything with another. -/
abbrev Queues (ι T : Type) : Type := ι → List T

namespace Queues

/-- The queues before any operation. -/
def none : Queues ι T := fun _ => []

/-- The places of the queued items: the queue of each and its position there. -/
def places (q : Queues ι T) : Set (ι × ℕ) := {e | e.2 < (q e.1).length}

/-- The number of items queued in all queues together. -/
noncomputable def queued (q : Queues ι T) : ℕ := q.places.ncard

variable [DecidableEq ι]

/-- An operation on the queues, with the item it returns. -/
def perform (q : Queues ι T) : Op ι T → Queues ι T × Option T
  | .pushBack i item => (Function.update q i (q i ++ [item]), Option.none)
  | .popFront i => (Function.update q i (q i).tail, (q i).head?)
  | .front i => (q, (q i).head?)

/-- A sequence of operations on the queues, with the items they return. -/
def run (q : Queues ι T) : List (Op ι T) → Queues ι T × List (Option T)
  | [] => (q, [])
  | op :: ops =>
    let (q', item) := q.perform op
    let (q'', items) := run q' ops
    (q'', item :: items)

/-- The most items that are queued at once during a sequence of operations. -/
noncomputable def peak (q : Queues ι T) : List (Op ι T) → ℕ
  | [] => q.queued
  | op :: ops => max q.queued (peak (q.perform op).1 ops)

/-- An operation leaves the other queues as they are. -/
theorem perform_other (q : Queues ι T) {op : Op ι T} {j : ι} (hj : j ≠ op.list) :
  (q.perform op).1 j = q j
  := by
  cases op with
  | pushBack i item => exact Function.update_of_ne hj _ _
  | popFront i => exact Function.update_of_ne hj _ _
  | front i => rfl

/-- A pushed item takes one place more. -/
theorem queued_push {q : Queues ι T} (hfinite : q.places.Finite) (i : ι) (item : T) :
  (q.perform (.pushBack i item)).1.queued = q.queued + 1
  := by
  have hplaces : (q.perform (.pushBack i item)).1.places = insert (i, (q i).length) q.places := by
    ext ⟨j, n⟩
    by_cases hj : j = i
    · subst hj
      simp [places, perform]
      omega
    · simp [places, perform, hj]
  have hfresh : (i, (q i).length) ∉ q.places := by
    simp [places]
  rw [queued, hplaces, Set.ncard_insert_of_notMem hfresh hfinite, queued]

theorem queued_le_peak (q : Queues ι T) (ops : List (Op ι T)) :
  q.queued ≤ q.peak ops
  := by
  cases ops with
  | nil => exact le_rfl
  | cons op ops => exact le_max_left _ _

end Queues

/-! ### The lists of a slab -/

namespace Slab.Owns

variable {slab : Slab T} {lists : ι → Fifo} {view : Queues ι (ℕ × T)} {free : List ℕ}

/-- The places of the queued items are the nodes that are not free. -/
theorem bijOn (h : slab.Owns lists view free) :
  Set.BijOn (fun e : ι × ℕ => ((view e.1).map Prod.fst).getD e.2 0) view.places
    {x | x < slab.nodes.length ∧ x ∉ free}
  := by
  have hget : ∀ e ∈ view.places,
      ((view e.1).map Prod.fst).getD e.2 0 ∈ (view e.1).map Prod.fst := by
    intro e he
    have hlt : e.2 < ((view e.1).map Prod.fst).length := by
      simpa [Queues.places] using he
    rw [List.getD_eq_getElem _ _ hlt]
    apply List.getElem_mem
  refine ⟨?_, ?_, ?_⟩
  · intro e he
    have hmem := hget e he
    refine ⟨h.lt_length hmem, ?_⟩
    intro hfree
    apply h.freeDisjoint e.1 _ hfree hmem
  · rintro ⟨i, n⟩ he ⟨j, m⟩ he' heq
    have hmem' := hget _ he'
    have hij : i = j := by
      apply h.disjoint i j _ (hget _ he)
      simp only at heq hmem' ⊢
      rw [heq]
      exact hmem'
    subst hij
    have hn : n < ((view i).map Prod.fst).length := by
      simpa [Queues.places] using he
    have hm : m < ((view i).map Prod.fst).length := by
      simpa [Queues.places] using he'
    simp only [List.getD_eq_getElem _ _ hn, List.getD_eq_getElem _ _ hm] at heq
    rw [((h.nodup i).getElem_inj_iff).mp heq]
  · rintro x ⟨hx, hfree⟩
    obtain ⟨i, hi⟩ := ((h.range x).mp hx).resolve_left hfree
    obtain ⟨n, hn, rfl⟩ := List.mem_iff_getElem.mp hi
    use (i, n)
    constructor
    · simpa [Queues.places] using hn
    · simp only [List.getD_eq_getElem _ _ hn]

/-- Only finitely many items are queued. -/
theorem places_finite (h : slab.Owns lists view free) :
  view.places.Finite
  := by
  rw [h.bijOn.finite_iff_finite]
  apply (Set.finite_lt_nat slab.nodes.length).subset
  intro x hx
  exact hx.1

/-- Every node is free or holds a queued item. -/
theorem length_eq (h : slab.Owns lists view free) :
  slab.capacity = free.length + view.queued
  := by
  have hset : {x | x < slab.nodes.length ∧ x ∉ free} =
      ↑(Finset.range slab.nodes.length \ free.toFinset) := by
    ext x
    simp
  have hsub : free.toFinset ⊆ Finset.range slab.nodes.length := by
    intro x hx
    rw [List.mem_toFinset] at hx
    rw [Finset.mem_range]
    exact (h.range x).mpr (Or.inl hx)
  have hle := Finset.card_le_card hsub
  rw [Finset.card_range, List.toFinset_card_of_nodup h.freeNodup] at hle
  rw [Queues.queued, h.bijOn.ncard_eq, hset, Set.ncard_coe_finset,
    Finset.card_sdiff_of_subset hsub, Finset.card_range, List.toFinset_card_of_nodup h.freeNodup,
    capacity]
  omega

/-- A node met from the head of a list is a node of that list. -/
theorem mem_of_reaches (h : slab.Owns lists view free) {i : ι} {x : ℕ}
    (hx : slab.Reaches (lists i).head x) :
  x ∈ (view i).map Prod.fst
  := by
  have hhead := h.head i
  rw [ofSentinel_of_ne hx.1, ← List.head?_map] at hhead
  exact Queue.mem_of_reaches (h.follows i) (List.mem_of_head? hhead.symm) hx.2

/-- A node met from the head of the free list is free. -/
theorem mem_of_reaches_free (h : slab.Owns lists view free) {x : ℕ}
    (hx : slab.Reaches slab.free x) :
  x ∈ free
  := by
  have hhead := h.freeHead
  rw [ofSentinel_of_ne hx.1] at hhead
  exact Queue.mem_of_reaches h.freeFollows (List.mem_of_head? hhead.symm) hx.2

end Slab.Owns

/-- A slab with the lists over it. -/
structure Bank (ι T : Type) where
  slab : Slab T
  lists : ι → Fifo

namespace Bank

/-- A new slab, with lists that hold nothing. -/
def new (capacity : ℕ) : Bank ι T := ⟨Slab.withCapacity capacity, fun _ => {}⟩

/-- The lists behave as the queues `q`, and they keep to nodes of their own. -/
structure Refines (b : Bank ι T) (q : Queues ι T) : Prop where
  contents : ∀ i, b.slab.contents (b.lists i) = q i
  front : ∀ i, b.slab.front (b.lists i) = .ok (q i).head?
  len : ∀ i, (b.lists i).len = (q i).length
  fits : ∀ i, (b.lists i).len < 2 ^ 32
  listInRange : ∀ i x, b.slab.Reaches (b.lists i).head x → x < b.slab.nodes.length
  tailInRange : ∀ i, (b.lists i).tail ≠ NIL → (b.lists i).tail < b.slab.nodes.length
  freeInRange : ∀ x, b.slab.Reaches b.slab.free x → x < b.slab.nodes.length
  listsApart : ∀ i j x, b.slab.Reaches (b.lists i).head x → b.slab.Reaches (b.lists j).head x →
    i = j
  freeApart : ∀ i x, b.slab.Reaches (b.lists i).head x → ¬b.slab.Reaches b.slab.free x

/-- The lists of the bank hold the items of `q`, each in a node of its own. -/
def Serves (b : Bank ι T) (q : Queues ι T) : Prop :=
  ∃ view free, b.slab.Owns b.lists view free ∧ ∀ i, q i = (view i).map Prod.snd

namespace Serves

variable {b : Bank ι T} {q : Queues ι T}

theorem new (capacity : ℕ) :
  (Bank.new capacity : Bank ι T).Serves Queues.none
  := ⟨fun _ => [], [], Slab.Owns.empty capacity, fun _ => rfl⟩

/-- The queues hold as many items as the lists have nodes. -/
theorem places_eq {view : Queues ι (ℕ × T)} (hq : ∀ i, q i = (view i).map Prod.snd) :
  q.places = view.places
  := by
  ext e
  simp [Queues.places, hq]

/-- The number of nodes bounds the number of queued items. -/
theorem queued_le (h : b.Serves q) :
  q.queued ≤ b.slab.capacity ∧ b.slab.capacity ≤ NIL
  := by
  obtain ⟨view, free, how, hq⟩ := h
  have hlength := how.length_eq
  rw [Queues.queued, places_eq hq, ← Queues.queued]
  constructor
  · omega
  · exact how.bound

/-- A slab without a free node holds a queued item in every node. -/
theorem queued_of_full (h : b.Serves q) (hfull : b.slab.free = NIL) :
  q.queued = b.slab.capacity ∧ q.places.Finite
  := by
  obtain ⟨view, free, how, hq⟩ := h
  have hnil : free = [] := by
    rw [← List.head?_eq_none_iff, ← how.freeHead, hfull]
    rfl
  have hlength := how.length_eq
  rw [hnil, List.length_nil, Nat.zero_add] at hlength
  rw [Queues.queued, places_eq hq, hlength]
  exact ⟨rfl, how.places_finite⟩

theorem refines (h : b.Serves q) :
  b.Refines q
  := by
  obtain ⟨view, free, how, hq⟩ := h
  constructor
  · intro i
    rw [how.contents, hq]
  · intro i
    rw [how.front, hq, List.head?_map]
  · intro i
    rw [how.len, hq, List.length_map]
  · intro i
    have hsub : (view i).length ≤ b.slab.nodes.length := by
      have hle := (List.subperm_of_subset (how.nodup i) (fun x hx =>
        List.mem_range.mpr (how.lt_length hx))).length_le
      simpa using hle
    have hbound := how.bound
    have hnil : NIL < 2 ^ 32 := by decide
    rw [how.len]
    omega
  · intro i x hx
    exact how.lt_length (how.mem_of_reaches hx)
  · intro i hi
    have htail := how.tail i
    rw [ofSentinel_of_ne hi, ← List.getLast?_map] at htail
    exact how.lt_length (List.mem_of_getLast? htail.symm)
  · intro x hx
    exact (how.range x).mpr (Or.inl (how.mem_of_reaches_free hx))
  · intro i j x hi hj
    exact how.disjoint i j x (how.mem_of_reaches hi) (how.mem_of_reaches hj)
  · intro i x hi hfree
    exact how.freeDisjoint i x (how.mem_of_reaches_free hfree) (how.mem_of_reaches hi)

end Serves

variable [DecidableEq ι]

/-- An operation on the lists, with the item it returns. -/
def perform (b : Bank ι T) : Op ι T → Checked (Bank ι T × Option T)
  | .pushBack i item => do
    let (slab, list) ← b.slab.pushBack (b.lists i) item
    .ok (⟨slab, Function.update b.lists i list⟩, none)
  | .popFront i => do
    let (slab, list, item) ← b.slab.popFront (b.lists i)
    .ok (⟨slab, Function.update b.lists i list⟩, item)
  | .front i => do
    let item ← b.slab.front (b.lists i)
    .ok (b, item)

/-- A sequence of operations on the lists, with the items they return. -/
def run (b : Bank ι T) : List (Op ι T) → Checked (Bank ι T × List (Option T))
  | [] => .ok (b, [])
  | op :: ops => do
    let (b, item) ← b.perform op
    let (b, items) ← b.run ops
    .ok (b, item :: items)

namespace Serves

variable {b : Bank ι T} {q : Queues ι T}

/-- Updating one list and one queue alike. -/
theorem map_update {view : Queues ι (ℕ × T)} (hq : ∀ i, q i = (view i).map Prod.snd) (i : ι)
    (entries : List (ℕ × T)) (j : ι) :
  Function.update q i (entries.map Prod.snd) j = (Function.update view i entries j).map Prod.snd
  := by
  by_cases hj : j = i
  · subst hj
    rw [Function.update_self, Function.update_self]
  · rw [Function.update_of_ne hj, Function.update_of_ne hj, hq]

/-- A push either appends to one queue, or fails because every node holds a queued item. -/
theorem pushBack (h : b.Serves q) (i : ι) (item : T) :
  (∃ b', b.perform (.pushBack i item) = .ok (b', none) ∧
      b'.Serves (q.perform (.pushBack i item)).1 ∧
      b'.slab.capacity = max b.slab.capacity (q.perform (.pushBack i item)).1.queued) ∨
    b.perform (.pushBack i item) = .error (.assertion Slab.exceeded) ∧
      NIL < (q.perform (.pushBack i item)).1.queued
  := by
  have hserves := h
  obtain ⟨view, free, how, hq⟩ := h
  rcases how.pushBack i item with ⟨hfree, hfull, herror⟩ | ⟨slab, list, x, free', hok, how'⟩
  · right
    have hnil : b.slab.free = NIL := by
      have hhead := how.freeHead
      rw [hfree, List.head?_nil, ofSentinel_eq_none_iff] at hhead
      exact hhead
    obtain ⟨hqueued, hfinite⟩ := hserves.queued_of_full hnil
    constructor
    · rw [perform, herror]
      rfl
    · rw [Queues.queued_push hfinite, hqueued, Slab.capacity, hfull]
      exact Nat.lt_succ_self _
  · left
    have hserves' : Serves ⟨slab, Function.update b.lists i list⟩
        (q.perform (.pushBack i item)).1 := by
      refine ⟨_, free', how', ?_⟩
      intro j
      rw [← map_update hq i, List.map_append, ← hq i]
      rfl
    refine ⟨⟨slab, Function.update b.lists i list⟩, ?_, hserves', ?_⟩
    · rw [perform, hok]
      rfl
    · have hle := hserves'.queued_le.1
      rcases Slab.pushBack_capacity hok with hsame | ⟨hnil, hmore⟩
      · rw [hsame] at hle ⊢
        exact (max_eq_left hle).symm
      · obtain ⟨hqueued, hfinite⟩ := hserves.queued_of_full hnil
        rw [Queues.queued_push hfinite, hqueued, hmore]
        exact (max_eq_right (Nat.le_succ _)).symm

/-- A pop takes the first item of one queue. -/
theorem popFront (h : b.Serves q) (i : ι) :
  ∃ b', b.perform (.popFront i) = .ok (b', (q i).head?) ∧
    b'.Serves (q.perform (.popFront i)).1 ∧ b'.slab.capacity = b.slab.capacity
  := by
  obtain ⟨view, free, how, hq⟩ := h
  cases hv : view i with
  | nil =>
    have hempty : q i = [] := by
      rw [hq, hv, List.map_nil]
    have hlist := how.eq_default hv
    refine ⟨b, ?_, ⟨view, free, how, ?_⟩, rfl⟩
    · rw [perform, hlist, Slab.popFront, if_pos rfl, hempty, ok_bind, ← hlist]
      simp
    · intro j
      simp only [Queues.perform, hempty, List.tail_nil]
      rw [← hempty, Function.update_eq_self]
      apply hq j
  | cons e rest =>
    obtain ⟨slab, list, hok, how'⟩ := how.popFront hv
    have hi : q i = e.2 :: rest.map Prod.snd := by
      rw [hq, hv, List.map_cons]
    refine ⟨⟨slab, Function.update b.lists i list⟩, ?_, ⟨_, _, how', ?_⟩,
      Slab.popFront_capacity hok⟩
    · rw [perform, hok, hi]
      rfl
    · intro j
      simp only [Queues.perform, hi, List.tail_cons]
      apply map_update hq i

/-- Reading the first item changes nothing. -/
theorem front (h : b.Serves q) (i : ι) :
  b.perform (.front i) = .ok (b, (q i).head?)
  := by
  rw [perform, h.refines.front i]
  rfl

/-- Every operation agrees with the one on the queues, and the slab grows when more items are
queued than ever before. -/
theorem perform (h : b.Serves q) (op : Op ι T) :
  (∃ b', b.perform op = .ok (b', (q.perform op).2) ∧ b'.Serves (q.perform op).1 ∧
      b'.slab.capacity = max b.slab.capacity (q.perform op).1.queued) ∨
    b.perform op = .error (.assertion Slab.exceeded) ∧
      NIL < (q.perform op).1.queued
  := by
  cases op with
  | pushBack i item => exact h.pushBack i item
  | popFront i =>
    left
    obtain ⟨b', hok, hserves, hcapacity⟩ := h.popFront i
    refine ⟨b', hok, hserves, ?_⟩
    have hle := hserves.queued_le.1
    rw [hcapacity] at hle ⊢
    exact (max_eq_left hle).symm
  | front i =>
    left
    exact ⟨b, h.front i, h, (max_eq_left h.queued_le.1).symm⟩

/-- Every sequence of operations agrees with the one on the queues, unless it stops at a push
that finds all nodes in use. -/
theorem run (h : b.Serves q) (ops : List (Op ι T)) :
  (∃ b', b.run ops = .ok (b', (q.run ops).2) ∧ b'.Serves (q.run ops).1 ∧
      b'.slab.capacity = max b.slab.capacity (q.peak ops)) ∨
    b.run ops = .error (.assertion Slab.exceeded) ∧ NIL < q.peak ops
  := by
  induction ops generalizing b q with
  | nil => exact Or.inl ⟨b, rfl, h, (max_eq_left h.queued_le.1).symm⟩
  | cons op ops ih =>
    rcases h.perform op with ⟨b₁, hok, hserves, hcapacity⟩ | ⟨herror, hmany⟩
    · have hpeak := (q.perform op).1.queued_le_peak ops
      have hqueued := h.queued_le.1
      rcases ih hserves with ⟨b₂, hok', hserves', hcapacity'⟩ | ⟨herror, hmany⟩
      · left
        refine ⟨b₂, ?_, hserves', ?_⟩
        · rw [Bank.run, hok, ok_bind]
          simp only [hok', ok_bind]
          rfl
        · rw [hcapacity', hcapacity, Queues.peak]
          omega
      · right
        constructor
        · rw [Bank.run, hok, ok_bind]
          simp only [herror, error_bind]
        · rw [Queues.peak]
          omega
    · right
      have hpeak := (q.perform op).1.queued_le_peak ops
      constructor
      · rw [Bank.run, herror, error_bind]
      · rw [Queues.peak]
        omega

end Serves

/-- An operation leaves the other lists as they are. -/
theorem perform_other {b b' : Bank ι T} {op : Op ι T} {item : Option T}
    (h : b.perform op = .ok (b', item)) {j : ι} (hj : j ≠ op.list) :
  b'.lists j = b.lists j
  := by
  cases op with
  | pushBack i x =>
    rw [perform, bind_eq_ok] at h
    obtain ⟨⟨slab, list⟩, -, h⟩ := h
    cases h
    exact Function.update_of_ne hj _ _
  | popFront i =>
    rw [perform, bind_eq_ok] at h
    obtain ⟨⟨slab, list, popped⟩, -, h⟩ := h
    cases h
    exact Function.update_of_ne hj _ _
  | front i =>
    rw [perform, bind_eq_ok] at h
    obtain ⟨first, -, h⟩ := h
    cases h
    rfl

/-- The items of the other lists stay as they are, too. -/
theorem Serves.contents_other {b b' : Bank ι T} {q : Queues ι T} (hserves : b.Serves q)
    {op : Op ι T} {item : Option T} (h : b.perform op = .ok (b', item)) {j : ι}
    (hj : j ≠ op.list) :
  b'.slab.contents (b'.lists j) = b.slab.contents (b.lists j)
  := by
  rcases hserves.perform op with ⟨b₁, hok, hserves', -⟩ | ⟨herror, -⟩
  · rw [h] at hok
    cases hok
    rw [hserves'.refines.contents, hserves.refines.contents, q.perform_other hj]
  · rw [h] at herror
    cases herror

/-- The lists over one slab are independent FIFO queues.  A sequence of operations returns what
the queues return, leaves lists that refine them and an arena of as many nodes as items were
queued at once, and whatever operation comes next leaves the other lists as they are.  The one
way to stop is a push beyond `NIL` items queued at once. -/
theorem lists_are_independent_queues (capacity : ℕ) (ops : List (Op ι T)) :
  (∃ b : Bank ι T, (Bank.new capacity).run ops = .ok (b, (Queues.none.run ops).2) ∧
      b.Refines (Queues.none.run ops).1 ∧
      b.slab.capacity = Queues.none.peak ops ∧ Queues.none.peak ops ≤ NIL ∧
      ∀ op b' item j, b.perform op = .ok (b', item) → j ≠ op.list →
        b'.lists j = b.lists j ∧ b'.slab.contents (b'.lists j) = b.slab.contents (b.lists j)) ∨
    (Bank.new capacity : Bank ι T).run ops =
        .error (.assertion Slab.exceeded) ∧
      NIL < Queues.none.peak ops
  := by
  rcases (Serves.new capacity).run ops with ⟨b, hok, hserves, hcapacity⟩ | hstopped
  · left
    have hpeak : b.slab.capacity = Queues.none.peak ops := by
      rw [hcapacity]
      apply Nat.zero_max
    refine ⟨b, hok, hserves.refines, hpeak, ?_, ?_⟩
    · rw [← hpeak]
      exact hserves.queued_le.2
    · intro op b' item j h hj
      exact ⟨perform_other h hj, hserves.contents_other h hj⟩
  · exact Or.inr hstopped

/-- Nodes are recycled between lists: two are enough for three items. -/
example :
  ((Bank.new 0 : Bank Bool ℕ).run [.pushBack true 1, .pushBack false 2, .popFront true,
      .pushBack false 3, .front false, .popFront false]).map
    (fun r => (r.1.slab.capacity, r.2)) =
    .ok (2, [none, none, some 1, none, some 2, some 2])
  := by decide

end Bank

end Grommet.Queue
