import Grommet.Library.Checked
import Grommet.Library.Chain
import Mathlib.Algebra.Ring.Nat

/-!
# The queue slab

Every queued item of a shard lives in one arena, and a key owns a head index, a tail
index and a length.  `Slab.alloc`, `pushBack`, `popFront` and `front` are the operations
of the arena; an index out of its range is an assertion failure here.

`Slab.Owns slab lists view free` is the separation invariant: the list `lists i` threads
the indices and items of `view i`, the free nodes are those of `free`, no node is owned
twice and every node is owned.
-/

universe v

open Checked

namespace Grommet.Queue

/-- `u32::MAX`, the end of a chain. -/
def NIL : ℕ := 2 ^ 32 - 1

/-- A node of the arena. -/
structure Node (T : Type) where
  item : Option T
  /-- The next queued item of the owning key, or the next free node. -/
  next : ℕ
  deriving DecidableEq

/-- One key's FIFO: the `List` of the arena. -/
structure Fifo where
  head : ℕ := NIL
  tail : ℕ := NIL
  len : ℕ := 0
  deriving DecidableEq

instance : Inhabited Fifo := ⟨{}⟩

/-- Whether a FIFO holds no item. -/
def Fifo.isEmpty (list : Fifo) : Bool := list.len == 0

/-- The shard-wide arena backing every key's FIFO. -/
structure Slab (T : Type) where
  nodes : List (Node T)
  free : ℕ
  deriving DecidableEq

namespace Slab

variable {T : Type}

/-- An empty arena.  Reserved capacity has no effect on its contents. -/
def withCapacity (_capacity : ℕ) : Slab T :=
  ⟨[], NIL⟩

/-- Nodes currently held by the arena, freed ones included. -/
def capacity (slab : Slab T) : ℕ := slab.nodes.length

/-- The node at an index, which must be in range. -/
def node (slab : Slab T) (index : ℕ) : Checked (Node T) :=
  match slab.nodes[index]? with
  | some node => .ok node
  | none => .error (.assertion "slab access out of range")

/-- What the arena says when it has no index left. -/
def exceeded : String := s!"queue slab exceeded {NIL} live items"

/-- Store an item in a free node, or in a new one. -/
def alloc (slab : Slab T) (item : T) : Checked (Slab T × ℕ) :=
  if slab.free ≠ NIL then do
    let node ← slab.node slab.free
    .ok (⟨slab.nodes.set slab.free ⟨some item, NIL⟩, node.next⟩, slab.free)
  else do
    let index := slab.nodes.length % 2 ^ 32
    assert (index != NIL) exceeded
    .ok ({ slab with nodes := slab.nodes ++ [⟨some item, NIL⟩] }, index)

/-- Append an item to a FIFO. -/
def pushBack (slab : Slab T) (list : Fifo) (item : T) : Checked (Slab T × Fifo) := do
  let (slab, index) ← slab.alloc item
  if list.tail = NIL then
    .ok (slab, { head := index, tail := index, len := list.len + 1 })
  else
    let node ← slab.node list.tail
    .ok ({ slab with nodes := slab.nodes.set list.tail { node with next := index } },
      { list with tail := index, len := list.len + 1 })

/-- Remove the first item of a FIFO. -/
def popFront (slab : Slab T) (list : Fifo) : Checked (Slab T × Fifo × Option T) :=
  if list.head = NIL then
    .ok (slab, list, none)
  else do
    let node ← slab.node list.head
    let len ← sub list.len 1
    assert node.item.isSome "a linked node always holds an item"
    .ok (⟨slab.nodes.set list.head ⟨none, slab.free⟩, list.head⟩,
      { head := node.next, tail := if node.next = NIL then NIL else list.tail, len := len },
      node.item)

/-- The first item of a FIFO. -/
def front (slab : Slab T) (list : Fifo) : Checked (Option T) :=
  if list.head = NIL then
    .ok none
  else do
    let node ← slab.node list.head
    .ok node.item

/-- The link of the node at an index. -/
def link (slab : Slab T) (index : ℕ) : Option ℕ :=
  slab.nodes[index]?.bind fun node => ofSentinel NIL node.next

/-- The items of a FIFO, first to last. -/
def contents (slab : Slab T) (list : Fifo) : List T :=
  (walk slab.link list.len (ofSentinel NIL list.head)).filterMap fun index =>
    slab.nodes[index]?.bind Node.item

/-! ### Separation -/

/-- The lists `lists` thread the nodes and items of `view`, beside the free nodes `free`. -/
structure Owns {ι : Type v} (slab : Slab T) (lists : ι → Fifo) (view : ι → List (ℕ × T))
    (free : List ℕ) : Prop where
  follows : ∀ i, Follows slab.link none ((view i).map Prod.fst)
  head : ∀ i, ofSentinel NIL (lists i).head = (view i).head?.map Prod.fst
  tail : ∀ i, ofSentinel NIL (lists i).tail = (view i).getLast?.map Prod.fst
  len : ∀ i, (lists i).len = (view i).length
  item : ∀ i, ∀ e ∈ view i, slab.nodes[e.1]?.map Node.item = some (some e.2)
  nodup : ∀ i, ((view i).map Prod.fst).Nodup
  disjoint : ∀ i j x, x ∈ (view i).map Prod.fst → x ∈ (view j).map Prod.fst → i = j
  freeFollows : Follows slab.link none free
  freeHead : ofSentinel NIL slab.free = free.head?
  freeNodup : free.Nodup
  freeDisjoint : ∀ i x, x ∈ free → x ∉ (view i).map Prod.fst
  range : ∀ x, x < slab.nodes.length ↔ x ∈ free ∨ ∃ i, x ∈ (view i).map Prod.fst
  bound : slab.nodes.length ≤ NIL

namespace Owns

variable {ι : Type v} {slab : Slab T} {lists : ι → Fifo} {view : ι → List (ℕ × T)}
  {free : List ℕ} {i : ι}

/-- An empty arena serves empty lists. -/
theorem empty (capacity : ℕ) :
  Owns (withCapacity capacity : Slab T) (fun _ : ι => {}) (fun _ => []) []
  := by
  constructor <;> simp [withCapacity, NIL]

/-- A list of no items is the default list. -/
theorem eq_default (h : Owns slab lists view free) (hi : view i = []) :
  lists i = {}
  := by
  have hhead := h.head i
  have htail := h.tail i
  have hlen := h.len i
  simp only [hi, List.head?_nil, List.getLast?_nil, Option.map_none, ofSentinel_eq_none_iff,
    List.length_nil] at hhead htail hlen
  cases hl : lists i with
  | mk head tail len =>
    rw [hl] at hhead htail hlen
    subst hhead htail hlen
    rfl

/-- Emptiness of a list is emptiness of its contents. -/
theorem isEmpty_iff (h : Owns slab lists view free) :
  (lists i).isEmpty = true ↔ view i = []
  := by
  simp [Fifo.isEmpty, h.len i]

/-- An index of a list is in range. -/
theorem lt_length (h : Owns slab lists view free) {x : ℕ} (hx : x ∈ (view i).map Prod.fst) :
  x < slab.nodes.length
  := (h.range x).mpr (Or.inr ⟨i, hx⟩)

theorem ne_nil (h : Owns slab lists view free) {x : ℕ} (hx : x < slab.nodes.length) :
  x ≠ NIL
  := by
  have hbound := h.bound
  omega

/-- The first item of a list is the first of its contents. -/
theorem front (h : Owns slab lists view free) :
  slab.front (lists i) = .ok ((view i).head?.map Prod.snd)
  := by
  have hhead := h.head i
  cases hv : view i with
  | nil =>
    rw [h.eq_default hv]
    simp [Slab.front]
  | cons e rest =>
    rw [hv, List.head?_cons, Option.map_some, ofSentinel_eq_some_iff] at hhead
    have hitem := h.item i e (by simp [hv])
    rw [Slab.front, if_neg hhead.2, Slab.node, hhead.1]
    cases hn : slab.nodes[e.1]? with
    | none => simp [hn] at hitem
    | some n =>
      simp only [hn, Option.map_some, Option.some.injEq] at hitem
      simp [hitem]

/-- The items of a list are those of its contents. -/
theorem contents (h : Owns slab lists view free) :
  slab.contents (lists i) = (view i).map Prod.snd
  := by
  have hhead := h.head i
  have hlen := h.len i
  rw [← List.head?_map] at hhead
  rw [← List.length_map Prod.fst] at hlen
  rw [Slab.contents, hhead, hlen, (h.follows i).walk_eq, List.filterMap_map,
    ← List.filterMap_eq_map]
  apply List.filterMap_congr
  intro e he
  have hitem := h.item i e he
  rw [Option.map_eq_some_iff] at hitem
  obtain ⟨node, hnode, hitem⟩ := hitem
  simp [hnode, hitem]

/-- Writing one node changes only its own link. -/
theorem link_set {x y : ℕ} {n : Node T} {f : ℕ} (hx : x < slab.nodes.length) :
  link ⟨slab.nodes.set x n, f⟩ y = if y = x then ofSentinel NIL n.next else slab.link y
  := by
  simp only [link, List.getElem?_set]
  by_cases hy : x = y
  · subst hy
    simp [hx]
  · simp [hy, Ne.symm hy]

end Owns

/-- `slab'` is `slab` with `item` stored in the node `x`, taken from the free nodes `free`
or appended to the arena. -/
structure Allocated (slab slab' : Slab T) (item : T) (x : ℕ) (free free' : List ℕ) : Prop where
  get : slab'.nodes[x]? = some ⟨some item, NIL⟩
  other : ∀ y, y ≠ x → slab'.nodes[y]? = slab.nodes[y]?
  length : ∀ y, y < slab'.nodes.length ↔ y = x ∨ y < slab.nodes.length
  fresh : x ∈ free ∨ slab.nodes.length ≤ x
  mem_free : ∀ y, y ∈ free' ↔ y ∈ free ∧ y ≠ x
  freeHead : ofSentinel NIL slab'.free = free'.head?
  freeFollows : Follows slab.link none free'
  freeNodup : free'.Nodup
  bound : slab'.nodes.length ≤ NIL

namespace Owns

variable {ι : Type v} {slab slab' : Slab T} {lists : ι → Fifo} {view : ι → List (ℕ × T)}
  {free free' : List ℕ} {i : ι} {item : T} {x : ℕ}

/-- Allocation takes the first free node or a new one, and fails exactly when the arena
holds `NIL` nodes and none of them is free. -/
theorem alloc (h : Owns slab lists view free) (item : T) :
  (free = [] ∧ slab.nodes.length = NIL ∧
      slab.alloc item = .error (.assertion Slab.exceeded)) ∨
    ∃ slab' x free', slab.alloc item = .ok (slab', x) ∧ Allocated slab slab' item x free free'
  := by
  have hbound := h.bound
  cases free with
  | nil =>
    have hfree : slab.free = NIL := by
      simpa [ofSentinel_eq_none_iff] using h.freeHead
    have hmod : slab.nodes.length % 2 ^ 32 = slab.nodes.length := by
      apply Nat.mod_eq_of_lt
      rw [NIL] at hbound
      omega
    by_cases hfull : slab.nodes.length = NIL
    · left
      refine ⟨rfl, hfull, ?_⟩
      simp [Slab.alloc, hfree, hfull, NIL, assert]
    · right
      use ⟨slab.nodes ++ [⟨some item, NIL⟩], slab.free⟩, slab.nodes.length, []
      constructor
      · simp only [Slab.alloc, hmod]
        simp [hfree, assert, hfull]
      · constructor
        · simp
        · intro y hy
          rcases Nat.lt_or_gt_of_ne hy with hlt | hgt
          · apply List.getElem?_append_left hlt
          · rw [List.getElem?_eq_none (by simp; omega), List.getElem?_eq_none (by omega)]
        · intro y
          simp only [List.length_append, List.length_singleton]
          omega
        · simp
        · simp
        · simp [hfree]
        · trivial
        · simp
        · simp only [List.length_append, List.length_singleton]
          omega
  | cons x rest =>
    right
    have hx : x < slab.nodes.length := (h.range x).mpr (Or.inl (by simp))
    have hfree := h.freeHead
    rw [List.head?_cons, ofSentinel_eq_some_iff] at hfree
    obtain ⟨hlink, hfollows⟩ := h.freeFollows
    obtain ⟨hxrest, hnd⟩ := List.nodup_cons.mp h.freeNodup
    have hget : slab.nodes[x]? = some slab.nodes[x] := List.getElem?_eq_getElem hx
    use ⟨slab.nodes.set x ⟨some item, NIL⟩, slab.nodes[x].next⟩, x, rest
    constructor
    · rw [Slab.alloc, if_pos hfree.2, Slab.node, hfree.1, hget]
      rfl
    · constructor
      · simp [hx]
      · intro y hy
        apply List.getElem?_set_ne (Ne.symm hy)
      · intro y
        simp only [List.length_set]
        constructor
        · apply Or.inr
        · rintro (rfl | hy)
          · apply hx
          · apply hy
      · simp
      · intro y
        simp only [List.mem_cons]
        constructor
        · intro hy
          refine ⟨Or.inr hy, ?_⟩
          rintro rfl
          apply hxrest hy
        · tauto
      · rw [Option.or_none] at hlink
        rw [← hlink, link, hget]
        rfl
      · apply hfollows
      · apply hnd
      · simpa using hbound

/-- A fresh node belongs to no list. -/
theorem fresh_notMem (h : Owns slab lists view free) (ha : Allocated slab slab' item x free free')
    (i : ι) :
  x ∉ (view i).map Prod.fst
  := by
  intro hx
  have hlt := h.lt_length hx
  rcases ha.fresh with hfree | hge
  · apply h.freeDisjoint i x hfree hx
  · omega

/-- The list `i` owns the node `x` after it is linked behind the last node of the list. -/
theorem grow [DecidableEq ι] (h : Owns slab lists view free)
    (ha : Allocated slab slab' item x free free') {slab₂ : Slab T} {list : Fifo}
    (hfree : slab₂.free = slab'.free) (hlength : slab₂.nodes.length = slab'.nodes.length)
    (hitem : ∀ y : ℕ, slab₂.nodes[y]?.map Node.item = slab'.nodes[y]?.map Node.item)
    (hx : slab₂.link x = none)
    (hlast : ∀ y ∈ ((view i).map Prod.fst).getLast?, slab₂.link y = some x)
    (hlink : ∀ y, y ≠ x → y ∉ ((view i).map Prod.fst).getLast? → slab₂.link y = slab.link y)
    (hhead : ofSentinel NIL list.head = ((view i ++ [(x, item)]).head?).map Prod.fst)
    (htail : ofSentinel NIL list.tail = some x)
    (hlen : list.len = (view i).length + 1) :
  Owns slab₂ (Function.update lists i list)
    (Function.update view i (view i ++ [(x, item)])) free'
  := by
  have hfresh := h.fresh_notMem ha
  have hlink' : ∀ j y, y ∈ (view j).map Prod.fst → y ∉ ((view i).map Prod.fst).getLast? →
      slab₂.link y = slab.link y := by
    intro j y hy hyl
    apply hlink y _ hyl
    rintro rfl
    apply hfresh j hy
  have hother : ∀ y, y ≠ x → slab₂.nodes[y]?.map Node.item = slab.nodes[y]?.map Node.item := by
    intro y hy
    rw [hitem, ha.other y hy]
  have hfree_ne : ∀ y ∈ free', y ≠ x ∧ y ∈ free := by
    intro y hy
    rw [ha.mem_free] at hy
    exact ⟨hy.2, hy.1⟩
  have hmem : ∀ j y, y ∈ (Function.update view i (view i ++ [(x, item)]) j).map Prod.fst ↔
      y ∈ (view j).map Prod.fst ∨ (j = i ∧ y = x) := by
    intro j y
    by_cases hj : j = i
    · subst hj
      simp
    · simp [hj]
  constructor
  · intro j
    by_cases hj : j = i
    · subst hj
      rw [Function.update_self, List.map_append]
      apply Follows.append_iff.mpr
      constructor
      · apply (h.follows j).redirect (h.nodup j)
        · simpa using hlast
        · intro y hy hyl
          apply hlink' j y hy hyl
      · simpa using hx
    · rw [Function.update_of_ne hj]
      apply (h.follows j).congr
      intro y hy
      apply hlink' j y hy
      intro hyl
      apply hj (h.disjoint j i y hy (List.mem_of_getLast? hyl))
  · intro j
    by_cases hj : j = i
    · subst hj
      rw [Function.update_self, Function.update_self, hhead]
    · rw [Function.update_of_ne hj, Function.update_of_ne hj, h.head j]
  · intro j
    by_cases hj : j = i
    · subst hj
      rw [Function.update_self, Function.update_self, htail]
      simp
    · rw [Function.update_of_ne hj, Function.update_of_ne hj, h.tail j]
  · intro j
    by_cases hj : j = i
    · subst hj
      rw [Function.update_self, Function.update_self, hlen]
      simp
    · rw [Function.update_of_ne hj, Function.update_of_ne hj, h.len j]
  · intro j e he
    by_cases hj : j = i ∧ e = (x, item)
    · rw [hj.2, hitem, ha.get]
      rfl
    · have he' : e ∈ view j := by
        by_cases hji : j = i
        · subst hji
          simp only [Function.update_self, List.mem_append, List.mem_singleton] at he
          tauto
        · rwa [Function.update_of_ne hji] at he
      rw [hother, h.item j e he']
      rintro rfl
      apply hfresh j (List.mem_map_of_mem he')
  · intro j
    by_cases hj : j = i
    · subst hj
      rw [Function.update_self, List.map_append, List.nodup_append]
      refine ⟨h.nodup j, by simp, ?_⟩
      rintro y hy z hz rfl
      simp only [List.map_cons, List.map_nil, List.mem_singleton] at hz
      subst hz
      apply hfresh j hy
    · rw [Function.update_of_ne hj]
      apply h.nodup j
  · intro j k y hj hk
    rw [hmem] at hj hk
    rcases hj with hj | ⟨rfl, rfl⟩
    · rcases hk with hk | ⟨rfl, rfl⟩
      · apply h.disjoint j k y hj hk
      · exact (hfresh j hj).elim
    · rcases hk with hk | ⟨rfl, -⟩
      · exact (hfresh k hk).elim
      · rfl
  · apply ha.freeFollows.congr
    intro y hy
    obtain ⟨hne, hyf⟩ := hfree_ne y hy
    apply hlink y hne
    intro hyl
    apply h.freeDisjoint i y hyf (List.mem_of_getLast? hyl)
  · rw [hfree, ha.freeHead]
  · apply ha.freeNodup
  · intro j y hy
    obtain ⟨hne, hyf⟩ := hfree_ne y hy
    rw [hmem]
    rintro (hv | ⟨-, rfl⟩)
    · apply h.freeDisjoint j y hyf hv
    · apply hne rfl
  · intro y
    rw [hlength, ha.length, h.range, ha.mem_free]
    simp only [hmem]
    by_cases hy : y = x
    · subst hy
      simp
    · simp [hy]
  · rw [hlength]
    apply ha.bound

/-- Appending an item to a list appends it to the contents of that list only.  It fails
exactly when the arena holds `NIL` nodes and none of them is free. -/
theorem pushBack [DecidableEq ι] (h : Owns slab lists view free) (i : ι) (item : T) :
  (free = [] ∧ slab.nodes.length = NIL ∧ slab.pushBack (lists i) item =
      .error (.assertion Slab.exceeded)) ∨
    ∃ slab₂ list x free', slab.pushBack (lists i) item = .ok (slab₂, list) ∧
      Owns slab₂ (Function.update lists i list)
        (Function.update view i (view i ++ [(x, item)])) free'
  := by
  rcases h.alloc item with ⟨hf, hl, he⟩ | ⟨slab', x, free', hok, ha⟩
  · left
    refine ⟨hf, hl, ?_⟩
    rw [Slab.pushBack, he]
    rfl
  · right
    have hfresh := h.fresh_notMem ha
    have hxlt : x < slab'.nodes.length := (ha.length x).mpr (Or.inl rfl)
    have hxnil : x ≠ NIL := by
      have hbound := ha.bound
      omega
    have hlinkx : slab'.link x = none := by
      rw [link, ha.get]
      simp
    have hlink : ∀ y, y ≠ x → slab'.link y = slab.link y := by
      intro y hy
      rw [link, link, ha.other y hy]
    rw [Slab.pushBack, hok, ok_bind]
    have htail := h.tail i
    by_cases ht : (lists i).tail = NIL
    · have hv : view i = [] := by
        rw [ht, ofSentinel_self, eq_comm, Option.map_eq_none_iff] at htail
        simpa using htail
      use slab', ⟨x, x, (lists i).len + 1⟩, x, free'
      constructor
      · simp [ht]
      · apply h.grow ha rfl rfl (fun _ => rfl) hlinkx
        · simp [hv]
        · intro y hy _
          apply hlink y hy
        · simp [hv, ofSentinel_of_ne hxnil]
        · apply ofSentinel_of_ne hxnil
        · rw [h.len]
    · rw [ofSentinel_of_ne ht, eq_comm] at htail
      rw [← List.getLast?_map] at htail
      have htmem := List.mem_of_getLast? htail
      have htx : (lists i).tail ≠ x := by
        intro heq
        rw [heq] at htmem
        apply hfresh i htmem
      have htlt : (lists i).tail < slab'.nodes.length :=
        (ha.length _).mpr (Or.inr (h.lt_length htmem))
      have hget := List.getElem?_eq_getElem htlt
      use ⟨slab'.nodes.set (lists i).tail ⟨slab'.nodes[(lists i).tail].item, x⟩, slab'.free⟩,
        ⟨(lists i).head, x, (lists i).len + 1⟩, x, free'
      constructor
      · simp [ht, Slab.node, hget]
      · refine h.grow ha rfl (by simp) ?_ ?_ ?_ ?_ ?_ ?_ ?_
        · intro y
          rw [List.getElem?_set]
          by_cases hy : (lists i).tail = y
          · subst hy
            simp [htlt]
          · simp [hy]
        · rw [link_set htlt, if_neg (Ne.symm htx), hlinkx]
        · intro y hy
          rw [htail, Option.mem_some_iff] at hy
          rw [link_set htlt, if_pos hy.symm]
          apply ofSentinel_of_ne hxnil
        · intro y hy hyl
          rw [link_set htlt, if_neg, hlink y hy]
          rintro rfl
          apply hyl htail
        · have hne : view i ≠ [] := by
            intro hv
            simp [hv] at htail
          rw [List.head?_append_of_ne_nil _ hne]
          apply h.head i
        · apply ofSentinel_of_ne hxnil
        · simp [h.len]

/-- Removing the first item of a list removes it from the contents of that list only and
frees its node. -/
theorem popFront [DecidableEq ι] (h : Owns slab lists view free) {e : ℕ × T}
    {rest : List (ℕ × T)} (hi : view i = e :: rest) :
  ∃ slab₂ list, slab.popFront (lists i) = .ok (slab₂, list, some e.2) ∧
    Owns slab₂ (Function.update lists i list) (Function.update view i rest) (e.1 :: free)
  := by
  have hhead := h.head i
  rw [hi, List.head?_cons, Option.map_some, ofSentinel_eq_some_iff] at hhead
  have hemem : e.1 ∈ (view i).map Prod.fst := by
    simp [hi]
  have helt := h.lt_length hemem
  have hget := List.getElem?_eq_getElem helt
  have hitem := h.item i e (by simp [hi])
  rw [hget, Option.map_some, Option.some.injEq] at hitem
  have hlen := h.len i
  rw [hi, List.length_cons] at hlen
  have hfollows := h.follows i
  rw [hi, List.map_cons] at hfollows
  obtain ⟨hnext, hfollows⟩ := hfollows
  rw [Option.or_none, link, hget, Option.bind_some] at hnext
  have hnodup := h.nodup i
  rw [hi, List.map_cons, List.nodup_cons] at hnodup
  have htail := h.tail i
  have hmem : ∀ j y, y ∈ (Function.update view i rest j).map Prod.fst ↔
      y ∈ (view j).map Prod.fst ∧ y ≠ e.1 := by
    intro j y
    by_cases hj : j = i
    · subst hj
      rw [Function.update_self, hi, List.map_cons, List.mem_cons]
      constructor
      · intro hy
        refine ⟨Or.inr hy, ?_⟩
        rintro rfl
        apply hnodup.1 hy
      · tauto
    · rw [Function.update_of_ne hj]
      constructor
      · intro hy
        refine ⟨hy, ?_⟩
        rintro rfl
        apply hj (h.disjoint j i _ hy hemem)
      · apply And.left
  have hlink : ∀ y, y ≠ e.1 →
      link ⟨slab.nodes.set e.1 ⟨none, slab.free⟩, e.1⟩ y = slab.link y := by
    intro y hy
    rw [link_set helt, if_neg hy]
  use ⟨slab.nodes.set e.1 ⟨none, slab.free⟩, e.1⟩,
    { head := slab.nodes[e.1].next,
      tail := if slab.nodes[e.1].next = NIL then NIL else (lists i).tail,
      len := (lists i).len - 1 }
  constructor
  · rw [Slab.popFront, if_neg hhead.2, Slab.node, hhead.1, hget]
    simp [hitem, sub_of_le, hlen]
  · constructor
    · intro j
      have hsub : Follows slab.link none ((Function.update view i rest j).map Prod.fst) := by
        by_cases hj : j = i
        · subst hj
          rw [Function.update_self]
          apply hfollows
        · rw [Function.update_of_ne hj]
          apply h.follows j
      apply hsub.congr
      intro y hy
      apply hlink y ((hmem j y).mp hy).2
    · intro j
      by_cases hj : j = i
      · subst hj
        rw [Function.update_self, Function.update_self]
        simpa using hnext
      · rw [Function.update_of_ne hj, Function.update_of_ne hj, h.head j]
    · intro j
      by_cases hj : j = i
      · subst hj
        rw [Function.update_self, Function.update_self]
        cases hr : rest with
        | nil =>
          simp only [hr, List.map_nil, List.head?_nil, ofSentinel_eq_none_iff] at hnext
          simp [hnext]
        | cons e' rest' =>
          rw [hr, List.map_cons, List.head?_cons, ofSentinel_eq_some_iff] at hnext
          rw [if_neg hnext.2, htail, hi, hr]
          simp
      · rw [Function.update_of_ne hj, Function.update_of_ne hj, h.tail j]
    · intro j
      by_cases hj : j = i
      · subst hj
        rw [Function.update_self, Function.update_self]
        simp only
        omega
      · rw [Function.update_of_ne hj, Function.update_of_ne hj, h.len j]
    · intro j e' he'
      have hne := ((hmem j e'.1).mp (List.mem_map_of_mem he')).2
      have hview : e' ∈ view j := by
        by_cases hj : j = i
        · subst hj
          rw [Function.update_self] at he'
          simp [hi, he']
        · rwa [Function.update_of_ne hj] at he'
      rw [List.getElem?_set_ne (Ne.symm hne), h.item j e' hview]
    · intro j
      by_cases hj : j = i
      · subst hj
        rw [Function.update_self]
        apply hnodup.2
      · rw [Function.update_of_ne hj]
        apply h.nodup j
    · intro j k y hj hk
      apply h.disjoint j k y ((hmem j y).mp hj).1 ((hmem k y).mp hk).1
    · constructor
      · rw [link_set helt, if_pos rfl, Option.or_none]
        apply h.freeHead
      · apply h.freeFollows.congr
        intro y hy
        apply hlink y
        rintro rfl
        apply h.freeDisjoint i _ hy hemem
    · rw [List.head?_cons]
      apply ofSentinel_of_ne (h.ne_nil helt)
    · rw [List.nodup_cons]
      refine ⟨?_, h.freeNodup⟩
      intro hfree
      apply h.freeDisjoint i _ hfree hemem
    · intro j y hy
      rw [hmem]
      rintro ⟨hyj, hne⟩
      rcases List.mem_cons.mp hy with rfl | hy
      · apply hne rfl
      · apply h.freeDisjoint j y hy hyj
    · intro y
      simp only [List.length_set, h.range, hmem, List.mem_cons]
      by_cases hy : y = e.1
      · subst hy
        simp only [true_or, iff_true]
        exact Or.inr ⟨i, hemem⟩
      · simp [hy]
    · simpa using h.bound

end Owns

end Slab

end Grommet.Queue
