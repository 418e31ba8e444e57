import Grommet.Core.Scheduler.Order
import Mathlib.Algebra.BigOperators.Group.Finset.Basic

/-!
# The classes of the items that a scheduler holds

An item has a class from its admission on, whatever becomes of it and whatever else is queued
behind its key.  Counted over all keys, the items of a class that are queued, discarded and not
handed back, or in flight are those of the class that were admitted and neither handed back nor
completed: each call moves the counts by the items that it lets in and out.
-/

namespace Grommet

variable {K P S : Type} [DecidableEq K] {CLASSES : ℕ}

/-- Counting the items of each key counts them all. -/
theorem sum_countP_filter {α : Type} {F : Finset K} (key : α → K) (p : α → Bool) (l : List α)
    (h : ∀ a ∈ l, key a ∈ F) :
  ∑ k ∈ F, (l.filter (key · = k)).countP p = l.countP p
  := by
  induction l with
  | nil => simp
  | cons a l ih =>
    have hsplit : ∀ k, ((a :: l).filter (key · = k)).countP p =
        (if key a = k then (if p a then 1 else 0) else 0) +
          (l.filter (key · = k)).countP p := by
      intro k
      by_cases hk : key a = k
      · simp [hk, List.countP_cons, Nat.add_comm]
      · simp [hk]
    rw [Finset.sum_congr rfl fun k _ => hsplit k, Finset.sum_add_distrib,
      ih fun b hb => h b (by simp [hb]), Finset.sum_ite_eq, if_pos (h a (by simp)),
      List.countP_cons, Nat.add_comm]

/-- Nothing has a key outside of the keys that things have. -/
theorem mem_of_filter_nil {α : Type} {F : Finset K} {key : α → K} {l : List α}
    (h : ∀ k, k ∉ F → l.filter (key · = k) = []) :
  ∀ a ∈ l, key a ∈ F
  := by
  intro a ha
  by_contra hnot
  have hmem : a ∈ l.filter (key · = key a) := by simp [ha]
  rw [h _ hnot] at hmem
  cases hmem

namespace Event

/-- The number of items of a class that an event lets in. -/
def entering (e : Event K P S) (i : ℕ) : ℕ :=
  match e with
  | .admitItem a => if a.classId.toNat = i then 1 else 0
  | _ => 0

/-- The number of items of a class that an event lets out: handed back, or completed. -/
def leaving (e : Event K P S) (i : ℕ) : ℕ :=
  e.popped.countP (fun d => d.2.1.toNat = i) +
    e.completed.toList.countP fun completion => completion.classId.toNat = i

end Event

/-- The class that an item left its queue under. -/
def Departure.classId : Departure P → ClassId
  | .dispatched c _ _ => c
  | .discarded c _ _ => c

theorem Departure.Of.classId {d : Departure P} {item : Item P} (h : d.Of item) :
  item.classId = d.classId
  := by
  cases d with
  | dispatched c now payload => exact h.1
  | discarded c now payload => exact h.1

/-- What left a queue has the classes that it left under. -/
theorem countP_of_departures {ds : List (Departure P)} {items : List (Item P)}
    (h : List.Forall₂ Departure.Of ds items) (i : ℕ) :
  items.countP (fun item => item.classId.toNat = i) =
    ds.countP fun d => d.classId.toNat = i
  := by
  induction h with
  | nil => rfl
  | cons hof _ ih => rw [List.countP_cons, List.countP_cons, ih, hof.classId]

/-- The number of queued items of a class, over the keys `F`. -/
def Book.queuedOf (b : Book K P S) (F : Finset K) (i : ℕ) : ℕ :=
  ∑ k ∈ F, (b.queue k).countP fun item => item.classId.toNat = i

namespace Account

variable {cfg : Config CLASSES} {x y : Account K P S CLASSES} {e : Event K P S}

/-- An event is about keys that have items before it or after it. -/
theorem Step.still (h : x.Step cfg e y) {k : K} (hx : x.book.queue k = [])
    (hy : y.book.queue k = []) :
  e.admitted k = [] ∧ e.departures k = []
  := by
  obtain ⟨left, hleft, hdepartures⟩ := h.items k
  rw [hx, hy, List.nil_append, List.append_nil] at hleft
  have hone : e.admitted k = [] ∨ e.departures k = [] := by
    cases e with
    | admitItem a => exact Or.inr rfl
    | _ => exact Or.inl rfl
  rcases hone with hadmitted | hnone
  · rw [← hleft, hadmitted, List.forall₂_nil_right_iff] at hdepartures
    exact ⟨hadmitted, hdepartures⟩
  · rw [hnone, List.forall₂_nil_left_iff] at hdepartures
    exact ⟨hleft.trans hdepartures, hnone⟩

/-- The departures of all keys together are what an event discards and dispatches. -/
theorem Step.sum_departures (h : x.Step cfg e y) {F : Finset K}
    (hF : ∀ k, k ∉ F → e.departures k = []) (i : ℕ) :
  ∑ k ∈ F, (e.departures k).countP (fun d => d.classId.toNat = i) =
    e.discarded.countP (fun d => d.2.1.toNat = i) +
      e.dispatched.toList.countP fun d => d.classId.toNat = i
  := by
  obtain ⟨hmoves, -⟩ := h
  cases e with
  | next c now discarded dispatch =>
    obtain ⟨-, -, -, hdispatch⟩ := hmoves
    have hclass : ∀ d ∈ dispatch.toList, d.classId = c := by
      intro d hd
      rw [hdispatch, Option.mem_toList, Option.map_eq_some_iff] at hd
      obtain ⟨taken, -, rfl⟩ := hd
      rfl
    have hnil : ∀ k, k ∉ F → discarded.filter (·.1 = k) = [] ∧
        dispatch.toList.filter (·.key = k) = [] := by
      intro k hk
      have hnone := hF k hk
      simp only [Event.departures, List.append_eq_nil_iff, List.map_eq_nil_iff,
        Option.toList_filter] at hnone
      exact hnone
    have heach : ∀ k, ((Event.next c now discarded dispatch : Event K P S).departures k).countP
        (fun d => d.classId.toNat = i) =
          (discarded.filter (·.1 = k)).countP (fun d => d.2.1.toNat = i) +
            (dispatch.toList.filter (·.key = k)).countP fun d => d.classId.toNat = i := by
      intro k
      rw [Event.departures, List.countP_append, List.countP_map, List.countP_map]
      congr 1
      rw [Option.toList_filter]
      apply List.countP_congr
      intro d hd
      rw [← hclass d (List.mem_of_mem_filter hd)]
      rfl
    rw [Finset.sum_congr rfl fun k _ => heach k, Finset.sum_add_distrib,
      sum_countP_filter _ _ _ (mem_of_filter_nil fun k hk => (hnil k hk).1),
      sum_countP_filter _ _ _ (mem_of_filter_nil fun k hk => (hnil k hk).2)]
    rfl
  | _ => simp [Event.departures, Event.discarded, Event.dispatched]

/-- The items of all keys together that an event admits. -/
theorem sum_admitted {F : Finset K} (hF : ∀ k, k ∉ F → e.admitted k = []) (i : ℕ) :
  ∑ k ∈ F, (e.admitted k).countP (fun item => item.classId.toNat = i) = e.entering i
  := by
  cases e with
  | admitItem a =>
    have hkey : a.key ∈ F := by
      by_contra hnot
      have hnil := hF _ hnot
      simp [Event.admitted] at hnil
    have heach : ∀ k, ((Event.admitItem a : Event K P S).admitted k).countP
        (fun item => item.classId.toNat = i) =
          if a.key = k then (if a.classId.toNat = i then 1 else 0) else 0 := by
      intro k
      by_cases hk : a.key = k
      · simp [Event.admitted, hk, List.countP_cons]
      · simp [Event.admitted, hk]
    rw [Finset.sum_congr rfl fun k _ => heach k, Finset.sum_ite_eq, if_pos hkey]
    rfl
  | _ => simp [Event.admitted, Event.entering]

/-- Items of a class that enter the queues, and items that leave them. -/
theorem Step.queuedOf (h : x.Step cfg e y) {F : Finset K} (hx : ∀ k, k ∉ F → x.book.queue k = [])
    (hy : ∀ k, k ∉ F → y.book.queue k = []) (i : ℕ) :
  x.book.queuedOf F i + e.entering i =
    e.discarded.countP (fun d => d.2.1.toNat = i) +
      e.dispatched.toList.countP (fun d => d.classId.toNat = i) + y.book.queuedOf F i
  := by
  have hstill : ∀ k, k ∉ F → e.admitted k = [] ∧ e.departures k = [] := by
    intro k hk
    exact h.still (hx k hk) (hy k hk)
  rw [← sum_admitted (fun k hk => (hstill k hk).1), ← h.sum_departures (fun k hk => (hstill k hk).2),
    Book.queuedOf, Book.queuedOf, ← Finset.sum_add_distrib, ← Finset.sum_add_distrib]
  apply Finset.sum_congr rfl
  intro k _
  obtain ⟨left, hleft, hdepartures⟩ := h.items k
  rw [← List.countP_append, hleft, List.countP_append, countP_of_departures hdepartures]

/-- Dispatches of a class that begin, and those that are completed. -/
theorem Step.running (h : x.Step cfg e y) (i : ℕ) :
  x.ledger.running.countP (fun r => r.2.toNat = i) +
      e.dispatched.toList.countP (fun d => d.classId.toNat = i) =
    e.completed.toList.countP (fun completion => completion.classId.toNat = i) +
      y.ledger.running.countP fun r => r.2.toNat = i
  := by
  obtain ⟨hmoves, hledger⟩ := h
  rw [hledger]
  cases e with
  | next c now discarded dispatch =>
    cases dispatch <;> simp [Ledger.record, Event.dispatched, Event.completed, List.countP_cons]
  | complete completion now =>
    have hperm := List.perm_cons_erase hmoves.1
    simp only [Ledger.record, Event.dispatched, Event.completed, Option.toList_none,
      List.countP_nil, Nat.add_zero, Option.toList_some, List.countP_singleton]
    rw [hperm.countP_eq, List.countP_cons, Nat.add_comm]
  | _ => simp [Ledger.record, Event.dispatched, Event.completed]

/-- Every item that enters is queued, discarded and not handed back, or in flight until it
leaves. -/
theorem Step.tally (h : x.Step cfg e y) {F : Finset K} (hx : ∀ k, k ∉ F → x.book.queue k = [])
    (hy : ∀ k, k ∉ F → y.book.queue k = []) (i : ℕ) :
  x.book.queuedOf F i + x.book.expired.countP (fun d => d.2.1.toNat = i) +
        x.ledger.running.countP (fun r => r.2.toNat = i) + e.entering i =
    e.leaving i + (y.book.queuedOf F i + y.book.expired.countP (fun d => d.2.1.toNat = i) +
      y.ledger.running.countP fun r => r.2.toNat = i)
  := by
  have hqueued := h.queuedOf hx hy i
  have hrunning := h.running i
  have hexpired := congrArg (List.countP fun d => d.2.1.toNat = i) h.expired
  rw [List.countP_append, List.countP_append] at hexpired
  rw [Event.leaving]
  omega

/-- Discarded items have classes, as the queues do that they were in. -/
theorem Step.expired_class (h : x.Step cfg e y)
    (hx : ∀ d ∈ x.book.expired, d.2.1.toNat < CLASSES) :
  ∀ d ∈ y.book.expired, d.2.1.toNat < CLASSES
  := by
  intro d hd
  have hmem : d ∈ x.book.expired ++ e.discarded := by
    rw [h.expired]
    apply List.mem_append_right _ hd
  rcases List.mem_append.mp hmem with hbefore | hdiscarded
  · exact hx d hbefore
  · obtain ⟨left, hleft, hdepartures⟩ := h.items d.1
    cases e with
    | next c now discarded dispatch =>
      have hout : .discarded d.2.1 now d.2.2 ∈
          (Event.next c now discarded dispatch : Event K P S).departures d.1 := by
        apply List.mem_append_left
        rw [List.mem_map]
        exact ⟨d, by simpa [Event.discarded] using hdiscarded, rfl⟩
      have hcount : 0 < left.countP fun item => item.classId.toNat = d.2.1.toNat := by
        rw [countP_of_departures hdepartures, List.countP_pos_iff]
        exact ⟨_, hout, by simp [Departure.classId]⟩
      obtain ⟨item, hitem, hclass⟩ := List.countP_pos_iff.mp hcount
      rw [decide_eq_true_eq] at hclass
      have hqueue : item ∈ x.book.queue d.1 := by
        rw [← List.append_nil (x.book.queue d.1)]
        exact hleft ▸ List.mem_append_left _ hitem
      rw [← hclass]
      rw [Book.queue] at hqueue
      cases hpage : x.book.page d.1 with
      | none =>
        rw [hpage] at hqueue
        cases hqueue
      | some page =>
        rw [hpage] at hqueue
        exact x.good.classes d.1 page hpage item hqueue
    | _ => cases hdiscarded

end Account

namespace Scheduler

variable {cfg : Config CLASSES} {s s' : Scheduler K P S CLASSES}

/-- The number of queued items of the class with an index. -/
def queuedOf (s : Scheduler K P S CLASSES) (i : ℕ) : ℕ :=
  (s.keys.keys.map fun k => (s.contents k).countP fun item => item.classId.toNat = i).sum

/-- The number of items of a class that are queued, discarded and not handed back, or in
flight. -/
def heldOf (s : Scheduler K P S CLASSES) (i : Fin CLASSES) : ℕ :=
  s.queuedOf i + s.expired.countP (fun d => d.2.1.toNat = i.val) + s.inflight i

/-- Keys without a slot have no items. -/
theorem Represents.queue_nil {b : Book K P S} {own : K → List (ℕ × Item P)} {free : List ℕ}
    (h : s.Represents cfg b own free) {k : K} (hk : k ∉ s.keys.keys) :
  b.queue k = []
  := by
  have hlookup : s.keys.lookup k = none := AList.lookup_eq_none.mpr hk
  have hpage : b.page k = none := by
    rw [h.page, core, hlookup]
    rfl
  rw [Book.queue, hpage]
  rfl

/-- The items of all slots are those of all keys. -/
theorem Represents.queuedOf {b : Book K P S} {own : K → List (ℕ × Item P)} {free : List ℕ}
    (h : s.Represents cfg b own free) {F : Finset K} (hF : ∀ k ∈ s.keys.keys, k ∈ F) (i : ℕ) :
  s.queuedOf i = b.queuedOf F i
  := by
  have hsub : s.keys.keys.toFinset ⊆ F := by
    intro k hk
    exact hF k (List.mem_toFinset.mp hk)
  have hzero : ∀ k ∈ F, k ∉ s.keys.keys.toFinset →
      (b.queue k).countP (fun item => item.classId.toNat = i) = 0 := by
    intro k _ hk
    rw [h.queue_nil (fun hmem => hk (List.mem_toFinset.mpr hmem))]
    rfl
  rw [Book.queuedOf, ← Finset.sum_subset hsub hzero, List.sum_toFinset _ s.keys.keys_nodup,
    Scheduler.queuedOf]
  congr 1
  apply List.map_congr_left
  intro k _
  rw [h.contents]

/-- The dispatched items of a class. -/
theorem Holds.inflight {l : Ledger K} {x : Account K P S CLASSES} (h : Holds cfg (s, l) x)
    (i : Fin CLASSES) :
  s.inflight i = x.ledger.running.countP fun r => r.2.toNat = i.val
  := by
  obtain ⟨⟨own, free, hr⟩, -⟩ := h
  rw [hr.inflight, Book.inflightAt]
  split
  · rename_i hi
    rw [x.good.inflight]
    apply List.countP_congr
    intro r _
    rw [decide_eq_true_eq, decide_eq_true_eq]
    constructor
    · intro heq
      rw [heq, UInt8.toNat_ofNat', Nat.mod_eq_of_lt hi]
    · intro heq
      rw [← heq, UInt8.ofNat_toNat]
  · rename_i hi
    symm
    rw [List.countP_eq_zero]
    intro r _
    have hlt := r.2.toNat_lt
    simp only [decide_eq_true_eq]
    omega

/-- A call moves the items of a class that a scheduler holds by those that it lets in and out. -/
theorem Holds.tally {l l' : Ledger K} {x y : Account K P S CLASSES} {e : Event K P S}
    (h : Holds cfg (s, l) x) (h' : Holds cfg (s', l') y) (hstep : x.Step cfg e y)
    (i : Fin CLASSES) :
  s.heldOf i + e.entering i = e.leaving i + s'.heldOf i
  := by
  have hrunning := h.inflight i
  have hrunning' := h'.inflight i
  obtain ⟨⟨own, free, hr⟩, -⟩ := h
  obtain ⟨⟨own', free', hr'⟩, -⟩ := h'
  have hkeys : ∀ k ∈ s.keys.keys, k ∈ s.keys.keys.toFinset ∪ s'.keys.keys.toFinset := by
    intro k hk
    exact Finset.mem_union_left _ (List.mem_toFinset.mpr hk)
  have hkeys' : ∀ k ∈ s'.keys.keys, k ∈ s.keys.keys.toFinset ∪ s'.keys.keys.toFinset := by
    intro k hk
    exact Finset.mem_union_right _ (List.mem_toFinset.mpr hk)
  have htally := hstep.tally (fun k hk => hr.queue_nil fun hmem => hk (hkeys k hmem))
    (fun k hk => hr'.queue_nil fun hmem => hk (hkeys' k hmem)) i
  rw [heldOf, heldOf, hr.queuedOf hkeys, hr'.queuedOf hkeys', hrunning, hrunning', hr.expired,
    hr'.expired]
  exact htally

end Scheduler

end Grommet
