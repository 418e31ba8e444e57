import Grommet.Core.Scheduler.Load
import Grommet.Core.Scheduler.Ownership
import Mathlib.Data.List.TakeWhile

/-!
# Items leave in order, and rings are served in order

The items admitted for a key are, in order, those that left its queue and those still in
it; each that left was dispatched in time in its class, or was discarded late.  A key in a
ring is passed by no other key: each dispatch from the ring brings it one place closer.
-/

namespace Grommet

variable {K P S : Type} [DecidableEq K] {CLASSES : ℕ}

/-! ### Conservation of items -/

/-- How an item left the queue of its key. -/
inductive Departure (P : Type) where
  /-- A call of `next` for the class dispatched the payload. -/
  | dispatched (classId : ClassId) (now : Duration) (payload : P)
  /-- A call of `next` discarded the payload, admitted under the class. -/
  | discarded (classId : ClassId) (now : Duration) (payload : P)
  deriving DecidableEq

/-- The item left in this way: dispatched in its own class before its deadline, or
discarded under its own class when its deadline had come. -/
def Departure.Of : Departure P → Item P → Prop
  | .dispatched classId now payload, item =>
      item.classId = classId ∧ item.payload = payload ∧
        ∀ deadline ∈ item.expiresAt, now < deadline
  | .discarded classId now payload, item =>
      item.classId = classId ∧ item.payload = payload ∧
        ∃ deadline ∈ item.expiresAt, deadline ≤ now

namespace Event

/-- The item that an event admits for the key. -/
def admitted (e : Event K P S) (k : K) : List (Item P) :=
  match e with
  | .admitItem a => if a.key = k then [⟨a.classId, a.expiresAt, a.payload⟩] else []
  | _ => []

/-- The departures of items of the key in an event, in order. -/
def departures (e : Event K P S) (k : K) : List (Departure P) :=
  match e with
  | .next c now discarded dispatch =>
      (discarded.filter (·.1 = k)).map (fun d => .discarded d.2.1 now d.2.2) ++
        (dispatch.filter (·.key = k)).toList.map fun d => .dispatched c now d.payload
  | _ => []

/-- The discarded item that an event hands back. -/
def popped : Event K P S → List (K × ClassId × P)
  | .popExpired item => item.toList
  | _ => []

end Event

omit [DecidableEq K] in
theorem Item.isExpired_iff {item : Item P} {now : Duration} :
  item.isExpired now = true ↔ ∃ deadline ∈ item.expiresAt, deadline ≤ now
  := by
  simp [isExpired, Option.any_eq_true]

namespace Book

variable {b : Book K P S} {c : ClassId} {now : Duration}

omit [DecidableEq K] in
theorem gone_iff {item : Item P} :
  gone c now item = true ↔ item.classId = c ∧ item.isExpired now = true
  := by
  simp [gone]

/-- A visit discards expired items of its class, and dispatches one that has not expired. -/
theorem visit_items (c : ClassId) (now : Duration) (ring : List K) (b : Book K P S) :
  (∀ d ∈ (b.visit c now ring).discarded, gone c now d.2 = true) ∧
  (∀ d ∈ (b.visit c now ring).dispatched, d.2.2.classId = c ∧ d.2.2.isExpired now = false)
  := by
  induction ring generalizing b with
  | nil => simp [visit]
  | cons k ring ih =>
    cases hpage : b.page k with
    | none => simp [visit, hpage]
    | some page =>
      have htake : ∀ d ∈ (page.queue.takeWhile (gone c now)).map (k, ·),
          gone c now d.2 = true := by
        intro d hd
        obtain ⟨item, hitem, rfl⟩ := List.mem_map.mp hd
        apply List.mem_takeWhile_imp hitem
      cases hcand : candidate c now page.queue with
      | some head =>
        rw [visit_dispatch ring hpage hcand]
        refine ⟨htake, ?_⟩
        intro d hd
        cases hd
        apply (dropWhile_of_candidate hcand).2
      | none =>
        rw [visit_passOver ring hpage hcand]
        obtain ⟨hdisc, hdisp⟩ := ih (b.passOver c now k page ring)
        refine ⟨?_, hdisp⟩
        intro d hd
        rcases List.mem_append.mp hd with hd | hd
        · apply htake d hd
        · apply hdisc d hd

/-- A visit discards items of the keys that it visits. -/
theorem visit_discarded_mem (c : ClassId) (now : Duration) (ring : List K) (b : Book K P S) :
  ∀ d ∈ (b.visit c now ring).discarded, d.1 ∈ ring
  := by
  induction ring generalizing b with
  | nil => simp [visit]
  | cons k ring ih =>
    cases hpage : b.page k with
    | none => simp [visit, hpage]
    | some page =>
      have hdropped : ∀ d ∈ (page.queue.takeWhile (gone c now)).map (k, ·), d.1 ∈ k :: ring := by
        intro d hd
        obtain ⟨item, -, rfl⟩ := List.mem_map.mp hd
        apply List.mem_cons_self
      cases hcand : candidate c now page.queue with
      | some head =>
        rw [visit_dispatch ring hpage hcand]
        apply hdropped
      | none =>
        rw [visit_passOver ring hpage hcand]
        intro d hd
        rcases List.mem_append.mp hd with hd | hd
        · apply hdropped d hd
        · apply List.mem_cons_of_mem k (ih _ d hd)

/-- A call of `next` discards expired items of its class, and dispatches one that has not
expired. -/
theorem turn_items (cfg : Config CLASSES) (c : ClassId) (now : Duration) (b : Book K P S) :
  (∀ d ∈ (b.turn cfg c now).discarded, gone c now d.2 = true) ∧
  (∀ d ∈ (b.turn cfg c now).dispatched, d.2.2.classId = c ∧ d.2.2.isExpired now = false)
  := by
  rw [turn]
  split
  · split
    · simp
    · apply visit_items
  · simp

end Book

namespace Account

variable {cfg : Config CLASSES} {x y : Account K P S CLASSES} {e : Event K P S}
  {t : List (Event K P S)}

/-- The items of a queue before and after an event. -/
def ItemsMove (x : Account K P S CLASSES) (e : Event K P S) (y : Account K P S CLASSES) (k : K) :
    Prop :=
  ∃ left, x.book.queue k ++ e.admitted k = left ++ y.book.queue k ∧
    List.Forall₂ Departure.Of (e.departures k) left

/-- An event that admits nothing and takes nothing leaves the queue alone. -/
theorem ItemsMove.still {k : K} (hadmitted : e.admitted k = []) (hdepartures : e.departures k = [])
    (h : y.book.load k = x.book.load k ∨ (y.book.load k).2 = (x.book.load k).2) :
  x.ItemsMove e y k
  := by
  have hqueue : y.book.queue k = x.book.queue k := by
    rcases h with h | h
    · apply congrArg Prod.snd h
    · apply h
  use []
  rw [hadmitted, hdepartures, hqueue, List.append_nil]
  exact ⟨rfl, .nil⟩

/-- The items that leave a queue in one event leave from its front. -/
theorem Step.items (h : x.Step cfg e y) (k : K) :
  x.ItemsMove e y k
  := by
  obtain ⟨hmoves, -⟩ := h
  cases e with
  | admitItem a =>
    obtain ⟨-, hbook⟩ := hmoves
    have hload := congrFun (Book.load_admitItem x.book a) k
    rw [← hbook] at hload
    by_cases hk : k = a.key
    · subst hk
      rw [Function.update_self] at hload
      have hqueue := congrArg Prod.snd hload
      simp only [Book.load] at hqueue
      use []
      refine ⟨?_, .nil⟩
      simp [Event.admitted, hqueue]
    · rw [Function.update_of_ne hk] at hload
      apply ItemsMove.still
      · simp [Event.admitted, Ne.symm hk]
      · rfl
      · left
        apply hload
  | next c now discarded dispatch =>
    obtain ⟨-, hbook, rfl, rfl⟩ := hmoves
    obtain ⟨hqueue, -, -⟩ := Book.load_turn cfg c now x.book
    obtain ⟨hdisc, hdisp⟩ := Book.turn_items cfg c now x.book
    rw [← hbook] at hqueue
    refine ⟨_, (List.append_nil _).trans (hqueue k), ?_⟩
    apply List.rel_append
    · rw [List.filter_map, List.map_map, List.forall₂_map_left_iff, List.forall₂_map_right_iff]
      apply List.forall₂_same.mpr
      intro d hd
      obtain ⟨hc, hexp⟩ := Book.gone_iff.mp (hdisc d (List.mem_of_mem_filter hd))
      exact ⟨rfl, rfl, Item.isExpired_iff.mp hexp⟩
    · cases hd : (x.book.turn cfg c now).dispatched with
      | none => simp
      | some d =>
        obtain ⟨hc, hexp⟩ := hdisp d hd
        have hdead : ∀ deadline ∈ d.2.2.expiresAt, now < deadline := by
          intro deadline hdl
          by_contra hle
          rw [Item.isExpired_iff.mpr ⟨deadline, hdl, not_lt.mp hle⟩] at hexp
          cases hexp
        have hof : (Departure.dispatched c now d.2.2.payload).Of d.2.2 := ⟨hc, rfl, hdead⟩
        by_cases hk : d.1 = k
        · simpa [Option.filter_some, Scheduler.toDispatch, hk] using hof
        · simp [Option.filter_some, Scheduler.toDispatch, hk]
  | popExpired item =>
    obtain ⟨hbook, -⟩ := hmoves
    apply ItemsMove.still rfl rfl
    left
    rw [hbook]
    rfl
  | complete completion now =>
    obtain ⟨hrun, hbook⟩ := hmoves
    have hpres := ((x.good.mem .inFlight completion.key).mp (List.mem_map_of_mem hrun)).2
    rw [Book.presence, Option.map_eq_some_iff] at hpres
    obtain ⟨page, hpage, -⟩ := hpres
    have hload := congrFun (Book.load_complete hpage) k
    rw [← hbook] at hload
    apply ItemsMove.still rfl rfl
    right
    rw [hload]
    by_cases hk : k = completion.key
    · subst hk
      rw [Function.update_self, Book.load_of_page hpage]
    · rw [Function.update_of_ne hk]
  | evict now pushed =>
    obtain ⟨m, hbook, -⟩ := hmoves
    apply ItemsMove.still rfl rfl
    right
    rw [hbook]
    apply (Book.load_evict x.good).1 k
  | evictAll pushed =>
    obtain ⟨hbook, -⟩ := hmoves
    apply ItemsMove.still rfl rfl
    right
    rw [hbook]
    apply (Book.load_evict x.good).1 k
  | finishEvict key now =>
    obtain ⟨hkey, hbook⟩ := hmoves
    apply ItemsMove.still rfl rfl
    left
    rw [hbook, Book.load_finishEvict x.good hkey]

/-- The discarded items that were not handed back wait in the order they were discarded. -/
theorem Step.expired (h : x.Step cfg e y) :
  x.book.expired ++ e.discarded = e.popped ++ y.book.expired
  := by
  obtain ⟨hmoves, -⟩ := h
  cases e with
  | admitItem a =>
    obtain ⟨-, hbook⟩ := hmoves
    rw [hbook, Book.admitItem_expired]
    simp [Event.discarded, Event.popped]
  | next c now discarded dispatch =>
    obtain ⟨-, hbook, rfl, -⟩ := hmoves
    rw [hbook, Book.turn_expired]
    simp [Event.discarded, Event.popped]
  | popExpired item =>
    obtain ⟨hbook, rfl⟩ := hmoves
    simp only [hbook, Book.popExpired, Event.discarded, Event.popped, List.append_nil]
    cases x.book.expired <;> rfl
  | complete completion now =>
    obtain ⟨-, hbook⟩ := hmoves
    rw [hbook, Book.complete_expired]
    simp [Event.discarded, Event.popped]
  | evict now pushed =>
    obtain ⟨m, hbook, -⟩ := hmoves
    rw [hbook, (Book.evict_frame _ _).2]
    simp [Event.discarded, Event.popped]
  | evictAll pushed =>
    obtain ⟨hbook, -⟩ := hmoves
    rw [hbook, (Book.evict_frame _ _).2]
    simp [Event.discarded, Event.popped]
  | finishEvict key now =>
    obtain ⟨-, hbook⟩ := hmoves
    rw [hbook, Book.finishEvict_expired]
    simp [Event.discarded, Event.popped]

/-- An event discards items of ready keys. -/
theorem Step.discarded_ready (h : x.Step cfg e y) :
  ∀ d ∈ e.discarded, ∃ c, x.book.presence d.1 = some (.ready c)
  := by
  obtain ⟨hmoves, -⟩ := h
  cases e with
  | next c now discarded dispatch =>
    obtain ⟨-, -, rfl, -⟩ := hmoves
    intro item hitem
    obtain ⟨d, hd, rfl⟩ := List.mem_map.mp hitem
    have hmem : d.1 ∈ x.book.ready c := by
      clear hitem
      rw [Book.turn] at hd
      split at hd
      · split at hd
        · simp at hd
        · apply Book.visit_discarded_mem c now _ _ d hd
      · simp at hd
    exact ⟨c, ((x.good.mem (.ready c) d.1).mp hmem).2⟩
  | admitItem a => simp [Event.discarded]
  | popExpired item => simp [Event.discarded]
  | complete completion now => simp [Event.discarded]
  | evict now pushed => simp [Event.discarded]
  | evictAll pushed => simp [Event.discarded]
  | finishEvict key now => simp [Event.discarded]

end Account

/-- The items admitted for a key are, in order, those that left its queue and those queued.
Each that left was dispatched once in its class before its deadline, or discarded once at
or after it.  The discarded items are, in order, those handed back and those waiting. -/
theorem Scheduler.items_leave_in_order {cfg : Config CLASSES} {t : List (Event K P S)}
    {s : Scheduler K P S CLASSES} {l : Ledger K} (h : Run cfg t s l) :
  (∀ k, ∃ left, t.flatMap (·.admitted k) = left ++ s.contents k ∧
    List.Forall₂ Departure.Of (t.flatMap (·.departures k)) left) ∧
  t.flatMap Event.discarded = t.flatMap Event.popped ++ s.expired
  := by
  obtain ⟨a, htrail, ⟨own, free, hr⟩, -⟩ := h.account
  constructor
  · intro k
    rw [hr.contents]
    apply htrail.invariant fun t (x : Account K P S CLASSES) =>
      ∃ left, t.flatMap (·.admitted k) = left ++ x.book.queue k ∧
        List.Forall₂ Departure.Of (t.flatMap (·.departures k)) left
    · exact ⟨[], by simp [Account.empty, Book.empty, Book.queue], .nil⟩
    · rintro t x e y - ⟨left, hitems, hleft⟩ hstep
      obtain ⟨left', hitems', hleft'⟩ := hstep.items k
      refine ⟨left ++ left', ?_, ?_⟩
      · simp only [List.flatMap_append, List.flatMap_singleton]
        rw [hitems, List.append_assoc, hitems', List.append_assoc]
      · simp only [List.flatMap_append, List.flatMap_singleton]
        apply List.rel_append hleft hleft'
  · rw [hr.expired]
    apply htrail.invariant fun t (x : Account K P S CLASSES) =>
      t.flatMap Event.discarded = t.flatMap Event.popped ++ x.book.expired
    · rfl
    · intro t x e y _ ih hstep
      simp only [List.flatMap_append, List.flatMap_singleton]
      rw [ih, List.append_assoc, hstep.expired, List.append_assoc]

/-- An item that was discarded and handed back, and one that was dispatched in time. -/
theorem Scheduler.items_leave_in_order_expired :
  ∃ (s : Scheduler ℕ ℕ ℕ 1) (l : Ledger ℕ),
    Run (.new fun _ => 1)
      [.admitItem ⟨7, 0, some 5, 40⟩, .admitItem ⟨7, 0, some 9, 41⟩,
        .next 0 6 [(7, 0, 40)] (some ⟨7, 0, none, 41⟩), .popExpired (some (7, 0, 40))] s l ∧
    (∃ left, [⟨0, some 5, 40⟩, ⟨0, some 9, 41⟩] = left ++ s.contents 7 ∧
      List.Forall₂ Departure.Of [.discarded 0 6 40, .dispatched 0 6 41] left) ∧
    [(7, 0, 40)] = [(7, 0, 40)] ++ s.expired
  := by
  have h₁ := (Run.start (K := ℕ) (P := ℕ) (S := ℕ) (.new fun _ : Fin 1 => 1)).call
    (.admitItem ⟨7, 0, some 5, 40⟩) (by decide) rfl
  have h₂ := h₁.call (.admitItem ⟨7, 0, some 9, 41⟩) (by decide) rfl
  have h₃ := h₂.call (.next 0 6) (by decide) rfl
  have h₄ := h₃.call .popExpired (by decide) rfl
  obtain ⟨hitems, hexpired⟩ := Scheduler.items_leave_in_order h₄
  exact ⟨_, _, h₄, hitems 7, hexpired⟩

/-! ### The order of a ring -/

namespace Book

variable {b : Book K P S} {c : ClassId} {now : Duration}

omit [DecidableEq K] in
/-- A queue without a candidate leads with expired items of the class. -/
theorem expired_of_candidate_none {queue : List (Item P)} (h : candidate c now queue = none) :
  ∀ item ∈ queue.takeWhile (·.classId = c), item.isExpired now = true
  := by
  induction queue with
  | nil => simp
  | cons head queue ih =>
    by_cases hc : head.classId = c
    · cases hexp : head.isExpired now with
      | true =>
        have hgone : gone c now head = true := gone_iff.mpr ⟨hc, hexp⟩
        have hrest : candidate c now queue = none := by
          rw [candidate, List.dropWhile_cons, if_pos hgone] at h
          apply h
        intro item hitem
        simp only [List.takeWhile_cons, hc, decide_true, if_true, List.mem_cons] at hitem
        rcases hitem with rfl | hitem
        · apply hexp
        · apply ih hrest item hitem
      | false =>
        have hgone : gone c now head = false := by simp [gone, hexp]
        simp [candidate, hgone, hc] at h
    · simp [hc]

/-- Placing a key appends to a ring, or leaves it alone. -/
theorem place_ready (b : Book K P S) (k : K) (page : Page P S) (c : ClassId) :
  ∃ joined, (b.place k page).ready c = b.ready c ++ joined
  := by
  rw [place]
  cases page.queue.head? with
  | none => exact ⟨[], by simp [write]⟩
  | some head =>
    by_cases hc : c = head.classId
    · subst hc
      exact ⟨[k], by simp [join, write]⟩
    · exact ⟨[], by simp [join, write, Function.update_of_ne hc]⟩

/-- An admission appends to a ring, or leaves it alone. -/
theorem admitItem_ready (b : Book K P S) (a : Admit K P) (c : ClassId) :
  ∃ joined, (b.admitItem a).ready c = b.ready c ++ joined
  := by
  have hjoin : ∀ b' : Book K P S, b'.ready = b.ready →
      ∃ joined, (b'.join a.key a.classId).ready c = b.ready c ++ joined := by
    intro b' hb'
    by_cases hc : c = a.classId
    · subst hc
      exact ⟨[a.key], by simp [join, hb']⟩
    · exact ⟨[], by simp [join, Function.update_of_ne hc, hb']⟩
  rw [admitItem]
  cases b.page a.key with
  | none => apply hjoin _ rfl
  | some page =>
    by_cases hidle : page.presence = .idle
    · simp only [hidle, if_true]
      apply hjoin _ rfl
    · simp only [hidle, if_false]
      exact ⟨[], by simp [write]⟩

/-- The end of a flush appends to a ring, or leaves it alone. -/
theorem finishEvict_ready (b : Book K P S) (k : K) (c : ClassId) :
  ∃ joined, (b.finishEvict k).ready c = b.ready c ++ joined
  := by
  rw [finishEvict]
  simp only
  cases b.page k with
  | none => exact ⟨[], (List.append_nil _).symm⟩
  | some page =>
    simp only
    split
    · exact ⟨[], (List.append_nil _).symm⟩
    · apply place_ready

/-- A visit of another ring appends to this one, or leaves it alone. -/
theorem visit_ready_other {c' : ClassId} (now : Duration) (hc : c ≠ c') (ring : List K)
    (b : Book K P S) :
  ∃ joined, (b.visit c' now ring).book.ready c = b.ready c ++ joined
  := by
  induction ring generalizing b with
  | nil => exact ⟨[], by simp [visit]⟩
  | cons k ring ih =>
    cases hpage : b.page k with
    | none => exact ⟨[], by simp [visit, hpage]⟩
    | some page =>
      cases hcand : candidate c' now page.queue with
      | some head =>
        rw [visit_dispatch ring hpage hcand]
        exact ⟨[], by simp [dispatch, discard, write, Function.update_of_ne hc]⟩
      | none =>
        rw [visit_passOver ring hpage hcand]
        obtain ⟨joined, hjoined⟩ := ih (b.passOver c' now k page ring)
        obtain ⟨placed, hplaced⟩ := place_ready
          ({ b with ready := Function.update b.ready c' ring }.discard k
            (page.queue.takeWhile (gone c' now))) k
          { page with queue := page.queue.dropWhile (gone c' now) } c
        refine ⟨placed ++ joined, ?_⟩
        rw [hjoined, ← List.append_assoc, passOver, hplaced]
        simp [discard, Function.update_of_ne hc]

/-- A visit of a ring takes keys from its front: each was dispatched, or led with expired
items only. -/
theorem visit_ready_self {CLASSES : ℕ} {l : Ledger K} {ring : List K} (now : Duration)
    (h : b.Good CLASSES l) (hr : b.ready c = ring) :
  ∃ popped, ring = popped ++ (b.visit c now ring).book.ready c ∧
    (∀ d ∈ (b.visit c now ring).dispatched, d.1 ∈ popped) ∧
    ∀ k ∈ popped, (∃ d ∈ (b.visit c now ring).dispatched, d.1 = k) ∨
      ∀ item ∈ (b.queue k).takeWhile (·.classId = c), item.isExpired now = true
  := by
  induction ring generalizing b with
  | nil => exact ⟨[], by simp [visit, hr]⟩
  | cons j ring ih =>
    obtain ⟨page, hpage, -⟩ := h.page_of_ready hr
    have hqueue : b.queue j = page.queue := by
      rw [queue, hpage]
      rfl
    cases hcand : candidate c now page.queue with
    | some head =>
      rw [visit_dispatch ring hpage hcand]
      refine ⟨[j], ?_, ?_, ?_⟩
      · simp [dispatch, discard, write]
      · simp
      · intro k hk
        rw [List.mem_singleton] at hk
        left
        exact ⟨_, rfl, hk.symm⟩
    | none =>
      have hready : (b.passOver c now j page ring).ready c = ring :=
        Inv.passOver_ready now hcand
      obtain ⟨popped, hring, hdisp, hpopped⟩ := ih (h.passOver now hr hpage) hready
      rw [visit_passOver ring hpage hcand]
      refine ⟨j :: popped, ?_, ?_, ?_⟩
      · rw [List.cons_append, ← hring]
      · intro d hd
        simp [hdisp d hd]
      · intro k hk
        rcases List.mem_cons.mp hk with rfl | hk
        · right
          rw [hqueue]
          apply expired_of_candidate_none hcand
        · have hmem : k ∈ ring := by
            rw [hring]
            apply List.mem_append_left _ hk
          have hne : k ≠ j := by
            rintro rfl
            have hnodup := h.nodup (.ready c)
            rw [standing, hr, List.nodup_cons] at hnodup
            apply hnodup.1 hmem
          have hload := congrFun (load_passOver b c now j page ring) k
          rw [Function.update_of_ne hne] at hload
          have hsame : (b.passOver c now j page ring).queue k = b.queue k :=
            congrArg Prod.snd hload
          rw [← hsame]
          apply hpopped k hk

end Book

/-- Whether an event is a call of `next` for the class that dispatched an item. -/
def Event.serves (c : ClassId) : Event K P S → Bool
  | .next c' _ _ (some _) => c' = c
  | _ => false

namespace Account

variable {cfg : Config CLASSES} {x y : Account K P S CLASSES} {e : Event K P S}
  {t : List (Event K P S)} {k : K} {c : ClassId}

/-- The key was taken from the ring of its class by a call of `next` that dispatched it, or
that found the leading items of that class expired. -/
def Popped (x : Account K P S CLASSES) (e : Event K P S) (c : ClassId) (k : K) : Prop :=
  ∃ now discarded dispatch, e = .next c now discarded dispatch ∧
    ((∃ d ∈ dispatch, d.key = k) ∨
      ∀ item ∈ (x.book.queue k).takeWhile (·.classId = c), item.isExpired now = true)

/-- One event brings a key of a ring closer to its front when it dispatches another key of
the ring, moves it no further away, and takes it from the ring only if it pops it. -/
def RingMoves (x : Account K P S CLASSES) (e : Event K P S) (y : Account K P S CLASSES)
    (c : ClassId) (k : K) (before : List K) : Prop :=
  (∃ before' after', y.book.ready c = before' ++ k :: after' ∧
    before'.length + [e].countP (·.serves c) ≤ before.length ∧ ¬ e.Dispatches k) ∨
  (k ∉ y.book.ready c ∧ x.Popped e c k)

omit [DecidableEq K] in
/-- An event that appends to the ring. -/
theorem RingMoves.joined {before after : List K} (hr : x.book.ready c = before ++ k :: after)
    (hserves : e.serves c = false) (hdisp : ¬ e.Dispatches k)
    (h : ∃ joined, y.book.ready c = x.book.ready c ++ joined) :
  x.RingMoves e y c k before
  := by
  obtain ⟨joined, hjoined⟩ := h
  left
  refine ⟨before, after ++ joined, ?_, ?_, hdisp⟩
  · rw [hjoined, hr, List.append_assoc]
    rfl
  · simp [hserves]

/-- What one event does to a ring. -/
theorem Step.ring (h : x.Step cfg e y) {before after : List K}
    (hr : x.book.ready c = before ++ k :: after) :
  x.RingMoves e y c k before
  := by
  have hk : k ∈ x.book.ready c := by simp [hr]
  have hmoves := h.1
  cases e with
  | admitItem a =>
    obtain ⟨-, hbook⟩ := hmoves
    apply RingMoves.joined hr rfl
    · rintro ⟨d, hd, -⟩
      cases hd
    · rw [hbook]
      apply Book.admitItem_ready
  | next c' now discarded dispatch =>
    obtain ⟨hc', hbook, -, hdispatch⟩ := hmoves
    simp only [Book.turn, hc', dif_pos] at hbook hdispatch
    split at hbook
    · rename_i hbudget
      rw [if_pos hbudget] at hdispatch
      subst hdispatch
      apply RingMoves.joined hr rfl
      · rintro ⟨d, hd, -⟩
        cases hd
      · exact ⟨[], by rw [hbook, List.append_nil]⟩
    · rename_i hbudget
      rw [if_neg hbudget] at hdispatch
      by_cases hcc : c' = c
      · subst hcc
        obtain ⟨popped, hring, hdisp, hpopped⟩ := Book.visit_ready_self now x.good rfl
        rw [← hbook] at hring
        have hnodup : (x.book.ready c').Nodup := x.good.nodup (.ready c')
        rw [hring, List.nodup_append] at hnodup
        by_cases hkp : k ∈ popped
        · right
          refine ⟨?_, now, discarded, dispatch, rfl, ?_⟩
          · intro hk'
            apply hnodup.2.2 k hkp k hk' rfl
          · rcases hpopped k hkp with ⟨d, hd, rfl⟩ | hexp
            · left
              rw [hdispatch]
              exact ⟨Scheduler.toDispatch c' d, by rw [hd]; rfl, rfl⟩
            · right
              apply hexp
        · left
          have hk' : k ∈ y.book.ready c' := by
            rw [hring, List.mem_append] at hk
            apply hk.resolve_left hkp
          obtain ⟨before', after', hy⟩ := List.append_of_mem hk'
          have hbefore : before = popped ++ before' := by
            rw [hr, hy, ← List.append_assoc] at hring
            have hnd : (before ++ k :: after).Nodup := by
              rw [← hr]
              apply x.good.nodup (.ready c')
            have hnot : k ∉ before ∧ k ∉ after := by
              rw [List.nodup_append, List.nodup_cons] at hnd
              refine ⟨?_, hnd.2.1.1⟩
              intro hb
              apply hnd.2.2 k hb k (by simp) rfl
            apply ((List.append_cons_inj_of_notMem hnot.1 hnot.2).mp hring).1
          refine ⟨before', after', hy, ?_, ?_⟩
          · rw [hbefore, List.length_append]
            have hle : [Event.next c' now discarded dispatch].countP (·.serves c') ≤
                popped.length := by
              cases hd : (x.book.visit c' now (x.book.ready c')).dispatched with
              | none =>
                rw [hd] at hdispatch
                subst hdispatch
                simp [Event.serves]
              | some d =>
                have hpos := List.length_pos_of_mem (hdisp d hd)
                have hone := List.countP_le_length (p := fun e : Event K P S => e.serves c')
                  (l := [Event.next c' now discarded dispatch])
                simp only [List.length_singleton] at hone
                omega
            omega
          · rintro ⟨d, hd, rfl⟩
            simp only [Event.dispatched, hdispatch, Option.mem_def, Option.map_eq_some_iff] at hd
            obtain ⟨d', hd', rfl⟩ := hd
            apply hkp (hdisp d' hd')
      · have hnot : ¬ (Event.next c' now discarded dispatch).Dispatches k := by
          intro hd
          have hrun := Ledger.mem_running_record (l := x.ledger) (Or.inl hd)
            (Event.not_completes_of_dispatches hd)
          rw [← h.2] at hrun
          have hflight := ((y.good.mem .inFlight k).mp hrun).2
          obtain ⟨joined, hjoined⟩ := Book.visit_ready_other now (Ne.symm hcc)
            (x.book.ready c') x.book
          have hready := ((y.good.mem (.ready c) k).mp (by
            change k ∈ y.book.ready c
            rw [hbook, hjoined]
            simp [hk])).2
          rw [hflight] at hready
          cases hready
        apply RingMoves.joined hr
        · cases dispatch <;> simp [Event.serves, hcc]
        · apply hnot
        · rw [hbook]
          apply Book.visit_ready_other now (Ne.symm hcc)
  | popExpired item =>
    obtain ⟨hbook, -⟩ := hmoves
    apply RingMoves.joined hr rfl
    · rintro ⟨d, hd, -⟩
      cases hd
    · exact ⟨[], by rw [hbook, List.append_nil]; rfl⟩
  | complete completion now =>
    obtain ⟨-, hbook⟩ := hmoves
    apply RingMoves.joined hr rfl
    · rintro ⟨d, hd, -⟩
      cases hd
    · rw [hbook, Book.complete]
      cases hpage : x.book.page completion.key with
      | none => exact ⟨[], (List.append_nil _).symm⟩
      | some page => apply Book.place_ready
  | evict now pushed =>
    obtain ⟨m, hbook, -⟩ := hmoves
    apply RingMoves.joined hr rfl
    · rintro ⟨d, hd, -⟩
      cases hd
    · exact ⟨[], by rw [hbook, (Book.evict_frame _ _).1, List.append_nil]⟩
  | evictAll pushed =>
    obtain ⟨hbook, -⟩ := hmoves
    apply RingMoves.joined hr rfl
    · rintro ⟨d, hd, -⟩
      cases hd
    · exact ⟨[], by rw [hbook, (Book.evict_frame _ _).1, List.append_nil]⟩
  | finishEvict key now =>
    obtain ⟨-, hbook⟩ := hmoves
    apply RingMoves.joined hr rfl
    · rintro ⟨d, hd, -⟩
      cases hd
    · rw [hbook]
      apply Book.finishEvict_ready

end Account

/-- The events after which the key still stands in the ring of the class. -/
def Scheduler.StepInRing (c : Fin CLASSES) (k : K) (x : Scheduler K P S CLASSES × Ledger K)
    (e : Event K P S) (y : Scheduler K P S CLASSES × Ledger K) : Prop :=
  Step x e y ∧ k ∈ y.1.ready c

/-- One more call after which the key stands in the ring. -/
theorem Scheduler.Run.inRing {cfg : Config CLASSES} {t : List (Event K P S)}
    {s s' : Scheduler K P S CLASSES} {l : Ledger K} {e : Event K P S} (_ : Run cfg t s l)
    (c : Fin CLASSES) (k : K) (call : Call K P S) (hallow : l.Allows CLASSES call)
    (hok : s.perform call = .ok (s', e)) (hmem : k ∈ s'.ready c) :
  Trail (StepInRing c k) (s, l) [e] (s', l.record e)
  := Trail.nil.snoc ⟨⟨call, hallow, hok, rfl⟩, hmem⟩

/-- While a key that has `before` in front of it stays in its ring, calls of `next` for the
class dispatch at most as many items as there are keys in `before`, none of them of this
key; the key leaves the ring only in a call of `next` for the class that dispatches it or
finds its leading items of the class expired. -/
theorem Scheduler.starvation_is_bounded {cfg : Config CLASSES} {t : List (Event K P S)}
    {s : Scheduler K P S CLASSES} {l : Ledger K} (h : Run cfg t s l) {c : ClassId}
    (hc : c.toNat < CLASSES) {k : K} {before after : List K}
    (hr : s.ready ⟨c.toNat, hc⟩ = before ++ k :: after) :
  (∀ t' s' l', Trail (StepInRing ⟨c.toNat, hc⟩ k) (s, l) t' (s', l') →
    (∃ before' after', s'.ready ⟨c.toNat, hc⟩ = before' ++ k :: after' ∧
      before'.length + t'.countP (·.serves c) ≤ before.length) ∧
    ∀ e ∈ t', ¬ e.Dispatches k) ∧
  (∀ e s' l', Step (s, l) e (s', l') → k ∉ s'.ready ⟨c.toNat, hc⟩ →
    ∃ now discarded dispatch, e = .next c now discarded dispatch ∧
      ((∃ d ∈ dispatch, d.key = k) ∨
        ∀ item ∈ (s.contents k).takeWhile (·.classId = c), item.isExpired now = true))
  := by
  obtain ⟨a, -, hholds⟩ := h.account
  have hring : ∀ {x : Scheduler K P S CLASSES × Ledger K} {a : Account K P S CLASSES},
      Holds cfg x a → x.1.ready ⟨c.toNat, hc⟩ = a.book.ready c := by
    rintro x a ⟨⟨own, free, hrep⟩, -⟩
    apply hrep.ready c hc
  constructor
  · intro t' s' l' htrail
    have hinv := htrail.invariant (fun t y => ∃ a', Holds cfg y a' ∧
      (∃ before' after', a'.book.ready c = before' ++ k :: after' ∧
        before'.length + t.countP (·.serves c) ≤ before.length) ∧ ∀ e ∈ t, ¬ e.Dispatches k)
    obtain ⟨a', hholds', ⟨before', after', hr', hle⟩, hnot⟩ := hinv
      ⟨a, hholds, ⟨before, after, by rw [← hring hholds, hr], by simp⟩, by simp⟩
      (by
        rintro t₁ y e z - ⟨a₁, hholds₁, ⟨before₁, after₁, hr₁, hle₁⟩, hnot₁⟩ ⟨hstep, hmem⟩
        obtain ⟨a₂, hstep₂, hholds₂⟩ := hholds₁.step hstep
        rw [hring hholds₂] at hmem
        rcases hstep₂.ring hr₁ with ⟨before₂, after₂, hr₂, hle₂, hnot₂⟩ | ⟨hgone, -⟩
        · refine ⟨a₂, hholds₂, ⟨before₂, after₂, hr₂, ?_⟩, ?_⟩
          · rw [List.countP_append]
            omega
          · intro e' he'
            rcases List.mem_append.mp he' with hold | hnew
            · apply hnot₁ e' hold
            · rw [List.mem_singleton.mp hnew]
              apply hnot₂
        · exact (hgone hmem).elim)
    exact ⟨⟨before', after', (hring hholds').trans hr', hle⟩, hnot⟩
  · intro e s' l' hstep hnot
    obtain ⟨a', hstep', hholds'⟩ := hholds.step hstep
    rw [hring hholds] at hr
    rw [hring hholds'] at hnot
    obtain ⟨⟨own, free, hrep⟩, -⟩ := hholds
    rw [hrep.contents]
    rcases hstep'.ring hr with ⟨before', after', hr', -⟩ | ⟨-, hpopped⟩
    · exact (hnot (by simp [hr'])).elim
    · apply hpopped

/-- The second key of a ring after the first was dispatched. -/
theorem Scheduler.starvation_is_bounded_second :
  ∃ (s s' : Scheduler ℕ ℕ ℕ 1) (l l' : Ledger ℕ),
    Run (.new fun _ => 2) [.admitItem ⟨1, 0, none, 40⟩, .admitItem ⟨2, 0, none, 41⟩] s l ∧
    s.ready 0 = [1] ++ 2 :: [] ∧
    Trail (StepInRing 0 2) (s, l) [.next 0 1 [] (some ⟨1, 0, none, 40⟩)] (s', l') ∧
    ∃ before' after', s'.ready 0 = before' ++ 2 :: after' ∧
      before'.length + [(.next 0 1 [] (some ⟨1, 0, none, 40⟩) : Event ℕ ℕ ℕ)].countP
        (·.serves 0) ≤ 1
  := by
  have h₁ := (Run.start (K := ℕ) (P := ℕ) (S := ℕ) (.new fun _ : Fin 1 => 2)).call
    (.admitItem ⟨1, 0, none, 40⟩) (by decide) rfl
  have h₂ := h₁.call (.admitItem ⟨2, 0, none, 41⟩) (by decide) rfl
  have hstep := h₂.inRing 0 2 (.next 0 1) (by decide) rfl (by decide)
  obtain ⟨hbound, -⟩ := (Scheduler.starvation_is_bounded (c := 0) h₂ (by decide) rfl).1 _ _ _ hstep
  exact ⟨_, _, _, _, h₂, rfl, hstep, hbound⟩

end Grommet
