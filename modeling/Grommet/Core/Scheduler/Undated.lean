import Grommet.Core.Scheduler.Spent

/-!
# A book without deadlines

When no queued item has a deadline nothing is discarded, and a ring moves in one way only: a
call of `next` for its class takes its first key, unless the budget of the class is used up or
the ring is empty.  A key joins a ring at its end, and it joins one when it is admitted while it
stands nowhere or is idle, or when it is completed with something queued.
-/

namespace Grommet

variable {K P S : Type} {CLASSES : ℕ}

namespace Book

/-- No queued item has a deadline. -/
def Undated (b : Book K P S) : Prop :=
  ∀ k, ∀ item ∈ b.queue k, item.expiresAt = none

/-- The book has pages for keys of a kind only. -/
def Within (b : Book K P S) (F : K → Prop) : Prop :=
  ∀ k page, b.page k = some page → F k

variable {b b' : Book K P S} {l : Ledger K} {c : ClassId} {k j : K} {now : Duration}
  {F : K → Prop} {m : ℕ}

theorem undated_empty :
  (empty : Book K P S).Undated
  := by
  rintro k item ⟨⟩

theorem within_empty :
  (empty : Book K P S).Within F
  := by
  rintro k page ⟨⟩

theorem Undated.of_queue (h : b.Undated) (hqueue : b'.queue = b.queue) :
  b'.Undated
  := by
  intro k item hitem
  rw [hqueue] at hitem
  exact h k item hitem

theorem gone_eq_false {item : Item P} (h : item.expiresAt = none) :
  gone c now item = false
  := by
  rw [gone, Item.isExpired, h, Option.any_none, Bool.and_false]

theorem dropWhile_gone {queue : List (Item P)} (h : ∀ item ∈ queue, item.expiresAt = none) :
  queue.dropWhile (gone c now) = queue ∧ queue.takeWhile (gone c now) = []
  := by
  cases queue with
  | nil => exact ⟨rfl, rfl⟩
  | cons item rest =>
    have hgone : gone c now item = false := gone_eq_false (h item List.mem_cons_self)
    exact ⟨List.dropWhile_cons_of_neg (by simp [hgone]), List.takeWhile_cons_of_neg (by simp [hgone])⟩

/-- What the ring of a class has in front is what its class says. -/
theorem Inv.head_of_ready (hg : b.Good CLASSES l) {ring : List K} (hr : b.ready c = k :: ring) :
  ∃ page head rest, b.page k = some page ∧ page.queue = head :: rest ∧ head.classId = c
  := by
  obtain ⟨page, hpage, hpresence⟩ := hg.page_of_ready hr
  have hok := hg.page k page id hpage
  rw [PageOk, hpresence] at hok
  obtain ⟨head, hhead, hclass⟩ := Option.map_eq_some_iff.mp hok
  obtain ⟨rest, hqueue⟩ := List.head?_eq_some_iff.mp hhead
  exact ⟨page, head, rest, hpage, hqueue, hclass⟩

theorem queue_of_page {page : Page P S} (h : b.page k = some page) :
  b.queue k = page.queue
  := by
  rw [queue, h]
  rfl

variable [DecidableEq K]

/-! ### Calls of `next` -/

/-- What a dispatch of the first key of a ring did to the book. -/
structure Takes (c : ClassId) (k : K) (head : Item P) (b b' : Book K P S) : Prop where
  ring : b.ready c = k :: b'.ready c
  others : ∀ c', c' ≠ c → b'.ready c' = b.ready c'
  first : b.queue k = head :: b'.queue k
  queues : ∀ j, j ≠ k → b'.queue j = b.queue j
  class_eq : head.classId = c
  expired : b'.expired = b.expired
  pages : ∀ j, (b'.page j).isSome = (b.page j).isSome

theorem takes_dispatch (h : b.Undated) {page : Page P S} {head : Item P} {rest : List (Item P)}
    {ring : List K} (hr : b.ready c = k :: ring) (hpage : b.page k = some page)
    (hqueue : page.queue = head :: rest) (hclass : head.classId = c) :
  Takes c k head b (b.dispatch c now k page ring)
  := by
  have hall : ∀ item ∈ page.queue, item.expiresAt = none := by
    intro item hitem
    rw [← queue_of_page hpage] at hitem
    exact h k item hitem
  obtain ⟨hdrop, htake⟩ := @dropWhile_gone _ c now _ hall
  have hload : ∀ j, (b.dispatch c now k page ring).queue j =
      if j = k then rest else b.queue j := by
    intro j
    have hj := congrArg Prod.snd (congrFun (load_dispatch b c now k page ring) j)
    rw [hdrop, hqueue, Function.update_apply] at hj
    refine Eq.trans hj ?_
    split
    · rfl
    · rfl
  constructor
  · rw [hr, dispatch, discard]
    simp [write]
  · intro c' hc'
    simp [dispatch, discard, write, Function.update_of_ne hc']
  · rw [queue_of_page hpage, hload, if_pos rfl, hqueue]
  · intro j hj
    rw [hload, if_neg hj]
  · exact hclass
  · simp [dispatch, discard, write, htake]
  · intro j
    by_cases hj : j = k
    · subst hj
      simp [dispatch, discard, write, hpage]
    · simp [dispatch, discard, write, Function.update_of_ne hj]

/-- A call of `next` leaves a book without deadlines as it is, or dispatches the first key of the
ring. -/
theorem Undated.turn (h : b.Undated) (hg : b.Good CLASSES l) (cfg : Config CLASSES)
    (hc : c.toNat < CLASSES) (now : Duration) :
  ((cfg.maxInflight ⟨_, hc⟩ ≤ b.inflight c ∨ b.ready c = []) ∧ b.turn cfg c now = ⟨b, [], none⟩) ∨
    ∃ k state head, (b.turn cfg c now).dispatched = some (k, state, head) ∧
      Takes c k head b (b.turn cfg c now).book
  := by
  rw [Book.turn, dif_pos hc]
  by_cases hfull : cfg.maxInflight ⟨_, hc⟩ ≤ b.inflight c
  · left
    rw [if_pos hfull]
    exact ⟨Or.inl hfull, rfl⟩
  · rw [if_neg hfull]
    cases hr : b.ready c with
    | nil => exact Or.inl ⟨Or.inr rfl, rfl⟩
    | cons k ring =>
      right
      obtain ⟨page, head, rest, hpage, hqueue, hclass⟩ := hg.head_of_ready hr
      have hall : ∀ item ∈ page.queue, item.expiresAt = none := by
        intro item hitem
        rw [← queue_of_page hpage] at hitem
        exact h k item hitem
      have hcandidate : candidate c now page.queue = some head := by
        rw [candidate, (dropWhile_gone hall).1, hqueue]
        simp [hclass]
      rw [visit_dispatch ring hpage hcandidate]
      exact ⟨k, page.resident, head, rfl, takes_dispatch h hr hpage hqueue hclass⟩

theorem Takes.undated {head : Item P} (h : Takes c k head b b') (hb : b.Undated) :
  b'.Undated
  := by
  intro j item hitem
  by_cases hj : j = k
  · subst hj
    exact hb j item (by rw [h.first]; exact List.mem_cons_of_mem _ hitem)
  · rw [h.queues j hj] at hitem
    exact hb j item hitem

omit [DecidableEq K] in
theorem Within.of_pages (h : b.Within F)
    (hpages : ∀ j, (b'.page j).isSome = true → (b.page j).isSome = true) :
  b'.Within F
  := by
  intro j page hpage
  obtain ⟨page', hpage'⟩ := Option.isSome_iff_exists.mp (hpages j (by rw [hpage]; rfl))
  exact h j page' hpage'

/-! ### The other calls -/

theorem Undated.admitItem {a : Admit K P} (h : b.Undated) (ha : a.expiresAt = none) :
  (b.admitItem a).Undated
  := by
  intro j item hitem
  have hload := congrArg Prod.snd (congrFun (load_admitItem b a) j)
  rw [Function.update_apply] at hload
  have hqueue : (b.admitItem a).queue j = _ := hload
  rw [hqueue] at hitem
  split at hitem
  · rcases List.mem_append.mp hitem with hold | hnew
    · exact h a.key item hold
    · rw [List.mem_singleton.mp hnew]
      exact ha
  · exact h j item hitem

/-- An admission appends its key to the ring of its class if the key stands nowhere or is
idle. -/
theorem admitItem_rings (b : Book K P S) (a : Admit K P) :
  (b.admitItem a).ready = if b.presence a.key = none ∨ b.presence a.key = some .idle then
    Function.update b.ready a.classId (b.ready a.classId ++ [a.key]) else b.ready
  := by
  rw [Book.admitItem, presence]
  cases b.page a.key with
  | none => rfl
  | some page =>
    by_cases hidle : page.presence = .idle
    · simp [hidle, join, write]
    · simp [hidle, write]

theorem Within.admitItem {a : Admit K P} (h : b.Within F) (ha : F a.key) :
  (b.admitItem a).Within F
  := by
  intro j page hpage
  by_cases hj : j = a.key
  · rw [hj]
    exact ha
  · have hsame : (b.admitItem a).page j = b.page j := by
      rw [Book.admitItem]
      cases b.page a.key with
      | none => exact write_page_of_ne hj
      | some page =>
        simp only
        split
        · exact write_page_of_ne hj
        · exact write_page_of_ne hj
    rw [hsame] at hpage
    exact h j page hpage

/-- A placed key joins the ring of its first item, if it has one. -/
theorem place_rings (b : Book K P S) (k : K) (page : Page P S) :
  (b.place k page).ready = page.queue.head?.elim b.ready fun head =>
    Function.update b.ready head.classId (b.ready head.classId ++ [k])
  := by
  rw [place]
  cases page.queue.head? <;> rfl

theorem place_pages (b : Book K P S) (k : K) (page : Page P S) (hj : j ≠ k) :
  (b.place k page).page j = b.page j
  := by
  rw [place]
  cases page.queue.head? with
  | none => exact write_page_of_ne hj
  | some head => exact write_page_of_ne hj

/-- A completion puts its key into the ring of its first item, if it has one. -/
theorem complete_rings {completion : Completion K S} {page : Page P S}
    (hpage : b.page completion.key = some page) :
  (b.complete completion).ready = (b.queue completion.key).head?.elim b.ready fun head =>
    Function.update b.ready head.classId (b.ready head.classId ++ [completion.key])
  := by
  rw [complete, hpage, queue_of_page hpage]
  apply place_rings

theorem complete_queue {completion : Completion K S} {page : Page P S}
    (hpage : b.page completion.key = some page) :
  (b.complete completion).queue = b.queue
  := by
  funext j
  have hload := congrArg Prod.snd (congrFun (load_complete hpage) j)
  rw [Function.update_apply] at hload
  split at hload
  · rename_i hj
    rw [hj, queue_of_page hpage]
    rw [hj] at hload
    exact hload
  · exact hload

theorem Within.complete {completion : Completion K S} (h : b.Within F) :
  (b.complete completion).Within F
  := by
  apply h.of_pages
  intro j hj
  rw [Book.complete] at hj
  cases hpage : b.page completion.key with
  | none =>
    rw [hpage] at hj
    exact hj
  | some page =>
    rw [hpage] at hj
    simp only at hj
    by_cases hjk : j = completion.key
    · rw [hjk, hpage]
      rfl
    · rw [place_pages _ _ _ hjk] at hj
      exact hj

theorem Within.release (h : b.Within F) :
  b.release.1.Within F
  := by
  apply h.of_pages
  intro j hj
  rw [Book.release] at hj
  cases hidle : b.idle with
  | nil =>
    rw [hidle] at hj
    exact hj
  | cons k rest =>
    rw [hidle] at hj
    simp only at hj
    cases hpage : b.page k with
    | none =>
      rw [hpage] at hj
      exact hj
    | some page =>
      rw [hpage] at hj
      simp only at hj
      by_cases hjk : j = k
      · rw [hjk, hpage]
        rfl
      · split at hj
        · simpa [write, Function.update_of_ne hjk] using hj
        · simpa [write, Function.update_of_ne hjk] using hj

theorem Within.evict (h : b.Within F) :
  (b.evict m).1.Within F
  := by
  induction m generalizing b with
  | zero => exact h
  | succ m ih => exact ih h.release

theorem evict_queue (hg : b.Good CLASSES l) :
  (b.evict m).1.queue = b.queue
  := by
  funext k
  exact (load_evict hg).1 k

/-- The end of a flush with nothing queued forgets the key. -/
theorem finishEvict_of_queue (h : b.queue k = []) :
  b.finishEvict k = { b with evicting := b.evicting - 1 }.write k none
  := by
  rw [finishEvict]
  simp only
  cases hpage : b.page k with
  | none =>
    have hsame : Function.update b.page k none = b.page := by
      rw [← hpage]
      apply Function.update_eq_self
    rw [write]
    simp only [hsame]
  | some page =>
    rw [queue_of_page hpage] at h
    simp only [h, if_true]

theorem Within.finishEvict (h : b.Within F) (hqueue : b.queue k = []) :
  (b.finishEvict k).Within F
  := by
  apply h.of_pages
  intro j hj
  rw [finishEvict_of_queue hqueue] at hj
  by_cases hjk : j = k
  · subst hjk
    simp at hj
  · rw [write_page_of_ne hjk] at hj
    exact hj

theorem finishEvict_queue (hqueue : b.queue k = []) :
  (b.finishEvict k).queue = b.queue
  := by
  funext j
  rw [finishEvict_of_queue hqueue]
  by_cases hjk : j = k
  · subst hjk
    rw [hqueue, queue, write_page_self]
    rfl
  · rw [queue, write_page_of_ne hjk, queue]

end Book

end Grommet
