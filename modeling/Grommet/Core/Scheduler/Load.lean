import Grommet.Core.Scheduler.Run

/-!
# What a key holds

The load of a key is its resident state and its queued items.  An operation moves the load
of the keys that it is about and of no other key: an admission appends an item, a visit
takes items from the front and the state of the key it dispatches, a completion sets the
state and an eviction takes it.
-/

namespace Grommet.Book

variable {K P S : Type}

/-- The resident state of a key and its queued items. -/
def load (b : Book K P S) (k : K) : Option S × List (Item P) :=
  (b.resident k, b.queue k)

variable {CLASSES : ℕ} {b : Book K P S} {l : Ledger K} {k j : K} {c : ClassId} {now : Duration}
  {page : Page P S}

theorem load_of_page (h : b.page k = some page) :
  b.load k = (page.resident, page.queue)
  := by
  simp [load, resident, queue, h]

variable [DecidableEq K]

/-- Writing a page moves the load of its key. -/
theorem load_write (b : Book K P S) (k : K) (page : Option (Page P S)) :
  (b.write k page).load =
    Function.update b.load k (page.bind Page.resident, (page.map Page.queue).getD [])
  := by
  funext j
  by_cases hj : j = k
  · subst hj
    simp [load, resident, queue]
  · rw [Function.update_of_ne hj, load, resident, queue, write_page_of_ne hj]
    rfl

/-- Placing a key gives it the load of its page. -/
theorem load_place (b : Book K P S) (k : K) (page : Page P S) :
  (b.place k page).load = Function.update b.load k (page.resident, page.queue)
  := by
  rw [place]
  cases page.queue.head? <;> apply load_write

/-- An admission appends its item. -/
theorem load_admitItem (b : Book K P S) (a : Admit K P) :
  (b.admitItem a).load = Function.update b.load a.key
    ((b.load a.key).1, (b.load a.key).2 ++ [⟨a.classId, a.expiresAt, a.payload⟩])
  := by
  rw [admitItem]
  cases hpage : b.page a.key with
  | none =>
    have hload : b.load a.key = (none, []) := by
      simp [load, resident, queue, hpage]
    rw [hload]
    apply load_write
  | some page =>
    rw [load_of_page hpage]
    by_cases hidle : page.presence = .idle
    · simp only [hidle, if_true]
      apply load_write
    · simp only [hidle, if_false]
      apply load_write

/-- A dispatch takes the state and the items up to the candidate. -/
theorem load_dispatch (b : Book K P S) (c : ClassId) (now : Duration) (k : K) (page : Page P S)
    (ring : List K) :
  (b.dispatch c now k page ring).load =
    Function.update b.load k (none, (page.queue.dropWhile (gone c now)).tail)
  := by
  apply load_write

/-- Passing over a key takes its expired items. -/
theorem load_passOver (b : Book K P S) (c : ClassId) (now : Duration) (k : K) (page : Page P S)
    (ring : List K) :
  (b.passOver c now k page ring).load =
    Function.update b.load k (page.resident, page.queue.dropWhile (gone c now))
  := by
  apply load_place

/-- A completion sets the state of its key. -/
theorem load_complete {completion : Completion K S} (hpage : b.page completion.key = some page) :
  (b.complete completion).load =
    Function.update b.load completion.key (completion.state.intoOption, page.queue)
  := by
  rw [complete, hpage]
  apply load_place

/-- A release hands out the state of the oldest idle key, if it has one, and moves no other
load. -/
theorem load_release (h : b.Good CLASSES l) :
  (∀ k, (b.release.1.load k).2 = (b.load k).2) ∧
  ∀ k, (b.load k).1.toList = (b.release.2.filter (·.1 = k)).map Prod.snd ++
    (b.release.1.load k).1.toList
  := by
  cases hidle : b.idle with
  | nil => simp [release, hidle]
  | cons j rest =>
    have hpres := ((h.mem .idle j).mp (by simp [standing, hidle])).2
    rw [presence, Option.map_eq_some_iff] at hpres
    obtain ⟨page, hpage, hpres⟩ := hpres
    have hok := h.page j page id hpage
    simp only [PageOk, hpres] at hok
    have hload := load_of_page hpage
    rw [hok] at hload
    cases hstate : page.resident with
    | some state =>
      have hafter : b.release.1.load = Function.update b.load j (none, []) := by
        simp only [release, hidle, hpage, hstate]
        rw [← hok]
        apply load_write
      have hout : b.release.2 = [(j, state)] := by
        simp only [release, hidle, hpage, hstate]
      rw [hafter, hout]
      constructor
      · intro k
        by_cases hk : k = j
        · subst hk
          simp [hload]
        · rw [Function.update_of_ne hk]
      · intro k
        by_cases hk : k = j
        · subst hk
          simp [hload, hstate]
        · simp [Function.update_of_ne hk, Ne.symm hk]
    | none =>
      rw [hstate] at hload
      have hafter : b.release.1.load = b.load := by
        have hwrite : b.release.1.load = Function.update b.load j (none, []) := by
          simp only [release, hidle, hpage, hstate]
          apply load_write
        rw [hwrite, ← hload, Function.update_eq_self]
      have hout : b.release.2 = [] := by
        simp only [release, hidle, hpage, hstate]
      rw [hafter, hout]
      simp

/-- An eviction hands out states and moves no other load. -/
theorem load_evict {m : ℕ} (h : b.Good CLASSES l) :
  (∀ k, ((b.evict m).1.load k).2 = (b.load k).2) ∧
  ∀ k, (b.load k).1.toList = ((b.evict m).2.filter (·.1 = k)).map Prod.snd ++
    ((b.evict m).1.load k).1.toList
  := by
  induction m generalizing b l with
  | zero => simp [evict]
  | succ m ih =>
    obtain ⟨hqueue, hstate⟩ := load_release h
    obtain ⟨hqueue', hstate'⟩ := ih h.release
    constructor
    · intro k
      rw [← hqueue k, ← hqueue' k]
      rfl
    · intro k
      rw [hstate k, hstate' k, ← List.append_assoc, ← List.map_append, ← List.filter_append]
      rfl

/-- The end of a flush moves no load. -/
theorem load_finishEvict (h : b.Good CLASSES l) (hk : k ∈ l.flushing) :
  (b.finishEvict k).load = b.load
  := by
  have hpres := ((h.mem .evicting k).mp hk).2
  rw [presence, Option.map_eq_some_iff] at hpres
  obtain ⟨page, hpage, hpres⟩ := hpres
  have hok := h.page k page id hpage
  simp only [PageOk, hpres] at hok
  have hload := load_of_page hpage
  rw [finishEvict]
  simp only [hpage]
  split
  · rename_i hq
    rw [hok, hq] at hload
    have hwrite := load_write { b with evicting := b.evicting - 1 } k none
    rw [hwrite]
    apply Function.update_eq_self_iff.mpr
    apply hload.symm
  · have hplace := load_place { b with evicting := b.evicting - 1 } k page
    rw [hplace]
    apply Function.update_eq_self_iff.mpr
    apply hload.symm

/-- The candidate of a queue is what follows its expired items. -/
theorem dropWhile_of_candidate {queue : List (Item P)} {head : Item P}
    (h : candidate c now queue = some head) :
  queue.dropWhile (gone c now) = head :: (queue.dropWhile (gone c now)).tail ∧
    head.classId = c ∧ head.isExpired now = false
  := by
  rw [candidate, Option.filter_eq_some_iff] at h
  obtain ⟨hhead, hc⟩ := h
  have hcc : head.classId = c := by simpa using hc
  have hcons : queue.dropWhile (gone c now) = head :: (queue.dropWhile (gone c now)).tail := by
    obtain ⟨rest, hrest⟩ := List.head?_eq_some_iff.mp hhead
    rw [hrest]
    rfl
  refine ⟨hcons, hcc, ?_⟩
  have hnot := List.head?_dropWhile_not (gone c now) queue
  rw [hhead] at hnot
  simpa [gone, hcc] using hnot

/-- A visit takes what it discards and what it dispatches from the front of the queues, and
the state of the key that it dispatches. -/
theorem load_visit (c : ClassId) (now : Duration) (ring : List K) (b : Book K P S) :
  (∀ k, (b.load k).2 = ((b.visit c now ring).discarded.filter (·.1 = k)).map Prod.snd ++
    ((b.visit c now ring).dispatched.filter (·.1 = k)).toList.map (·.2.2) ++
    ((b.visit c now ring).book.load k).2) ∧
  (∀ d ∈ (b.visit c now ring).dispatched,
    d.2.1 = (b.load d.1).1 ∧ ((b.visit c now ring).book.load d.1).1 = none) ∧
  (∀ k, (∀ d ∈ (b.visit c now ring).dispatched, d.1 ≠ k) →
    ((b.visit c now ring).book.load k).1 = (b.load k).1)
  := by
  induction ring generalizing b with
  | nil => simp [visit]
  | cons j ring ih =>
    cases hpage : b.page j with
    | none => simp [visit, hpage]
    | some page =>
      have hload := load_of_page hpage
      cases hcand : candidate c now page.queue with
      | some head =>
        obtain ⟨hcons, -, -⟩ := dropWhile_of_candidate hcand
        have hsplit := List.takeWhile_append_dropWhile (p := gone c now) (l := page.queue)
        rw [hcons] at hsplit
        rw [visit_dispatch ring hpage hcand]
        simp only [load_dispatch]
        refine ⟨?_, ?_, ?_⟩
        · intro k
          by_cases hk : k = j
          · subst hk
            simp [hload, List.filter_map, Function.comp_def, Option.filter_some, hsplit]
          · simp [Function.update_of_ne hk, Ne.symm hk, List.filter_map, Function.comp_def]
        · intro d hd
          cases hd
          simp [hload]
        · intro k hk
          have hne : k ≠ j := by
            rintro rfl
            apply hk _ rfl rfl
          rw [Function.update_of_ne hne]
      | none =>
        have hsplit := List.takeWhile_append_dropWhile (p := gone c now) (l := page.queue)
        obtain ⟨hqueue, hdisp, hkeep⟩ := ih (b.passOver c now j page ring)
        rw [visit_passOver ring hpage hcand]
        rw [load_passOver] at hqueue hdisp hkeep
        have hfst : ∀ k, (Function.update b.load j
            (page.resident, page.queue.dropWhile (gone c now)) k).1 = (b.load k).1 := by
          intro k
          by_cases hk : k = j
          · subst hk
            simp [hload]
          · rw [Function.update_of_ne hk]
        refine ⟨?_, ?_, ?_⟩
        · intro k
          have hq := hqueue k
          by_cases hk : k = j
          · subst hk
            rw [Function.update_self] at hq
            rw [hload]
            simp only [List.filter_append, List.filter_map, Function.comp_def, List.map_append,
              List.map_map, decide_true, List.filter_true, List.map_id', List.append_assoc]
            simp only [List.append_assoc] at hq
            rw [← hq, hsplit]
          · rw [Function.update_of_ne hk] at hq
            rw [hq]
            simp [List.filter_map, Function.comp_def, Ne.symm hk]
        · intro d hd
          have hd' := hdisp d hd
          rw [hfst] at hd'
          apply hd'
        · intro k hk
          rw [hkeep k hk, hfst]

/-- A call of `next` takes what it discards and what it dispatches from the front of the
queues, and the state of the key that it dispatches. -/
theorem load_turn (cfg : Config CLASSES) (c : ClassId) (now : Duration) (b : Book K P S) :
  (∀ k, (b.load k).2 = ((b.turn cfg c now).discarded.filter (·.1 = k)).map Prod.snd ++
    ((b.turn cfg c now).dispatched.filter (·.1 = k)).toList.map (·.2.2) ++
    ((b.turn cfg c now).book.load k).2) ∧
  (∀ d ∈ (b.turn cfg c now).dispatched,
    d.2.1 = (b.load d.1).1 ∧ ((b.turn cfg c now).book.load d.1).1 = none) ∧
  (∀ k, (∀ d ∈ (b.turn cfg c now).dispatched, d.1 ≠ k) →
    ((b.turn cfg c now).book.load k).1 = (b.load k).1)
  := by
  rw [turn]
  split
  · split
    · simp
    · apply load_visit
  · simp

end Grommet.Book
