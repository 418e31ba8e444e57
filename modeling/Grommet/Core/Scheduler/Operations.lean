import Grommet.Core.Scheduler.Book
import Grommet.Library.Lists

/-!
# The operations keep the book

Each operation of the book keeps `Book.Good` against the ledger of its caller: a dispatch
adds a debt, a completion settles it, an eviction adds the keys whose state it hands out
and the end of a flush settles one of them.
-/

namespace Grommet.Book

variable {K P S : Type} [DecidableEq K] {CLASSES : ℕ} {b : Book K P S} {l : Ledger K} {k : K}
  {c : ClassId}

/-- A visit of a key with a candidate dispatches it. -/
theorem visit_dispatch {now : Duration} {page : Page P S} {head : Item P} (ring : List K)
    (hpage : b.page k = some page) (hcand : candidate c now page.queue = some head) :
  b.visit c now (k :: ring) = ⟨b.dispatch c now k page ring,
    (page.queue.takeWhile (gone c now)).map (k, ·), some (k, page.resident, head)⟩
  := by
  simp only [visit, hpage, hcand]

/-- A visit of a key without a candidate passes it over. -/
theorem visit_passOver {now : Duration} {page : Page P S} (ring : List K)
    (hpage : b.page k = some page) (hcand : candidate c now page.queue = none) :
  b.visit c now (k :: ring) =
    ⟨((b.passOver c now k page ring).visit c now ring).book,
      (page.queue.takeWhile (gone c now)).map (k, ·) ++
        ((b.passOver c now k page ring).visit c now ring).discarded,
      ((b.passOver c now k page ring).visit c now ring).dispatched⟩
  := by
  simp only [visit, hpage, hcand]

/-! Only a visit and the caller move the discarded items. -/

theorem place_expired (b : Book K P S) (k : K) (page : Page P S) :
  (b.place k page).expired = b.expired
  := by
  rw [place]
  cases page.queue.head? <;> rfl

theorem admitItem_expired (b : Book K P S) (a : Admit K P) :
  (b.admitItem a).expired = b.expired
  := by
  rw [admitItem]
  cases b.page a.key with
  | none => rfl
  | some page =>
    by_cases hidle : page.presence = .idle
    · simp only [hidle, if_true]
      rfl
    · simp only [hidle, if_false]
      rfl

theorem complete_expired (b : Book K P S) (completion : Completion K S) :
  (b.complete completion).expired = b.expired
  := by
  rw [complete]
  cases b.page completion.key with
  | none => rfl
  | some page => apply place_expired

/-- A release moves neither the rings nor the discarded items. -/
theorem release_frame (b : Book K P S) :
  b.release.1.ready = b.ready ∧ b.release.1.expired = b.expired
  := by
  rw [release]
  split
  · exact ⟨rfl, rfl⟩
  · split
    · exact ⟨rfl, rfl⟩
    · split
      · exact ⟨rfl, rfl⟩
      · exact ⟨rfl, rfl⟩

/-- An eviction moves neither the rings nor the discarded items. -/
theorem evict_frame (b : Book K P S) (m : ℕ) :
  (b.evict m).1.ready = b.ready ∧ (b.evict m).1.expired = b.expired
  := by
  induction m generalizing b with
  | zero => exact ⟨rfl, rfl⟩
  | succ m ih =>
    obtain ⟨hready, hexpired⟩ := ih b.release.1
    rw [evict]
    exact ⟨hready.trans (release_frame b).1, hexpired.trans (release_frame b).2⟩

theorem finishEvict_expired (b : Book K P S) (k : K) :
  (b.finishEvict k).expired = b.expired
  := by
  rw [finishEvict]
  simp only
  cases b.page k with
  | none => rfl
  | some page =>
    simp only
    split
    · rfl
    · apply place_expired

/-- Passing over a key appends its expired items to the discarded ones. -/
theorem passOver_expired (c : ClassId) (now : Duration) (page : Page P S) (ring : List K) :
  (b.passOver c now k page ring).expired = b.expired ++
    (page.queue.takeWhile (gone c now)).map fun item => (k, item.classId, item.payload)
  := by
  rw [passOver, place_expired, discard]

/-- A visit appends what it discards to the discarded items. -/
theorem visit_expired (c : ClassId) (now : Duration) (ring : List K) :
  (b.visit c now ring).book.expired =
    b.expired ++ (b.visit c now ring).discarded.map fun d => (d.1, d.2.classId, d.2.payload)
  := by
  induction ring generalizing b with
  | nil => simp [visit]
  | cons k ring ih =>
    cases hpage : b.page k with
    | none => simp [visit, hpage]
    | some page =>
      cases hcand : candidate c now page.queue with
      | some head =>
        rw [visit_dispatch ring hpage hcand]
        simp only [List.map_map]
        rfl
      | none =>
        rw [visit_passOver ring hpage hcand]
        simp only [ih, passOver_expired, List.map_append, List.map_map, List.append_assoc]
        rfl

theorem turn_expired (cfg : Config CLASSES) (c : ClassId) (now : Duration) :
  (b.turn cfg c now).book.expired =
    b.expired ++ (b.turn cfg c now).discarded.map fun d => (d.1, d.2.classId, d.2.payload)
  := by
  rw [turn]
  split
  · split
    · simp
    · apply visit_expired
  · simp

namespace Inv

/-- A page may be rewritten while its key keeps its place. -/
theorem rewrite (h : b.Good CLASSES l) {page page' : Page P S} (hk : b.page k = some page)
    (hpres : page'.presence = page.presence) (hok : PageOk page')
    (hc : ∀ item ∈ page'.queue, item.classId.toNat < CLASSES) :
  (b.write k (some page')).Good CLASSES l
  := by
  have hpresence : (b.write k (some page')).presence = b.presence := by
    funext k'
    by_cases hk' : k' = k
    · subst hk'
      rw [write_presence_self, presence, hk, Option.map_some, Option.map_some, hpres]
    · rw [write_presence_of_ne hk']
  constructor
  · intro p k'
    rw [write_standing, hpresence]
    apply h.mem
  · intro p
    rw [write_standing]
    apply h.nodup
  · intro k' pg _ hpg
    by_cases hk' : k' = k
    · subst hk'
      rw [write_page_self, Option.some.injEq] at hpg
      rw [← hpg]
      apply hok
    · rw [write_page_of_ne hk'] at hpg
      apply h.page k' pg id hpg
  · intro k' pg hpg
    by_cases hk' : k' = k
    · subst hk'
      rw [write_page_self, Option.some.injEq] at hpg
      rw [← hpg]
      apply hc
    · rw [write_page_of_ne hk'] at hpg
      apply h.classes k' pg hpg
  · apply h.running
  · apply h.inflight
  · apply h.evicting

/-- An exempted key with a page of the ring's class may join the ring. -/
theorem join (h : b.Inv CLASSES (· = k) l) {page : Page P S} (hp : page.presence = .ready c)
    (hok : PageOk page) (hc : ∀ item ∈ page.queue, item.classId.toNat < CLASSES) :
  ((b.write k (some page)).join k c).Good CLASSES l
  := by
  have hw := h.write (some page) (by simpa using hc)
  apply hw.put (.ready c)
  · rw [write_presence_self, Option.map_some, hp]
  · intro pg hpg
    rw [write_page_self, Option.some.injEq] at hpg
    rw [← hpg]
    apply hok
  · rfl
  · simp [standing, Book.join, Book.write]
  · intro p hp'
    cases p with
    | ready c' =>
      have hne : c' ≠ c := by
        rintro rfl
        apply hp' rfl
      simp [standing, Book.join, Function.update_of_ne hne]
    | idle => rfl
    | inFlight => rfl
    | evicting => rfl
  · apply h.running
  · apply h.inflight
  · apply h.evicting

/-- An exempted key may be placed by its queue. -/
theorem place (h : b.Inv CLASSES (· = k) l) {page : Page P S}
    (hc : ∀ item ∈ page.queue, item.classId.toNat < CLASSES) :
  (b.place k page).Good CLASSES l
  := by
  rw [Book.place]
  cases hq : page.queue with
  | cons head rest =>
    simp only [List.head?_cons]
    apply h.join rfl
    · simp [PageOk]
    · simpa [hq] using hc
  | nil =>
    simp only [List.head?_nil]
    have hw := h.write (some { page with presence := .idle }) (by simpa using hc)
    rw [← hq]
    apply hw.put .idle
    · simp
    · intro pg hpg
      rw [write_page_self, Option.some.injEq] at hpg
      rw [← hpg]
      simp [PageOk, hq]
    · rfl
    · rfl
    · intro p hp
      cases p with
      | idle => exact (hp rfl).elim
      | ready _ => rfl
      | inFlight => rfl
      | evicting => rfl
    · apply h.running
    · apply h.inflight
    · apply h.evicting

/-- An idle key may be lifted out of the idle order. -/
theorem liftIdle (h : b.Good CLASSES l) (hk : b.presence k = some .idle) :
  Inv CLASSES (· = k) { b with idle := b.idle.erase k } l
  := by
  apply h.lift hk
  · rfl
  · rfl
  · intro p hp
    cases p with
    | idle => exact (hp rfl).elim
    | ready _ => rfl
    | inFlight => rfl
    | evicting => rfl
  · exact fun _ he => he
  · apply h.inflight
  · apply h.evicting

/-- The first key of a ring may be lifted out of it. -/
theorem liftReady (h : b.Good CLASSES l) {ring : List K} (hr : b.ready c = k :: ring) :
  Inv CLASSES (· = k) { b with ready := Function.update b.ready c ring } l
  := by
  have hk : b.presence k = some (.ready c) := by
    apply ((h.mem (.ready c) k).mp _).2
    simp [standing, hr]
  apply h.lift hk
  · rfl
  · simp [standing, hr]
  · intro p hp
    cases p with
    | ready c' =>
      have hne : c' ≠ c := by
        rintro rfl
        apply hp rfl
      simp [standing, Function.update_of_ne hne]
    | idle => rfl
    | inFlight => rfl
    | evicting => rfl
  · exact fun _ he => he
  · apply h.inflight
  · apply h.evicting

/-- A running key may be lifted out of the ledger. -/
theorem liftRunning (h : b.Good CLASSES l) (hk : (k, c) ∈ l.running) :
  Inv CLASSES (· = k)
    { b with inflight := Function.update b.inflight c (b.inflight c - 1) }
    { l with running := l.running.erase (k, c) }
  := by
  have hmem : k ∈ l.running.map Prod.fst := List.mem_map_of_mem hk
  apply h.lift ((h.mem .inFlight k).mp hmem).2
  · rfl
  · apply List.map_fst_erase (h.nodup .inFlight) hk
  · intro p hp
    cases p with
    | inFlight => exact (hp rfl).elim
    | idle => rfl
    | ready _ => rfl
    | evicting => rfl
  · intro e he
    apply List.mem_of_mem_erase he
  · intro c'
    rw [List.countP_erase]
    by_cases hc : c' = c
    · subst hc
      simp [h.inflight, hk]
    · simp [Function.update_of_ne hc, h.inflight, Ne.symm hc]
  · apply h.evicting

/-- A flushed key may be lifted out of the ledger. -/
theorem liftFlushing (h : b.Good CLASSES l) (hk : k ∈ l.flushing) :
  Inv CLASSES (· = k) { b with evicting := b.evicting - 1 }
    { l with flushing := l.flushing.erase k }
  := by
  apply h.lift ((h.mem .evicting k).mp hk).2
  · rfl
  · rfl
  · intro p hp
    cases p with
    | evicting => exact (hp rfl).elim
    | idle => rfl
    | ready _ => rfl
    | inFlight => rfl
  · exact fun _ he => he
  · apply h.inflight
  · rw [List.length_erase_of_mem hk, ← h.evicting]

omit [DecidableEq K] in
/-- The keys on the idle order have pages. -/
theorem page_of_idle {hole : K → Prop} (h : b.Inv CLASSES hole l) :
  ∀ j ∈ b.idle, (b.page j).isSome
  := by
  intro j hj
  obtain ⟨-, hp⟩ := (h.mem .idle j).mp hj
  rw [presence, Option.map_eq_some_iff] at hp
  obtain ⟨page, hpage, -⟩ := hp
  rw [hpage]
  rfl

/-! ### The operations -/

theorem admitItem (h : b.Good CLASSES l) {a : Admit K P} (ha : a.classId.toNat < CLASSES) :
  (b.admitItem a).Good CLASSES l
  := by
  rw [Book.admitItem]
  cases hpage : b.page a.key with
  | none =>
    apply (h.liftAbsent hpage).join rfl
    · simp [PageOk]
    · simpa using ha
  | some page =>
    have hok := h.page a.key page id hpage
    have hclasses : ∀ item ∈ page.queue ++ [⟨a.classId, a.expiresAt, a.payload⟩],
        item.classId.toNat < CLASSES := by
      intro item hitem
      rcases List.mem_append.mp hitem with hold | hnew
      · apply h.classes a.key page hpage item hold
      · rw [List.mem_singleton.mp hnew]
        apply ha
    by_cases hidle : page.presence = .idle
    · have hpres : b.presence a.key = some .idle := by
        rw [presence, hpage, Option.map_some, hidle]
      simp only [hidle, if_true]
      apply (h.liftIdle hpres).join rfl
      · have hq : page.queue = [] := by
          simpa [PageOk, hidle] using hok
        simp [PageOk, hq]
      · apply hclasses
    · simp only [hidle, if_false]
      refine h.rewrite hpage ?_ ?_ ?_
      · rfl
      · rw [PageOk] at hok ⊢
        cases hp : page.presence with
        | idle => exact (hidle hp).elim
        | ready c =>
          simp only [hp] at hok ⊢
          cases hq : page.queue with
          | nil => simp [hq] at hok
          | cons head rest => simpa [hq] using hok
        | inFlight => simpa [hp] using hok
        | evicting => simpa [hp] using hok
      · apply hclasses

omit [DecidableEq K] in
/-- Only the caller sees the discarded items. -/
theorem discarded {hole : K → Prop} (h : b.Inv CLASSES hole l)
    (expired : List (K × ClassId × P)) :
  Inv CLASSES hole { b with expired := expired } l
  := by
  have hs : ∀ p, standing { b with expired := expired } l p = b.standing l p := by
    intro p
    cases p <;> rfl
  constructor
  · intro p k
    rw [hs]
    apply h.mem
  · intro p
    rw [hs]
    apply h.nodup
  · apply h.page
  · apply h.classes
  · apply h.running
  · apply h.inflight
  · apply h.evicting

omit [DecidableEq K] in
/-- The page of the first key of a ring. -/
theorem page_of_ready (h : b.Good CLASSES l) {ring : List K} (hr : b.ready c = k :: ring) :
  ∃ page, b.page k = some page ∧ page.presence = .ready c
  := by
  obtain ⟨-, hpres⟩ := (h.mem (.ready c) k).mp (by simp [standing, hr])
  rw [presence, Option.map_eq_some_iff] at hpres
  apply hpres

/-- The first key of a ring may be dispatched. -/
theorem dispatch (h : b.Good CLASSES l) (hc : c.toNat < CLASSES) (now : Duration)
    {page : Page P S} {ring : List K} (hr : b.ready c = k :: ring) (hpage : b.page k = some page) :
  (b.dispatch c now k page ring).Good CLASSES { l with running := l.running ++ [(k, c)] }
  := by
  have hlift := (h.liftReady hr).discarded (b.expired ++
    (page.queue.takeWhile (gone c now)).map fun item => (k, item.classId, item.payload))
  have hw := hlift.write
    (some ⟨none, (page.queue.dropWhile (gone c now)).tail, .inFlight⟩) (by
      intro pg hpg item hitem
      cases hpg
      apply h.classes k page hpage item
      apply (List.dropWhile_sublist _).subset (List.mem_of_mem_tail hitem))
  apply hw.put .inFlight
  · simp
  · intro pg hpg
    rw [write_page_self, Option.some.injEq] at hpg
    rw [← hpg]
    simp [PageOk]
  · rfl
  · simp [standing]
  · intro p hp
    cases p with
    | inFlight => exact (hp rfl).elim
    | idle => rfl
    | ready _ => rfl
    | evicting => rfl
  · intro e he
    rcases List.mem_append.mp he with hold | hnew
    · apply h.running e hold
    · rw [List.mem_singleton.mp hnew]
      apply hc
  · intro c'
    by_cases hcc : c' = c
    · subst hcc
      simp [Book.dispatch, Book.discard, h.inflight]
    · simp [Book.dispatch, Book.discard, Function.update_of_ne hcc, h.inflight, Ne.symm hcc]
  · apply h.evicting

/-- The first key of a ring may be passed over. -/
theorem passOver (h : b.Good CLASSES l) (now : Duration) {page : Page P S} {ring : List K}
    (hr : b.ready c = k :: ring) (hpage : b.page k = some page) :
  (b.passOver c now k page ring).Good CLASSES l
  := by
  apply ((h.liftReady hr).discarded _).place
  intro item hitem
  apply h.classes k page hpage item ((List.dropWhile_sublist _).subset hitem)

omit [DecidableEq K] in
/-- A queue without a candidate does not lead back to the ring. -/
theorem head_of_candidate_none {now : Duration} {queue : List (Item P)}
    (h : candidate c now queue = none) :
  ∀ head ∈ (queue.dropWhile (gone c now)).head?, head.classId ≠ c
  := by
  intro head hhead heq
  rw [candidate, Option.filter_eq_none_iff] at h
  apply h head hhead
  simpa using heq

/-- A key that is passed over leaves the ring. -/
theorem passOver_ready (now : Duration) {page : Page P S} {ring : List K}
    (hcand : candidate c now page.queue = none) :
  (b.passOver c now k page ring).ready c = ring
  := by
  have hne := head_of_candidate_none hcand
  rw [Book.passOver, Book.place]
  cases hd : page.queue.dropWhile (gone c now) with
  | nil => simp [Book.write, Book.discard]
  | cons head rest =>
    rw [hd] at hne
    have hcc := hne head (by simp)
    simp [Book.join, Book.write, Book.discard, Function.update_of_ne (Ne.symm hcc)]

/-- Visiting a ring adds the debt of the dispatch it makes. -/
theorem visit {now : Duration} (hc : c.toNat < CLASSES) {ring : List K} (h : b.Good CLASSES l)
    (hr : b.ready c = ring) :
  (b.visit c now ring).book.Good CLASSES
    { l with running := l.running ++
        ((b.visit c now ring).dispatched.map fun d => (d.1, c)).toList }
  := by
  induction ring generalizing b with
  | nil =>
    simp only [Book.visit, Option.map_none, Option.toList_none, List.append_nil]
    apply h
  | cons k ring ih =>
    obtain ⟨page, hpage, -⟩ := h.page_of_ready hr
    cases hcand : candidate c now page.queue with
    | some head =>
      simp only [Book.visit, hpage, hcand, Option.map_some, Option.toList_some]
      apply h.dispatch hc now hr hpage
    | none =>
      simp only [Book.visit, hpage, hcand]
      apply ih (h.passOver now hr hpage) (passOver_ready now hcand)

/-- A call of `next` adds the debt of the dispatch it makes. -/
theorem turn {now : Duration} (cfg : Config CLASSES) (hc : c.toNat < CLASSES)
    (h : b.Good CLASSES l) :
  (b.turn cfg c now).book.Good CLASSES
    { l with running := l.running ++
        ((b.turn cfg c now).dispatched.map fun d => (d.1, c)).toList }
  := by
  simp only [Book.turn, hc, dif_pos]
  split
  · simpa using h
  · apply h.visit hc rfl

/-- A completion settles the debt of its dispatch. -/
theorem complete (h : b.Good CLASSES l) {completion : Completion K S}
    (hk : (completion.key, completion.classId) ∈ l.running) :
  (b.complete completion).Good CLASSES
    { l with running := l.running.erase (completion.key, completion.classId) }
  := by
  obtain ⟨-, hpres⟩ := (h.mem .inFlight completion.key).mp (List.mem_map_of_mem hk)
  rw [presence, Option.map_eq_some_iff] at hpres
  obtain ⟨page, hpage, -⟩ := hpres
  simp only [Book.complete, hpage]
  apply (h.liftRunning hk).place
  apply h.classes _ page hpage

/-- Releasing an idle key adds the flush of the state it held. -/
theorem release (h : b.Good CLASSES l) :
  b.release.1.Good CLASSES { l with flushing := l.flushing ++ b.release.2.map Prod.fst }
  := by
  rw [Book.release]
  cases hidle : b.idle with
  | nil => simpa using h
  | cons k rest =>
    obtain ⟨-, hpres⟩ := (h.mem .idle k).mp (by simp [standing, hidle])
    have hpres' := hpres
    rw [presence, Option.map_eq_some_iff] at hpres'
    obtain ⟨page, hpage, -⟩ := hpres'
    have hlift := h.liftIdle hpres
    rw [hidle, List.erase_cons_head] at hlift
    simp only [hpage]
    cases hres : page.resident with
    | none =>
      simp only [List.map_nil, List.append_nil]
      apply hlift.forget
    | some state =>
      simp only [List.map_cons, List.map_nil]
      have hw := hlift.write (some { page with resident := none, presence := .evicting })
        (by simpa using h.classes k page hpage)
      apply hw.put .evicting
      · simp
      · intro pg hpg
        rw [write_page_self, Option.some.injEq] at hpg
        rw [← hpg]
        simp [PageOk]
      · rfl
      · rfl
      · intro p hp
        cases p with
        | evicting => exact (hp rfl).elim
        | idle => rfl
        | ready _ => rfl
        | inFlight => rfl
      · apply h.running
      · apply h.inflight
      · simp [h.evicting]

/-- A release takes the oldest key from the idle order. -/
theorem release_idle (h : b.Good CLASSES l) {rest : List K} (hidle : b.idle = k :: rest) :
  b.release.1.idle = rest
  := by
  have hsome := h.page_of_idle k (by simp [hidle])
  obtain ⟨page, hpage⟩ := Option.isSome_iff_exists.mp hsome
  simp only [Book.release, hidle, hpage]
  cases page.resident <;> rfl

/-- Releasing idle keys adds the flushes of the states they held. -/
theorem evict {m : ℕ} (h : b.Good CLASSES l) :
  (Book.evict m b).1.Good CLASSES
    { l with flushing := l.flushing ++ (Book.evict m b).2.map Prod.fst }
  := by
  induction m generalizing b l with
  | zero => simpa [Book.evict] using h
  | succ m ih =>
    have hrest := ih h.release
    simp only [Book.evict, List.map_append]
    rw [← List.append_assoc]
    apply hrest

/-- The end of a flush settles it. -/
theorem finishEvict (h : b.Good CLASSES l) (hk : k ∈ l.flushing) :
  (b.finishEvict k).Good CLASSES { l with flushing := l.flushing.erase k }
  := by
  obtain ⟨-, hpres⟩ := (h.mem .evicting k).mp hk
  rw [presence, Option.map_eq_some_iff] at hpres
  obtain ⟨page, hpage, -⟩ := hpres
  have hlift := h.liftFlushing hk
  simp only [Book.finishEvict, hpage]
  split
  · apply hlift.forget
  · apply hlift.place (h.classes k page hpage)

end Inv

end Grommet.Book
