import Grommet.Core.Scheduler.Passing

/-!
# A book that is given up

A caller that admits nothing any more, and for which no key is ready or dispatched, hands out
every resident state at once.  What is left are keys that are flushed and have nothing queued,
and each of them is forgotten when its flush ends.
-/

namespace Grommet

variable {K P S : Type} {CLASSES : ℕ}

namespace Book

/-- Every key is being flushed, and nothing is queued. -/
def Spent (b : Book K P S) : Prop :=
  ∀ k p, b.presence k = some p → p = .evicting ∧ b.queue k = []

variable {b : Book K P S} {l : Ledger K} {k : K} {m : ℕ}

/-- Items are queued behind keys that are ready, dispatched or flushed. -/
theorem Inv.queue_nil (hg : b.Good CLASSES l) (hready : ∀ k c, b.presence k ≠ some (.ready c))
    (hrunning : l.running = []) (hflushing : l.flushing = []) (k : K) :
  b.queue k = []
  := by
  rw [queue]
  cases hpage : b.page k with
  | none => rfl
  | some page =>
    have hpresence : b.presence k = some page.presence := by
      rw [presence, hpage]
      rfl
    have hok := hg.page k page id hpage
    cases hp : page.presence with
    | idle =>
      simp only [PageOk, hp] at hok
      exact hok
    | ready c =>
      rw [hp] at hpresence
      exact (hready k c hpresence).elim
    | inFlight =>
      rw [hp] at hpresence
      have hmem := (hg.mem .inFlight k).mpr ⟨id, hpresence⟩
      simp [standing, hrunning] at hmem
    | evicting =>
      rw [hp] at hpresence
      have hmem := (hg.mem .evicting k).mpr ⟨id, hpresence⟩
      simp [standing, hflushing] at hmem

variable [DecidableEq K]

/-- An eviction takes the oldest keys from the idle order. -/
theorem evict_idle (hg : b.Good CLASSES l) :
  (b.evict m).1.idle = b.idle.drop m
  := by
  induction m generalizing b l with
  | zero => rfl
  | succ m ih =>
    have hrest : (b.evict (m + 1)).1.idle = b.release.1.idle.drop m := ih hg.release
    rw [hrest]
    cases hidle : b.idle with
    | nil => simp [release, hidle]
    | cons k rest => rw [Inv.release_idle hg hidle, List.drop_succ_cons]

/-- Without idle keys there is nothing to evict. -/
theorem evict_of_idle_nil (h : b.idle = []) :
  b.evict m = (b, [])
  := by
  induction m with
  | zero => rfl
  | succ m ih =>
    have hrelease : b.release = (b, []) := by
      simp only [release, h]
    simp only [evict, hrelease, ih, List.append_nil]

/-- Handing out every resident state gives up a book in which no key is ready, dispatched or
flushed. -/
theorem spent_evict (hg : b.Good CLASSES l) (hready : ∀ k c, b.presence k ≠ some (.ready c))
    (hrunning : l.running = []) (hflushing : l.flushing = []) :
  (b.evict b.idle.length).1.Spent
  := by
  have hg' := hg.evict (m := b.idle.length)
  intro k p hp
  constructor
  · have hmem := (hg'.mem p k).mpr ⟨id, hp⟩
    cases p with
    | idle =>
      rw [standing, evict_idle hg, List.drop_length] at hmem
      cases hmem
    | ready c =>
      rw [standing, (evict_frame _ _).1] at hmem
      exact (hready k c ((hg.mem (.ready c) k).mp hmem).2).elim
    | inFlight =>
      rw [standing, hrunning] at hmem
      cases hmem
    | evicting => rfl
  · have hqueue : (b.evict b.idle.length).1.queue k = b.queue k := (load_evict hg).1 k
    rw [hqueue]
    apply hg.queue_nil hready hrunning hflushing

omit [DecidableEq K] in
/-- Nothing stands anywhere else in a book that is given up. -/
theorem Spent.standing_nil (h : b.Spent) (hg : b.Good CLASSES l) {p : Presence} (hp : p ≠ .evicting) :
  b.standing l p = []
  := by
  rw [List.eq_nil_iff_forall_not_mem]
  intro k hk
  apply hp (h k p ((hg.mem p k).mp hk).2).1

/-- The end of a flush forgets the key. -/
theorem Spent.finishEvict (h : b.Spent) :
  (b.finishEvict k).Spent
  := by
  have hsame : ({ b with evicting := b.evicting - 1 } : Book K P S).Spent := h
  rw [Book.finishEvict]
  cases hpage : b.page k with
  | none => simpa only [hpage] using hsame
  | some page =>
    obtain ⟨-, hqueue⟩ := h k page.presence (by rw [presence, hpage]; rfl)
    rw [queue, hpage] at hqueue
    have hnil : page.queue = [] := hqueue
    simp only [if_pos hnil]
    intro j p hj
    by_cases hjk : j = k
    · subst hjk
      simp at hj
    · rw [write_presence_of_ne hjk] at hj
      obtain ⟨hp, hq⟩ := hsame j p hj
      refine ⟨hp, ?_⟩
      rw [queue, write_page_of_ne hjk]
      apply hq

end Book

variable [DecidableEq K] {cfg : Config CLASSES} {x y : Account K P S CLASSES} {e : Event K P S}

/-- A book that was given up stays so while nothing is admitted. -/
theorem Account.Step.spent (hstep : x.Step cfg e y) (h : x.book.Spent)
    (hclosed : ∀ item, e ≠ .admitItem item) :
  y.book.Spent
  := by
  obtain ⟨hmoves, -⟩ := hstep
  cases e with
  | admitItem item => exact (hclosed item rfl).elim
  | next c now discarded dispatch =>
    obtain ⟨-, hbook, -, -⟩ := hmoves
    have hring : x.book.ready c = [] := h.standing_nil x.good (by simp : Presence.ready c ≠ .evicting)
    rw [hbook, Book.turn_of_ring_nil hring]
    apply h
  | popExpired item =>
    rw [hmoves.1]
    apply h
  | complete completion now =>
    have hrunning : x.ledger.running.map Prod.fst = [] :=
      h.standing_nil x.good (by simp : Presence.inFlight ≠ .evicting)
    have hmem := List.mem_map_of_mem (f := Prod.fst) hmoves.1
    rw [hrunning] at hmem
    cases hmem
  | evict now pushed =>
    obtain ⟨m, hbook, -⟩ := hmoves
    have hidle : x.book.idle = [] := h.standing_nil x.good (by simp : Presence.idle ≠ .evicting)
    rw [hbook, Book.evict_of_idle_nil hidle]
    apply h
  | evictAll pushed =>
    obtain ⟨hbook, -⟩ := hmoves
    have hidle : x.book.idle = [] := h.standing_nil x.good (by simp : Presence.idle ≠ .evicting)
    rw [hbook, Book.evict_of_idle_nil hidle]
    apply h
  | finishEvict key now =>
    rw [hmoves.2]
    apply h.finishEvict

end Grommet
