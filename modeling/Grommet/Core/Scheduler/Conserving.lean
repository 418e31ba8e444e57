import Grommet.Core.Scheduler.Invariants
import Grommet.Core.Scheduler.Passing

/-!
# A call of `next` misses nothing

A call of `next` for a class below its budget visits the keys of the ring in order.  It passes
over those whose items of the class at the head of the queue have all expired, and dispatches
the first item of the class that has not expired, of the first key that has one.  The keys that
it passes over go to the back of the ring of their next item, or go idle.

What other classes have in flight, their budgets and their rings do not matter.
-/

namespace Grommet

variable {K P S : Type} {CLASSES : ℕ}

/-- All items of the class at the head of the queue have expired. -/
def Barren (c : ClassId) (now : Duration) (queue : List (Item P)) : Prop :=
  ∀ item ∈ queue.takeWhile (·.classId = c), item.isExpired now = true

/-- What is left of a queue without the expired items of the class at its head. -/
def remaining (c : ClassId) (now : Duration) (queue : List (Item P)) : List (Item P) :=
  queue.dropWhile (Book.gone c now)

/-- Where a key with this queue stands. -/
def home (queue : List (Item P)) : Presence :=
  (queue.head?.map fun head => Presence.ready head.classId).getD .idle

namespace Book

/-- The first item of the class that has not expired, in front of the items of other classes. -/
theorem candidate_eq (c : ClassId) (now : Duration) (queue : List (Item P)) :
  candidate c now queue = (queue.takeWhile (·.classId = c)).find? (!·.isExpired now)
  := by
  induction queue with
  | nil => rfl
  | cons head queue ih =>
    by_cases hc : head.classId = c
    · cases hexpired : head.isExpired now with
      | true =>
        have hgone : gone c now head = true := gone_iff.mpr ⟨hc, hexpired⟩
        have hskip : candidate c now (head :: queue) = candidate c now queue := by
          rw [candidate, List.dropWhile_cons, if_pos hgone, candidate]
        rw [hskip, ih]
        simp [hc, hexpired]
      | false => simp [candidate, gone, hc, hexpired]
    · simp [candidate, gone, hc]

theorem candidate_eq_none_iff {c : ClassId} {now : Duration} {queue : List (Item P)} :
  candidate c now queue = none ↔ Barren c now queue
  := by
  rw [candidate_eq, List.find?_eq_none, Barren]
  simp

variable [DecidableEq K] {b : Book K P S} {l : Ledger K} {c : ClassId} {k : K} {now : Duration}

/-- What a visit of a ring makes of the keys that it passes over, which are `skipped`. -/
structure Visit (c : ClassId) (now : Duration) (b : Book K P S) (pass : Pass K P S)
    (skipped rest : List K) : Prop where
  barren : ∀ k ∈ skipped, Barren c now (b.queue k)
  outcome : pass.dispatched = none ∧ rest = [] ∨
    ∃ k after item, rest = k :: after ∧ candidate c now (b.queue k) = some item ∧
      pass.dispatched = some (k, b.resident k, item)
  queue : ∀ k ∈ skipped, pass.book.queue k = remaining c now (b.queue k)
  presence : ∀ k ∈ skipped, pass.book.presence k = some (home (remaining c now (b.queue k)))
  frame : ∀ k, k ∉ skipped ++ rest →
    pass.book.queue k = b.queue k ∧ pass.book.presence k = b.presence k
  ready : ∀ c', pass.book.ready c' = (if c' = c then rest.tail else b.ready c') ++
    skipped.filter fun k => home (remaining c now (b.queue k)) = .ready c'
  idle : pass.book.idle = b.idle ++
    skipped.filter fun k => home (remaining c now (b.queue k)) = .idle

theorem passOver_queue_self {page : Page P S} {ring : List K} :
  (b.passOver c now k page ring).queue k = remaining c now page.queue
  := by
  have hload := congrArg Prod.snd (congrFun (load_passOver b c now k page ring) k)
  rw [Function.update_self] at hload
  apply hload

theorem passOver_queue_of_ne {page : Page P S} {ring : List K} {j : K} (h : j ≠ k) :
  (b.passOver c now k page ring).queue j = b.queue j
  := by
  have hload := congrArg Prod.snd (congrFun (load_passOver b c now k page ring) j)
  rw [Function.update_of_ne h] at hload
  apply hload

theorem passOver_resident_of_ne {page : Page P S} {ring : List K} {j : K} (h : j ≠ k) :
  (b.passOver c now k page ring).resident j = b.resident j
  := by
  have hload := congrArg Prod.fst (congrFun (load_passOver b c now k page ring) j)
  rw [Function.update_of_ne h] at hload
  apply hload

/-- A key that is passed over joins the ring of its next item. -/
theorem passOver_rings {page : Page P S} {ring : List K} (c' : ClassId) :
  (b.passOver c now k page ring).ready c' = (if c' = c then ring else b.ready c') ++
    [k].filter fun _ => home (remaining c now page.queue) = .ready c'
  := by
  rw [passOver, place, home, remaining]
  have hring : Function.update b.ready c ring c' = if c' = c then ring else b.ready c' :=
    Function.update_apply ..
  cases hd : (page.queue.dropWhile (gone c now)).head? with
  | none => simp [write, discard, hring]
  | some head =>
    by_cases hhead : c' = head.classId
    · subst hhead
      simp [write, join, discard, hring]
    · simp [write, join, discard, hring, Function.update_of_ne hhead, Ne.symm hhead]

/-- A key that is passed over and has no item left goes idle. -/
theorem passOver_idle {page : Page P S} {ring : List K} :
  (b.passOver c now k page ring).idle =
    b.idle ++ [k].filter fun _ => home (remaining c now page.queue) = .idle
  := by
  rw [passOver, place, home, remaining]
  cases hd : (page.queue.dropWhile (gone c now)).head? with
  | none => simp [discard]
  | some head => simp [write, join, discard]

/-- A visit passes over keys until it can dispatch one. -/
theorem visit_spec {ring : List K} (hg : b.Good CLASSES l) (hr : b.ready c = ring) :
  ∃ skipped rest, ring = skipped ++ rest ∧ Visit c now b (b.visit c now ring) skipped rest
  := by
  induction ring generalizing b with
  | nil =>
    refine ⟨[], [], rfl, ?_⟩
    constructor
    · simp
    · left
      exact ⟨rfl, rfl⟩
    · simp
    · simp
    · intro k _
      exact ⟨rfl, rfl⟩
    · intro c'
      by_cases hc : c' = c
      · subst hc
        simp [visit, hr]
      · simp [visit, hc]
    · simp [visit]
  | cons k ring ih =>
    obtain ⟨page, hpage, -⟩ := hg.page_of_ready hr
    have hqueue : b.queue k = page.queue := by
      rw [queue, hpage]
      rfl
    have hresident : b.resident k = page.resident := by
      rw [resident, hpage]
      rfl
    have hnodup : (k :: ring).Nodup := by
      rw [← hr]
      apply hg.nodup (.ready c)
    rw [List.nodup_cons] at hnodup
    cases hcand : candidate c now page.queue with
    | some item =>
      rw [visit_dispatch ring hpage hcand]
      refine ⟨[], k :: ring, rfl, ?_⟩
      constructor
      · simp
      · right
        refine ⟨k, ring, item, rfl, ?_, ?_⟩
        · rw [hqueue, hcand]
        · rw [hresident]
      · simp
      · simp
      · intro j hj
        have hne : j ≠ k := by
          rintro rfl
          simp at hj
        have hload := congrArg Prod.snd (congrFun (load_dispatch b c now k page ring) j)
        rw [Function.update_of_ne hne] at hload
        refine ⟨hload, ?_⟩
        simp [dispatch, discard, Book.presence, write, Function.update_of_ne hne]
      · intro c'
        by_cases hc : c' = c
        · subst hc
          simp [dispatch, discard, write]
        · simp [dispatch, discard, write, hc]
      · simp [dispatch, discard, write]
    | none =>
      rw [visit_passOver ring hpage hcand]
      obtain ⟨skipped, rest, rfl, h⟩ :=
        ih (hg.passOver now hr hpage) (Inv.passOver_ready now hcand)
      have hne : ∀ j ∈ skipped ++ rest, j ≠ k := by
        rintro j hj rfl
        apply hnodup.1 hj
      have hsame : ∀ j ∈ skipped ++ rest,
          (b.passOver c now k page (skipped ++ rest)).queue j = b.queue j := by
        intro j hj
        apply passOver_queue_of_ne (hne j hj)
      have hleft : ∀ j ∈ skipped,
          (b.passOver c now k page (skipped ++ rest)).queue j = b.queue j := by
        intro j hj
        apply hsame j (List.mem_append_left _ hj)
      obtain ⟨hkqueue, hkpresence⟩ := h.frame k hnodup.1
      refine ⟨k :: skipped, rest, rfl, ?_⟩
      constructor
      · rintro j (_ | ⟨_, hj⟩)
        · rw [hqueue]
          apply candidate_eq_none_iff.mp hcand
        · rw [← hleft j hj]
          apply h.barren j hj
      · rcases h.outcome with hnone | ⟨j, after, item, rfl, hitem, hdispatched⟩
        · left
          apply hnone
        · right
          have hj : j ∈ skipped ++ j :: after := by simp
          refine ⟨j, after, item, rfl, ?_, ?_⟩
          · rw [← hsame j hj, hitem]
          · simp only [hdispatched, passOver_resident_of_ne (hne j hj)]
      · rintro j (_ | ⟨_, hj⟩)
        · simp only [hkqueue, passOver_queue_self, hqueue]
        · rw [← hleft j hj]
          apply h.queue j hj
      · rintro j (_ | ⟨_, hj⟩)
        · simp only [hkpresence, passOver_presence_self, hqueue]
          rfl
        · rw [← hleft j hj]
          apply h.presence j hj
      · intro j hj
        rw [List.cons_append, List.mem_cons, not_or] at hj
        obtain ⟨hqueue', hpresence'⟩ := h.frame j hj.2
        simp only [hqueue', hpresence']
        exact ⟨passOver_queue_of_ne hj.1, passOver_presence_of_ne hj.1⟩
      · intro c'
        have hfilter : (skipped.filter fun j => home (remaining c now
            ((b.passOver c now k page (skipped ++ rest)).queue j)) = .ready c') =
            skipped.filter fun j => home (remaining c now (b.queue j)) = .ready c' := by
          apply List.filter_congr
          intro j hj
          rw [hleft j hj]
        simp only [h.ready c', hfilter, passOver_rings]
        by_cases hc : c' = c
        · subst hc
          have hother : home (remaining c' now (b.queue k)) ≠ .ready c' := by
            rw [hqueue, home, remaining]
            have hhead := Inv.head_of_candidate_none hcand
            cases hd : (page.queue.dropWhile (gone c' now)).head? with
            | none => simp
            | some head => simpa using hhead head hd
          simp [hother]
        · simp [hc, hqueue, List.filter_cons]
          split <;> simp
      · have hfilter : (skipped.filter fun j => home (remaining c now
            ((b.passOver c now k page (skipped ++ rest)).queue j)) = .idle) =
            skipped.filter fun j => home (remaining c now (b.queue j)) = .idle := by
          apply List.filter_congr
          intro j hj
          rw [hleft j hj]
        simp only [h.idle, hfilter, passOver_idle, hqueue, List.filter_cons, List.filter_nil]
        split <;> simp

end Book

namespace Account

variable [DecidableEq K] {cfg : Config CLASSES} {x y : Account K P S CLASSES} {e : Event K P S}

/-- No class has more in flight than its budget. -/
def Frugal (cfg : Config CLASSES) (x : Account K P S CLASSES) : Prop :=
  ∀ (c : ClassId) (hc : c.toNat < CLASSES), x.book.inflight c ≤ cfg.maxInflight ⟨c.toNat, hc⟩

/-- A turn dispatches an item only when the class is below its budget. -/
theorem below_of_dispatched {b : Book K P S} {c : ClassId} {now : Duration}
    (hc : c.toNat < CLASSES) {d : K × Option S × Item P}
    (hd : (b.turn cfg c now).dispatched = some d) :
  b.inflight c < cfg.maxInflight ⟨c.toNat, hc⟩
  := by
  rw [Book.turn, dif_pos hc] at hd
  split at hd
  · cases hd
  · omega

/-- Every event keeps every class within its budget. -/
theorem Frugal.step (h : Frugal cfg x) (hstep : x.Step cfg e y) :
  Frugal cfg y
  := by
  obtain ⟨hmoves, hledger⟩ := hstep
  intro c hc
  have hx := h c hc
  rw [x.good.inflight] at hx
  rw [y.good.inflight, hledger]
  cases e with
  | next c' now discarded dispatch =>
    obtain ⟨hc', -, -, rfl⟩ := hmoves
    rw [Ledger.record, toDispatch_running]
    simp only [List.countP_append]
    cases hd : (x.book.turn cfg c' now).dispatched with
    | none => simpa using hx
    | some d =>
      by_cases hcc : c' = c
      · subst hcc
        have hbelow := below_of_dispatched hc' hd
        rw [x.good.inflight] at hbelow
        simp
        omega
      · simpa [hcc] using hx
  | complete completion now =>
    apply le_trans _ hx
    apply List.Sublist.countP_le
    apply List.erase_sublist
  | admitItem item => apply hx
  | popExpired item => apply hx
  | evict now pushed => apply hx
  | evictAll pushed => apply hx
  | finishEvict key now => apply hx

/-- No trail of accounts exceeds a budget. -/
theorem frugal_of_trail {t : List (Event K P S)} (h : Trail (Step cfg) empty t x) :
  Frugal cfg x
  := by
  apply h.invariant (fun _ x => Frugal cfg x)
  · intro c _
    apply Nat.zero_le
  · intro _ x e y _ hx hstep
    apply hx.step hstep

end Account

namespace Scheduler

variable [DecidableEq K]

/-- What a call of `next` returns and makes of the scheduler, when it passes over `skipped` and
leaves `after` in the ring behind the key that it dispatches. -/
structure Serves (c : ClassId) (i : Fin CLASSES) (now : Duration) (s s' : Scheduler K P S CLASSES)
    (dispatch : Option (Dispatch K P S)) (skipped after : List K) : Prop where
  /-- The keys that are passed over stand in front of the one that is dispatched. -/
  ring : s.ready i = skipped ++ (dispatch.map Dispatch.key).toList ++ after
  barren : ∀ k ∈ skipped, Barren c now (s.contents k)
  /-- There is no dispatch exactly when there is no room or nothing to dispatch. -/
  none_iff : dispatch = none ↔
    s.cfg.maxInflight i ≤ s.inflight i ∨ ∀ k ∈ s.ready i, Barren c now (s.contents k)
  /-- Without room no key is passed over, and with room the whole ring is when nothing is
  dispatched. -/
  exhausted : dispatch = none →
    if s.cfg.maxInflight i ≤ s.inflight i then skipped = [] else after = []
  /-- A dispatch is of the first item of the class that has not expired. -/
  dispatched : ∀ d ∈ dispatch, ∃ item,
    ((s.contents d.key).takeWhile (·.classId = c)).find? (!·.isExpired now) = some item ∧
    d = ⟨d.key, c, s.resident d.key, item.payload⟩
  contents : ∀ k ∈ skipped, s'.contents k = remaining c now (s.contents k)
  presence : ∀ k ∈ skipped, s'.presence k = some (home (remaining c now (s.contents k)))
  /-- A key that is passed over goes to the back of the ring of its next item. -/
  ready : ∀ (c' : ClassId) (hc' : c'.toNat < CLASSES), s'.ready ⟨c'.toNat, hc'⟩ =
    (if i = ⟨c'.toNat, hc'⟩ then after else s.ready ⟨c'.toNat, hc'⟩) ++
      skipped.filter fun k => home (remaining c now (s.contents k)) = .ready c'
  /-- A key that is passed over and has no item left goes idle. -/
  idle : s'.idleList = s.idleList ++
    skipped.filter fun k => home (remaining c now (s.contents k)) = .idle

/-- A visit of a ring, seen from the scheduler that holds the book. -/
theorem Represents.serves {cfg : Config CLASSES} {s s' : Scheduler K P S CLASSES}
    {b : Book K P S} {own own' : K → List (ℕ × Item P)} {free free' : List ℕ} {c : ClassId}
    {now : Duration} {pass : Book.Pass K P S} {skipped rest : List K} {hc : c.toNat < CLASSES}
    (h : s.Represents cfg b own free) (h' : s'.Represents cfg pass.book own' free')
    (hring : b.ready c = skipped ++ rest) (hroom : b.inflight c < cfg.maxInflight ⟨_, hc⟩)
    (hvisit : Book.Visit c now b pass skipped rest) :
  s.Serves c ⟨_, hc⟩ now s' (pass.dispatched.map (toDispatch c)) skipped rest.tail
  := by
  have hcontents : s.contents = b.queue := by
    funext k
    apply h.contents
  constructor
  · rw [h.ready c hc, hring]
    rcases hvisit.outcome with ⟨hnone, rfl⟩ | ⟨k, after, item, rfl, -, hsome⟩
    · simp [hnone]
    · simp [hsome, toDispatch]
  · rw [hcontents]
    apply hvisit.barren
  · rw [h.config, h.inflight_class hc, h.ready c hc, hring, hcontents]
    rcases hvisit.outcome with ⟨hnone, rfl⟩ | ⟨k, after, item, rfl, hitem, hsome⟩
    · constructor
      · intro _
        right
        simpa using hvisit.barren
      · intro _
        rw [hnone, Option.map_none]
    · constructor
      · intro hnone
        rw [hsome] at hnone
        cases hnone
      · rintro (hfull | hbarren)
        · omega
        · have hk := hbarren k (by simp)
          rw [← Book.candidate_eq_none_iff, hitem] at hk
          cases hk
  · intro hdispatch
    rw [h.config, h.inflight_class hc, if_neg (Nat.not_le_of_lt hroom)]
    rcases hvisit.outcome with ⟨-, rfl⟩ | ⟨k, after, item, rfl, -, hsome⟩
    · rfl
    · rw [hsome] at hdispatch
      cases hdispatch
  · intro d hd
    rw [hcontents]
    rcases hvisit.outcome with ⟨hnone, -⟩ | ⟨k, after, item, -, hitem, hsome⟩
    · rw [hnone] at hd
      cases hd
    · rw [hsome] at hd
      cases hd
      refine ⟨item, ?_, ?_⟩
      · rw [← Book.candidate_eq]
        apply hitem
      · simp only [toDispatch, h.resident]
  · intro k hk
    rw [h'.contents, hvisit.queue k hk, hcontents]
  · intro k hk
    rw [h'.presence, hvisit.presence k hk, hcontents]
  · intro c' hc'
    rw [h'.ready c' hc', hvisit.ready, h.ready c' hc', hcontents]
    simp only [Fin.mk.injEq, UInt8.toNat_inj, eq_comm]
  · rw [h'.idleList, hvisit.idle, h.idleList, hcontents]

/-- A call for a class at its budget changes nothing. -/
theorem Represents.serves_full {cfg : Config CLASSES} {s s' : Scheduler K P S CLASSES}
    {b : Book K P S} {own own' : K → List (ℕ × Item P)} {free free' : List ℕ} {c : ClassId}
    {now : Duration} {hc : c.toNat < CLASSES} (h : s.Represents cfg b own free)
    (h' : s'.Represents cfg b own' free') (hfull : cfg.maxInflight ⟨_, hc⟩ ≤ b.inflight c) :
  s.Serves c ⟨_, hc⟩ now s' none [] (s.ready ⟨_, hc⟩)
  := by
  constructor
  · rfl
  · simp
  · rw [h.config, h.inflight_class hc]
    simp [hfull]
  · rw [h.config, h.inflight_class hc, if_pos hfull]
    exact fun _ => rfl
  · simp
  · simp
  · simp
  · intro c' hc'
    rw [h'.ready c' hc', List.filter_nil, List.append_nil]
    split
    · rename_i heq
      rw [heq, h.ready c' hc']
    · rw [h.ready c' hc']
  · rw [h'.idleList, h.idleList]
    simp

/-- In every run, no class has more in flight than its budget, and a call of `next` for a class
misses nothing. -/
theorem next_conserves_work {cfg : Config CLASSES} {t : List (Event K P S)}
    {s : Scheduler K P S CLASSES} {l : Ledger K} (hrun : Run cfg t s l) :
  (∀ i, s.inflight i ≤ cfg.maxInflight i) ∧
  ∀ (c : ClassId) (hc : c.toNat < CLASSES) (now : Duration), ∃ s' dispatch skipped after,
    s.next c now = .ok (s', dispatch) ∧ s.Serves c ⟨_, hc⟩ now s' dispatch skipped after
  := by
  obtain ⟨a, htrail, ⟨own, free, hholds⟩, rfl⟩ := hrun.account
  have hr : s.Represents cfg a.book own free := hholds
  constructor
  · intro i
    rw [hr.inflight, Book.inflightAt]
    split
    · rename_i hi
      have hclass : (UInt8.ofNat i.val).toNat = i.val := by
        simp [Nat.mod_eq_of_lt hi]
      have hfrugal := Account.frugal_of_trail htrail (UInt8.ofNat i.val) (by rw [hclass]; exact i.isLt)
      simpa only [hclass] using hfrugal
    · apply Nat.zero_le
  · intro c hc now
    obtain ⟨s', own', free', hnext, hr'⟩ := hr.next a.good hc now
    by_cases hfull : cfg.maxInflight ⟨_, hc⟩ ≤ a.book.inflight c
    · have hturn : a.book.turn cfg c now = ⟨a.book, [], none⟩ := by
        rw [Book.turn, dif_pos hc, if_pos hfull]
      rw [hturn] at hnext hr'
      exact ⟨s', none, [], s.ready ⟨_, hc⟩, hnext, hr.serves_full hr' hfull⟩
    · obtain ⟨skipped, rest, hring, hvisit⟩ :
          ∃ skipped rest, a.book.ready c = skipped ++ rest ∧
            Book.Visit c now a.book (a.book.visit c now (a.book.ready c)) skipped rest :=
        Book.visit_spec a.good rfl
      have hturn : a.book.turn cfg c now = a.book.visit c now (a.book.ready c) := by
        rw [Book.turn, dif_pos hc, if_neg hfull]
      rw [← hturn] at hvisit
      refine ⟨s', _, skipped, rest.tail, hnext, ?_⟩
      apply hr.serves hr' hring (not_le.mp hfull) hvisit

/-- A call passes over a key whose only item has expired, which goes idle, and dispatches the
next key. -/
theorem next_conserves_work_expired :
  ∃ (s : Scheduler ℕ ℕ ℕ 1) (l : Ledger ℕ),
    Run (.new fun _ => 1) [.admitItem ⟨7, 0, some 3, 40⟩, .admitItem ⟨8, 0, none, 41⟩] s l ∧
    s.inflight 0 ≤ 1 ∧ ∃ s' dispatch skipped after, s.next 0 5 = .ok (s', dispatch) ∧
      s.Serves 0 0 5 s' dispatch skipped after
  := by
  have h₀ := Run.start (K := ℕ) (P := ℕ) (S := ℕ) (.new fun _ : Fin 1 => 1)
  have h₁ := h₀.call (.admitItem ⟨7, 0, some 3, 40⟩) (by decide) rfl
  have h₂ := h₁.call (.admitItem ⟨8, 0, none, 41⟩) (by decide) rfl
  obtain ⟨hbudget, hnext⟩ := next_conserves_work h₂
  exact ⟨_, _, h₂, hbudget 0, hnext 0 (by decide) 5⟩

end Scheduler

end Grommet
