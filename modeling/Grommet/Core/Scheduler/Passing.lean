import Grommet.Core.Scheduler.Order

/-!
# A pass over the rings

A caller that dispatches visits the classes once, in ascending order.  A key whose expired
items are discarded on the way joins the ring of the item behind them.  If that is a ring that
was already visited, or one without a budget, then the pass leaves the key behind.

`Config.passable` tells from a queue that this does not happen, and `Book.Clear` says that no
key was left behind so far.
-/

namespace Grommet

variable {K P S : Type} {CLASSES : ℕ}

/-- The in-flight budget of a class. -/
def Config.budget (cfg : Config CLASSES) (c : ClassId) : ℕ :=
  if h : c.toNat < CLASSES then cfg.maxInflight ⟨c.toNat, h⟩ else 0

/-- Every item that a pass can reach by discarding expired ones has a class with a budget, and
not a lower class than the item before it. -/
def Config.passable (cfg : Config CLASSES) (now : Duration) : Option ClassId → List (Item P) → Bool
  | _, [] => true
  | last, item :: rest =>
      decide (0 < cfg.budget item.classId) && last.all (· ≤ item.classId) &&
        (!item.isExpired now || cfg.passable now (some item.classId) rest)

/-- No item that a pass can reach by discarding expired ones has a lower class than the item
before it. -/
def Item.ascending (now : Duration) : Option ClassId → List (Item P) → Bool
  | _, [] => true
  | last, item :: rest =>
      last.all (· ≤ item.classId) &&
        (!item.isExpired now || Item.ascending now (some item.classId) rest)

namespace Config

variable {cfg : Config CLASSES} {now : Duration} {last : Option ClassId} {item : Item P}
  {rest queue : List (Item P)} {c : ClassId}

theorem passable_cons :
  cfg.passable now last (item :: rest) = true ↔
    0 < cfg.budget item.classId ∧ (∀ c ∈ last, c ≤ item.classId) ∧
      (item.isExpired now = true → cfg.passable now (some item.classId) rest = true)
  := by
  cases hexpired : item.isExpired now <;> simp [passable, hexpired, Option.all_eq_true, and_assoc]

/-- When every class has a budget, only the order of the classes matters. -/
theorem passable_of_ascending (hbudget : ∀ i, 1 ≤ cfg.maxInflight i)
    (hclasses : ∀ item ∈ queue, item.classId.toNat < CLASSES)
    (h : Item.ascending now last queue = true) :
  cfg.passable now last queue = true
  := by
  induction queue generalizing last with
  | nil => rfl
  | cons item rest ih =>
    have hclass := hclasses item (by simp)
    rw [Item.ascending, Bool.and_eq_true, Option.all_eq_true] at h
    obtain ⟨hlast, hrest⟩ := h
    rw [passable_cons]
    refine ⟨?_, ?_, ?_⟩
    · rw [budget, dif_pos hclass]
      apply hbudget
    · intro c hc
      simpa using hlast c hc
    · intro hexpired
      apply ih fun i hi => hclasses i (by simp [hi])
      simpa [hexpired] using hrest

/-- What a pass can reach is in the order of the classes. -/
theorem ascending_of_passable (h : cfg.passable now last queue = true) :
  Item.ascending now last queue = true
  := by
  induction queue generalizing last with
  | nil => rfl
  | cons item rest ih =>
    obtain ⟨-, hlast, hrest⟩ := passable_cons.mp h
    rw [Item.ascending, Bool.and_eq_true, Option.all_eq_true]
    constructor
    · intro c hc
      simpa using hlast c hc
    · cases hexpired : item.isExpired now with
      | false => rfl
      | true => simpa using ih (hrest hexpired)

/-- What a pass can reach from a queue it can reach whatever was before. -/
theorem passable_none (h : cfg.passable now last queue = true) :
  cfg.passable now none queue = true
  := by
  cases queue with
  | nil => rfl
  | cons item rest =>
    rw [passable_cons] at h ⊢
    exact ⟨h.1, by simp, h.2.2⟩

/-- A queue stays passable when its expired items are discarded. -/
theorem passable_dropWhile (h : cfg.passable now (some c) queue = true) :
  cfg.passable now (some c) (queue.dropWhile (Book.gone c now)) = true
  := by
  induction queue with
  | nil => rfl
  | cons item rest ih =>
    rw [List.dropWhile_cons]
    split
    case isTrue hgone =>
      obtain ⟨hclass, hexpired⟩ := Book.gone_iff.mp hgone
      have hrest := (passable_cons.mp h).2.2 hexpired
      rw [hclass] at hrest
      apply ih hrest
    case isFalse => exact h

/-- A key that is passed over in the ring of its class goes on to a later class. -/
theorem passable_passOver (hpassable : cfg.passable now none queue = true)
    (hhead : queue.head?.map Item.classId = some c) (hcand : Book.candidate c now queue = none) :
  cfg.passable now none (queue.dropWhile (Book.gone c now)) = true ∧
    ∀ head ∈ (queue.dropWhile (Book.gone c now)).head?, c.toNat < head.classId.toNat
  := by
  cases queue with
  | nil => simp at hhead
  | cons item rest =>
    simp only [List.head?_cons, Option.map_some, Option.some.injEq] at hhead
    subst hhead
    have hexpired : item.isExpired now = true := by
      apply Book.expired_of_candidate_none hcand
      simp
    have hgone : Book.gone item.classId now item = true := Book.gone_iff.mpr ⟨rfl, hexpired⟩
    have hother := Book.Inv.head_of_candidate_none hcand
    rw [List.dropWhile_cons, if_pos hgone] at hother ⊢
    have hrest := passable_dropWhile ((passable_cons.mp hpassable).2.2 hexpired)
    refine ⟨passable_none hrest, ?_⟩
    intro head hmem
    rw [List.head?_eq_some_iff.mp hmem |>.choose_spec, passable_cons] at hrest
    have hle : item.classId.toNat ≤ head.classId.toNat := hrest.2.1 item.classId rfl
    have hne : item.classId.toNat ≠ head.classId.toNat := by
      intro heq
      apply hother head hmem (UInt8.toNat_inj.mp heq.symm)
    omega

end Config

namespace Book

variable [DecidableEq K] {cfg : Config CLASSES} {now : Duration} {b : Book K P S} {l : Ledger K}
  {c : ClassId} {k : K} {n : ℕ}

/-- No ready key was left behind by a pass that has come to class `n`, and none will be. -/
def Clear (cfg : Config CLASSES) (now : Duration) (n : ℕ) (b : Book K P S) : Prop :=
  ∀ k c, b.presence k = some (.ready c) → n ≤ c.toNat ∧ cfg.passable now none (b.queue k) = true

theorem passOver_presence_self {page : Page P S} {ring : List K} :
  (b.passOver c now k page ring).presence k =
    some (((page.queue.dropWhile (gone c now)).head?.map fun head =>
      Presence.ready head.classId).getD .idle)
  := by
  rw [passOver, place]
  cases (page.queue.dropWhile (gone c now)).head? with
  | none => simp [presence, write]
  | some head => simp [presence, write, join]

theorem passOver_presence_of_ne {page : Page P S} {ring : List K} {j : K} (h : j ≠ k) :
  (b.passOver c now k page ring).presence j = b.presence j
  := by
  rw [passOver, place]
  cases (page.queue.dropWhile (gone c now)).head? with
  | none => simp [presence, write, discard, Function.update_of_ne h]
  | some head => simp [presence, write, join, discard, Function.update_of_ne h]

/-- A key that is passed over is not left behind. -/
theorem Clear.passOver (h : b.Clear cfg now c.toNat) (hg : b.Good CLASSES l) {ring : List K}
    {page : Page P S} (hr : b.ready c = k :: ring) (hpage : b.page k = some page)
    (hcand : candidate c now page.queue = none) :
  (b.passOver c now k page ring).Clear cfg now c.toNat
  := by
  obtain ⟨-, hready⟩ := (hg.mem (.ready c) k).mp (by simp [standing, hr])
  have hhead : page.queue.head?.map Item.classId = some c := by
    have hok := hg.page k page id hpage
    rw [presence, hpage, Option.map_some, Option.some.injEq] at hready
    simpa only [PageOk, hready] using hok
  have hpassable : cfg.passable now none page.queue = true := by
    have hqueue := (h k c hready).2
    rw [queue, hpage] at hqueue
    apply hqueue
  obtain ⟨hrest, hlater⟩ := Config.passable_passOver hpassable hhead hcand
  intro j c' hj
  have hload := congrArg Prod.snd (congrFun (load_passOver b c now k page ring) j)
  by_cases hjk : j = k
  · subst hjk
    rw [Function.update_self] at hload
    have hqueue : (b.passOver c now j page ring).queue j =
        page.queue.dropWhile (gone c now) := hload
    rw [hqueue]
    refine ⟨?_, hrest⟩
    rw [passOver_presence_self] at hj
    cases hd : (page.queue.dropWhile (gone c now)).head? with
    | none => simp [hd] at hj
    | some head =>
      have hlt := hlater head hd
      rw [hd] at hj
      simp only [Option.map_some, Option.getD_some, Option.some.injEq, Presence.ready.injEq] at hj
      rw [← hj]
      omega
  · rw [Function.update_of_ne hjk] at hload
    have hqueue : (b.passOver c now k page ring).queue j = b.queue j := hload
    rw [hqueue]
    rw [passOver_presence_of_ne hjk] at hj
    apply h j c' hj

/-- A visit that dispatches nothing leaves no key behind. -/
theorem Clear.visit {ring : List K} (h : b.Clear cfg now c.toNat) (hg : b.Good CLASSES l)
    (hr : b.ready c = ring) (hnone : (b.visit c now ring).dispatched = none) :
  (b.visit c now ring).book.Clear cfg now (c.toNat + 1)
  := by
  induction ring generalizing b with
  | nil =>
    intro k c' hk
    obtain ⟨hle, hpassable⟩ := h k c' hk
    refine ⟨?_, hpassable⟩
    have hne : c.toNat ≠ c'.toNat := by
      intro heq
      have hmem := (hg.mem (.ready c') k).mpr ⟨id, hk⟩
      rw [standing, ← UInt8.toNat_inj.mp heq, hr] at hmem
      cases hmem
    omega
  | cons k ring ih =>
    obtain ⟨page, hpage, -⟩ := hg.page_of_ready hr
    cases hcand : candidate c now page.queue with
    | some head =>
      rw [visit_dispatch ring hpage hcand] at hnone
      cases hnone
    | none =>
      rw [visit_passOver ring hpage hcand] at hnone ⊢
      apply ih (h.passOver hg hr hpage hcand) (hg.passOver now hr hpage)
        (Inv.passOver_ready now hcand) hnone

omit [DecidableEq K] in
/-- No ready key stands in the ring of a class without a budget. -/
theorem Clear.budget (h : b.Clear cfg now n) (hg : b.Good CLASSES l)
    (hk : b.presence k = some (.ready c)) :
  0 < cfg.budget c
  := by
  have hpassable := (h k c hk).2
  obtain ⟨page, hpage, hpresence⟩ := Option.map_eq_some_iff.mp hk
  have hok := hg.page k page id hpage
  simp only [PageOk, hpresence] at hok
  obtain ⟨item, hitem, rfl⟩ := Option.map_eq_some_iff.mp hok
  rw [queue, hpage, Option.map_some, Option.getD_some] at hpassable
  obtain ⟨rest, hqueue⟩ := List.head?_eq_some_iff.mp hitem
  rw [hqueue, Config.passable_cons] at hpassable
  apply hpassable.1

/-- A call of `next` with nothing in flight that dispatches nothing leaves no key behind. -/
theorem Clear.turn_class (h : b.Clear cfg now c.toNat) (hg : b.Good CLASSES l)
    (hrunning : l.running = []) (hc : c.toNat < CLASSES)
    (hnone : (b.turn cfg c now).dispatched = none) :
  (b.turn cfg c now).book.Clear cfg now (c.toNat + 1)
  := by
  rw [Book.turn, dif_pos hc] at hnone ⊢
  by_cases hbudget : cfg.maxInflight ⟨c.toNat, hc⟩ ≤ b.inflight c
  · rw [if_pos hbudget]
    have hzero : cfg.budget c = 0 := by
      rw [hg.inflight, hrunning, List.countP_nil, Nat.le_zero] at hbudget
      rw [Config.budget, dif_pos hc]
      apply hbudget
    intro k c' hk
    obtain ⟨hle, hpassable⟩ := h k c' hk
    refine ⟨?_, hpassable⟩
    have hne : c.toNat ≠ c'.toNat := by
      intro heq
      have hpos := h.budget hg hk
      rw [← UInt8.toNat_inj.mp heq, hzero] at hpos
      cases hpos
    omega
  · rw [if_neg hbudget] at hnone ⊢
    apply Clear.visit h hg rfl hnone

/-- A call of `next` for a class whose ring is empty does nothing. -/
theorem turn_of_ring_nil (h : b.ready c = []) :
  b.turn cfg c now = ⟨b, [], none⟩
  := by
  rw [Book.turn]
  split
  · split
    · rfl
    · rw [h]
      rfl
  · rfl

/-- A call of `next` for the class at an index.  Indices from 256 on name classes that were
visited before. -/
theorem Clear.turn (h : b.Clear cfg now n) (hg : b.Good CLASSES l) (hrunning : l.running = [])
    (hn : n < CLASSES) (hnone : (b.turn cfg (UInt8.ofNat n) now).dispatched = none) :
  (b.turn cfg (UInt8.ofNat n) now).book.Clear cfg now (n + 1)
  := by
  by_cases hsmall : n < 256
  · have hc : (UInt8.ofNat n).toNat = n := by
      rw [UInt8.toNat_ofNat']
      apply Nat.mod_eq_of_lt hsmall
    generalize UInt8.ofNat n = c at *
    subst hc
    apply h.turn_class hg hrunning hn hnone
  · have hnoready : ∀ k c', b.presence k ≠ some (.ready c') := by
      intro k c' hk
      have hlt := c'.toNat_lt
      have hle := (h k c' hk).1
      omega
    have hring : b.ready (UInt8.ofNat n) = [] := by
      rw [List.eq_nil_iff_forall_not_mem]
      intro k hk
      apply hnoready k (UInt8.ofNat n) ((hg.mem (.ready _) k).mp hk).2
    rw [turn_of_ring_nil hring]
    intro k c' hk
    apply (hnoready k c' hk).elim

end Book

end Grommet
