import Grommet.Testkit.Sweep

/-!
# What a sweep's model owes each key

The model of a key agrees with the book of the scheduler: it has the classes of the items that
are queued behind the key, and it says whether the key is in flight and since when it waits in
a ring.  The dispatches of a class since a key joined its ring and the keys still in front of it
add up to its place when it joined, so the key that is taken out of a ring of at most `keys`
members has waited for less than `keys` dispatches.
-/

open Checked

namespace Grommet.Testkit

variable {keys CLASSES : ℕ}

/-- The book of a sweep. -/
abbrev SweepPages := Book UInt64 UInt64 UInt64

/-- What the model of a key says of a book, when a number of items were dispatched of each
class. -/
structure Owed (keys : ℕ) (counts : Fin CLASSES → ℕ) (b : SweepPages) (running : List UInt64)
    (k : UInt64) (entry : KeyModel) : Prop where
  queued : entry.queued = (b.queue k).map Item.classId
  running : entry.inFlight = true ↔ k ∈ running
  waiting : ∀ c since, entry.readyAt = some (c, since) → k ∈ b.ready c
  since : ∀ c (hc : c.toNat < CLASSES), k ∈ b.ready c → ∃ since, entry.readyAt = some (c, since) ∧
    since ≤ counts ⟨_, hc⟩ ∧ counts ⟨_, hc⟩ + (b.ready c).idxOf k < since + keys

variable {counts counts' : Fin CLASSES → ℕ} {b b' : SweepPages} {l : Ledger UInt64}
  {running running' : List UInt64} {k : UInt64} {entry : KeyModel} {c : ClassId}

/-! ### Counting keys -/

theorem length_le_of_toNat_lt {ring : List UInt64} (hnodup : ring.Nodup)
    (hlt : ∀ j ∈ ring, j.toNat < keys) :
  ring.length ≤ keys
  := by
  have hmap : (ring.map UInt64.toNat).Nodup :=
    hnodup.map fun _ _ h => UInt64.toNat_inj.mp h
  have hsub : ring.map UInt64.toNat ⊆ List.range keys := by
    intro n hn
    obtain ⟨j, hj, rfl⟩ := List.mem_map.mp hn
    exact List.mem_range.mpr (hlt j hj)
  have hle := (List.subperm_of_subset hmap hsub).length_le
  rwa [List.length_map, List.length_range] at hle

theorem length_lt_of_notMem {ring : List UInt64} (hnodup : ring.Nodup)
    (hlt : ∀ j ∈ ring, j.toNat < keys) (hk : k.toNat < keys) (hnot : k ∉ ring) :
  ring.length < keys
  := length_le_of_toNat_lt (List.nodup_cons.mpr ⟨hnot, hnodup⟩) (by simpa using ⟨hk, hlt⟩)

/-! ### Where a key stands -/

theorem presence_of_mem_ready (hg : b.Good CLASSES l) (h : k ∈ b.ready c) :
  b.presence k = some (.ready c)
  := ((hg.mem (.ready c) k).mp h).2

theorem class_of_mem_ready (hg : b.Good CLASSES l) (h : k ∈ b.ready c) :
  c.toNat < CLASSES
  := by
  have hpresence := presence_of_mem_ready hg h
  rw [Book.presence, Option.map_eq_some_iff] at hpresence
  obtain ⟨page, hpage, hpresence⟩ := hpresence
  have hok := hg.page k page id hpage
  rw [Book.PageOk, hpresence] at hok
  obtain ⟨head, hhead, rfl⟩ := Option.map_eq_some_iff.mp hok
  exact hg.classes k page hpage head (List.mem_of_head? hhead)

theorem toNat_lt_of_mem_ready (hg : b.Good CLASSES l) (hw : b.Within fun k => k.toNat < keys) :
  ∀ j ∈ b.ready c, j.toNat < keys
  := by
  intro j hj
  have hpresence := presence_of_mem_ready hg hj
  rw [Book.presence, Option.map_eq_some_iff] at hpresence
  obtain ⟨page, hpage, -⟩ := hpresence
  exact hw j page hpage

/-- Nothing is queued behind a key that stands nowhere or is idle. -/
theorem queue_of_free (hg : b.Good CLASSES l)
    (h : b.presence k = none ∨ b.presence k = some .idle) :
  b.queue k = []
  := by
  cases hpage : b.page k with
  | none =>
    rw [Book.queue, hpage]
    rfl
  | some page =>
    rw [Book.presence, hpage] at h
    rcases h with h | h
    · cases h
    · have hok := hg.page k page id hpage
      rw [Book.PageOk, Option.some_inj.mp h] at hok
      rw [Book.queue_of_page hpage, hok]

/-- A model says that its key stands nowhere or is idle when it is neither in flight nor
waiting. -/
theorem Owed.free_iff (h : Owed keys counts b (l.running.map Prod.fst) k entry)
    (hg : b.Good CLASSES l) (hflushing : l.flushing = []) :
  (!entry.inFlight && entry.readyAt.isNone) = true ↔
    b.presence k = none ∨ b.presence k = some .idle
  := by
  rw [Bool.and_eq_true, Bool.not_eq_true', Option.isNone_iff_eq_none]
  constructor
  · rintro ⟨hinFlight, hreadyAt⟩
    cases hpresence : b.presence k with
    | none => exact Or.inl rfl
    | some p =>
      have hstanding := (hg.mem p k).mpr ⟨id, hpresence⟩
      cases p with
      | idle => exact Or.inr rfl
      | ready c =>
        obtain ⟨since, hsince, -⟩ := h.since c (class_of_mem_ready hg hstanding) hstanding
        rw [hreadyAt] at hsince
        cases hsince
      | inFlight =>
        rw [h.running.mpr hstanding] at hinFlight
        cases hinFlight
      | evicting =>
        rw [Book.standing, hflushing] at hstanding
        cases hstanding
  · intro hfree
    constructor
    · rw [Bool.eq_false_iff]
      intro hinFlight
      have hpresence := ((hg.mem .inFlight k).mp (h.running.mp hinFlight)).2
      rw [hpresence] at hfree
      rcases hfree with hfree | hfree <;> cases hfree
    · cases hreadyAt : entry.readyAt with
      | none => rfl
      | some at_ =>
        have hpresence := presence_of_mem_ready hg (h.waiting at_.1 at_.2 hreadyAt)
        rw [hpresence] at hfree
        rcases hfree with hfree | hfree <;> cases hfree

/-! ### What the calls do to the model of a key -/

/-- A model that is not touched stays true while its key keeps its place, but for the keys in
front of it that are dispatched. -/
theorem Owed.frame (h : Owed keys counts b running k entry) (hqueue : b'.queue k = b.queue k)
    (hrunning : k ∈ running' ↔ k ∈ running) (hmem : ∀ c, k ∈ b'.ready c ↔ k ∈ b.ready c)
    (hplace : ∀ c (hc : c.toNat < CLASSES), k ∈ b.ready c →
      counts ⟨_, hc⟩ ≤ counts' ⟨_, hc⟩ ∧
        counts' ⟨_, hc⟩ + (b'.ready c).idxOf k = counts ⟨_, hc⟩ + (b.ready c).idxOf k) :
  Owed keys counts' b' running' k entry
  := by
  constructor
  · rw [hqueue]
    exact h.queued
  · rw [hrunning]
    exact h.running
  · intro c since hreadyAt
    rw [hmem]
    exact h.waiting c since hreadyAt
  · intro c hc hk
    rw [hmem] at hk
    obtain ⟨since, hreadyAt, hle, hlt⟩ := h.since c hc hk
    obtain ⟨hcounts, heq⟩ := hplace c hc hk
    exact ⟨since, hreadyAt, hle.trans hcounts, heq ▸ hlt⟩

theorem mem_update_concat {α : Type} {ready : ClassId → List α} {j k : α} {c' : ClassId} :
  j ∈ Function.update ready c (ready c ++ [k]) c' ↔ j ∈ ready c' ∨ j = k ∧ c' = c
  := by
  by_cases hc : c' = c
  · subst hc
    simp
  · simp [hc]

theorem idxOf_update_concat {ready : ClassId → List UInt64} {j : UInt64} {c' : ClassId}
    (hj : j ∈ ready c') :
  (Function.update ready c (ready c ++ [k]) c').idxOf j = (ready c').idxOf j
  := by
  by_cases hc : c' = c
  · subst hc
    rw [Function.update_self, List.idxOf_append_of_mem hj]
  · rw [Function.update_of_ne hc]

/-- The model of a key that joins no ring. -/
theorem Owed.beside (h : Owed keys counts b running k entry) {j : UInt64} (hne : k ≠ j)
    (hqueue : b'.queue k = b.queue k) (hrunning : k ∈ running' ↔ k ∈ running)
    (hready : b'.ready = b.ready ∨ b'.ready = Function.update b.ready c (b.ready c ++ [j])) :
  Owed keys counts b' running' k entry
  := by
  apply h.frame hqueue hrunning
  · intro c'
    rcases hready with hready | hready
    · rw [hready]
    · rw [hready, mem_update_concat]
      simp [hne]
  · intro c' hc' hk
    refine ⟨le_rfl, ?_⟩
    rcases hready with hready | hready
    · rw [hready]
    · rw [hready, idxOf_update_concat hk]

/-- The model of a key that joins the ring of a class now. -/
theorem owed_joined (hg : b.Good CLASSES l) (hw : b.Within fun k => k.toNat < keys)
    (hk : k.toNat < keys) (hc : c.toNat < CLASSES) (hnot : ∀ c, k ∉ b.ready c)
    (hready : b'.ready = Function.update b.ready c (b.ready c ++ [k]))
    (hqueued : entry.queued = (b'.queue k).map Item.classId) (hrunning : k ∉ running')
    (hinFlight : entry.inFlight = false) (hreadyAt : entry.readyAt = some (c, counts ⟨_, hc⟩)) :
  Owed keys counts b' running' k entry
  := by
  refine ⟨hqueued, by simp [hinFlight, hrunning], ?_, ?_⟩
  · intro c' since heq
    rw [hreadyAt] at heq
    cases heq
    rw [hready, mem_update_concat]
    exact Or.inr ⟨rfl, rfl⟩
  · intro c' hc' hmem
    rw [hready, mem_update_concat] at hmem
    rcases hmem with hmem | ⟨-, rfl⟩
    · exact (hnot c' hmem).elim
    · have hlt := length_lt_of_notMem (hg.nodup (.ready c')) (toNat_lt_of_mem_ready hg hw) hk (hnot c')
      refine ⟨_, hreadyAt, le_rfl, ?_⟩
      rw [hready, Function.update_self, List.idxOf_append_of_notMem (hnot c'),
        List.idxOf_cons_self, Nat.add_zero]
      exact Nat.add_lt_add_left hlt _

/-- The model of a key that stands in no ring. -/
theorem owed_apart (hnot : ∀ c, k ∉ b.ready c)
    (hqueued : entry.queued = (b.queue k).map Item.classId)
    (hrunning : entry.inFlight = true ↔ k ∈ running) (hreadyAt : entry.readyAt = none) :
  Owed keys counts b running k entry
  := by
  refine ⟨hqueued, hrunning, ?_, ?_⟩
  · intro c since heq
    rw [hreadyAt] at heq
    cases heq
  · intro c _ hmem
    exact (hnot c hmem).elim

end Grommet.Testkit
