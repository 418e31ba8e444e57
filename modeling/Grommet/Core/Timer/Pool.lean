import Grommet.Core.Timer.Slab

/-!
# The free list of the wheel

A timer is stored in the first free entry, which gets a new generation and is loose until
it is filed.  When a loose entry gives up its timer it becomes the first free entry, unless
its generations are used up: then it is retired.
-/

open Checked

namespace Grommet.Timer

variable {T : Type} {w : Wheel T} {c : Core T} {i : ℕ}

/-- A free entry takes a timer. -/
def Core.issued (c : Core T) (deadline : ℕ) (token : T) : Core T :=
  { c with deadline := deadline, generation := c.generation + 1, token := some token }

/-- An entry loses its timer. -/
def Core.released (c : Core T) : Core T :=
  { c with
    token := none
    slot := 0
    level := if c.generation = U64_MAX then RETIRED_LEVEL else FREE_LEVEL }

namespace Links

variable {w' : Wheel T} {lists : ℕ × ℕ → List ℕ} {loose free : List ℕ} {d : ℕ} {t : T}

/-- The lists of the slots do not meet the links of an entry that none of them holds. -/
theorem buckets_update {next prev : Option ℕ} (h : Links w lists loose free)
    (hnot : ∀ q, i ∉ lists q) (hnext : w'.next = Function.update w.next i next)
    (hprev : w'.prev = Function.update w.prev i prev) (hheads : w'.heads = w.heads) :
  Buckets w'.next w'.prev (fun p => ofSentinel NIL (w'.heads p)) lists
  := by
  have hne : ∀ q, ∀ x ∈ lists q, x ≠ i := by
    rintro q x hx rfl
    apply hnot q hx
  rw [hheads]
  apply h.buckets.congr
  · intro q x hx
    rw [hnext, Function.update_of_ne (hne q x hx)]
  · intro q x hx
    rw [hprev, Function.update_of_ne (hne q x hx)]

/-- The first free entry becomes loose. -/
theorem issue (h : Links w lists [] (i :: free)) (hc : w.cores[i]? = some c)
    (hcores : w'.cores = w.cores.set i (c.issued d t))
    (hnext : w'.next = Function.update w.next i none)
    (hprev : w'.prev = Function.update w.prev i none) (hheads : w'.heads = w.heads)
    (hocc : ∀ q, w'.Occupied q ↔ w.Occupied q) (hfree : ofSentinel NIL w'.free = w.next i)
    (hlive : w'.live = w.live + 1) (hretired : w'.retired = w.retired) :
  Links w' lists [i] free
  := by
  have hfirst := List.nodup_cons.mp h.free_nodup
  obtain ⟨htoken, hlevel⟩ : c.token = none ∧ c.level = FREE_LEVEL := by
    obtain ⟨c', hc', hidle⟩ := (h.free_iff i).mp (by simp)
    rw [hc, Option.some_inj] at hc'
    rwa [hc']
  have hvalid := h.valid i c hc
  have hnot : ∀ q, i ∉ lists q := by
    intro q hi
    obtain ⟨-, c', hc', hlive, -⟩ := (h.filed q i).mp hi
    rw [hc, Option.some_inj] at hc'
    rw [← hc', htoken] at hlive
    cases hlive
  have hself : w'.cores[i]? = some (c.issued d t) := by
    rw [hcores, List.getElem?_set_self (List.getElem?_eq_some_iff.mp hc).1]
  have hother : ∀ j, j ≠ i → w'.cores[j]? = w.cores[j]? := by
    intro j hj
    rw [hcores, List.getElem?_set_ne (Ne.symm hj)]
  constructor
  · rw [hcores, List.length_set]
    apply h.size
  · exact h.buckets_update hnot hnext hprev hheads
  · intro q
    rw [hocc, h.occupied]
  · exact h.range
  · intro q j
    by_cases hj : j = i
    · subst hj
      simp [hnot]
    · rw [hother j hj, h.filed]
      simp [hj]
  · intro j hj
    rw [List.mem_singleton] at hj
    subst hj
    exact ⟨_, hself, rfl⟩
  · apply List.nodup_singleton
  · apply h.free_chain.2.congr
    intro x hx
    rw [hnext, Function.update_of_ne]
    rintro rfl
    apply hfirst.1 hx
  · rw [hfree, h.free_chain.1, Option.or_none]
  · exact hfirst.2
  · intro j
    by_cases hj : j = i
    · subst hj
      rw [hself]
      simp [hfirst.1, Core.issued]
    · rw [hother j hj, ← h.free_iff]
      simp [hj]
  · intro j cj hcj
    by_cases hj : j = i
    · subst hj
      rw [hself, Option.some_inj] at hcj
      subst hcj
      have hgen := hvalid.generation
      refine ⟨?_, ?_, ?_⟩
      · rcases hvalid.idle htoken with ⟨-, hlast⟩ | ⟨hretired, -⟩
        · simp only [Core.issued]
          omega
        · rw [hlevel] at hretired
          cases hretired
      · intro _
        simp only [Core.issued, hlevel]
        exact ⟨by omega, by decide⟩
      · intro hnone
        cases hnone
    · rw [hother j hj] at hcj
      apply h.valid j cj hcj
  · have hsum := List.sum_map_set Core.load hc (b := c.issued d t)
    have hload : c.load = 0 := by
      rw [Core.load, htoken]
      rfl
    have hload' : (c.issued d t).load = 1 := rfl
    rw [hlive, h.count, hcores]
    omega
  · have hsum := List.sum_map_set Core.waste hc (b := c.issued d t)
    have hwaste : (c.issued d t).waste = c.waste := rfl
    rw [hretired, h.waste, hcores]
    omega

/-- Storing a token takes the first free entry. -/
theorem allocate (h : Links w lists [] free) (hfree : w.free ≠ NIL) (d : ℕ) (t : T) :
  ∃ w' i c rest, free = i :: rest ∧ w.allocate d t = .ok (w', i) ∧ Links w' lists [i] rest ∧
    w.cores[i]? = some c ∧ c.token = none ∧ w'.cores = w.cores.set i (c.issued d t) ∧
    w'.cursor = w.cursor ∧ w'.wheelId = w.wheelId ∧ w'.nextEvent = w.nextEvent ∧
    w'.occupied = w.occupied
  := by
  have hhead := h.free_head
  rw [ofSentinel_of_ne hfree] at hhead
  obtain ⟨rest, rfl⟩ : ∃ rest, free = w.free :: rest := by
    cases free with
    | nil => cases hhead
    | cons x rest =>
      rw [List.head?_cons, Option.some_inj] at hhead
      exact ⟨rest, by rw [hhead]⟩
  obtain ⟨c, hc, htoken, hlevel⟩ := (h.free_iff w.free).mp (by simp)
  obtain ⟨e, he, hentry, hcore, hnext, -⟩ := exists_entry hc
  have hgen : c.generation ≠ U64_MAX := by
    rcases (h.valid _ c hc).idle htoken with ⟨-, hlast⟩ | ⟨hretired, -⟩
    · exact hlast
    · rw [hlevel] at hretired
      cases hretired
  generalize hw₁ : w.setEntry w.free { e with
      deadline := d, generation := e.generation + 1, token := some t,
      next := NIL, prev := NIL } = w₁
  have hcores : w₁.cores = w.cores.set w.free (c.issued d t) := by
    rw [← hw₁, cores_setEntry, ← hcore]
    rfl
  refine ⟨{ w₁ with free := e.next, live := w₁.live + 1 }, w.free, c, rest, rfl, ?_, ?_, hc, htoken,
    hcores, ?_, ?_, ?_, ?_⟩
  · have hidle : e.token.isNone = true := by
      rw [← hcore] at htoken
      rw [Option.isNone_iff_eq_none]
      exact htoken
    have hfreeLevel : (e.level == FREE_LEVEL) = true := by
      rw [← hcore] at hlevel
      rw [beq_iff_eq]
      exact hlevel
    have hleft : (e.generation != U64_MAX) = true := by
      rw [← hcore] at hgen
      rw [bne_iff_ne]
      exact hgen
    rw [Wheel.allocate]
    simp only
    rw [assert_of (by simpa using hfree), ok_bind, hentry, ok_bind, assert_of hidle, ok_bind,
      assert_of hfreeLevel, ok_bind, assert_of hleft, ok_bind, hw₁]
  · refine h.issue (d := d) (t := t) hc hcores ?_ ?_ ?_ ?_ hnext ?_ ?_
    · apply (congrArg Wheel.next hw₁).symm.trans
      rw [next_setEntry he, ofSentinel_self]
    · apply (congrArg Wheel.prev hw₁).symm.trans
      rw [prev_setEntry he, ofSentinel_self]
    · rw [← hw₁]
      rfl
    · intro q
      rw [← hw₁]
      rfl
    · rw [← hw₁]
      rfl
    · rw [← hw₁]
      rfl
  all_goals
    rw [← hw₁]
    rfl

/-- A loose entry is freed or retired. -/
theorem retire {free' : List ℕ} (h : Links w lists (i :: loose) free) (hc : w.cores[i]? = some c)
    (hcores : w'.cores = w.cores.set i c.released)
    (hnext : w'.next = Function.update w.next i
      (if c.generation = U64_MAX then none else ofSentinel NIL w.free))
    (hprev : w'.prev = Function.update w.prev i none) (hheads : w'.heads = w.heads)
    (hocc : ∀ q, w'.Occupied q ↔ w.Occupied q)
    (hfree' : free' = if c.generation = U64_MAX then free else i :: free)
    (hfree : w'.free = if c.generation = U64_MAX then w.free else i)
    (hlive : w'.live = w.live - 1)
    (hretired : w'.retired = w.retired + if c.generation = U64_MAX then 1 else 0) :
  Links w' lists loose free'
  := by
  have hloose := List.nodup_cons.mp h.loose_nodup
  have htoken := h.token_isSome hc
  have hvalid := h.valid i c hc
  have hnot : ∀ q, i ∉ lists q := h.not_filed (by simp)
  have hself : w'.cores[i]? = some c.released := by
    rw [hcores, List.getElem?_set_self (List.getElem?_eq_some_iff.mp hc).1]
  have hother : ∀ j, j ≠ i → w'.cores[j]? = w.cores[j]? := by
    intro j hj
    rw [hcores, List.getElem?_set_ne (Ne.symm hj)]
  have hidle : ∀ x ∈ free, x ≠ i := by
    rintro x hx rfl
    apply h.not_free hc htoken hx
  have hchain : Follows w'.next none free := by
    apply h.free_chain.congr
    intro x hx
    rw [hnext, Function.update_of_ne (hidle x hx)]
  constructor
  · rw [hcores, List.length_set]
    apply h.size
  · exact h.buckets_update hnot hnext hprev hheads
  · intro q
    rw [hocc, h.occupied]
  · exact h.range
  · intro q j
    by_cases hj : j = i
    · subst hj
      rw [hself]
      simp [hnot, Core.released]
    · rw [hother j hj, h.filed]
      simp [hj]
  · intro j hj
    rw [hother j (by rintro rfl; exact hloose.1 hj)]
    apply h.loose_live j (by simp [hj])
  · exact hloose.2
  · rw [hfree']
    split
    · exact hchain
    · rename_i hgen
      refine ⟨?_, hchain⟩
      rw [hnext, Function.update_self, if_neg hgen, h.free_head, Option.or_none]
  · rw [hfree', hfree]
    split
    · exact h.free_head
    · rw [ofSentinel_of_ne (h.ne_nil hc), List.head?_cons]
  · rw [hfree']
    split
    · exact h.free_nodup
    · rw [List.nodup_cons]
      exact ⟨h.not_free hc htoken, h.free_nodup⟩
  · intro j
    rw [hfree']
    by_cases hj : j = i
    · subst hj
      rw [hself]
      have hout := h.not_free hc htoken
      split
      · rename_i hgen
        simp [hout, Core.released, hgen, FREE_LEVEL, RETIRED_LEVEL]
      · rename_i hgen
        simp [Core.released, hgen]
    · rw [hother j hj, ← h.free_iff]
      split <;> simp [hj]
  · intro j cj hcj
    by_cases hj : j = i
    · subst hj
      rw [hself, Option.some_inj] at hcj
      subst hcj
      refine ⟨hvalid.generation, ?_, ?_⟩
      · intro hsome
        cases hsome
      · intro _
        simp only [Core.released]
        split
        · rename_i hgen
          exact Or.inr ⟨rfl, hgen⟩
        · rename_i hgen
          exact Or.inl ⟨rfl, hgen⟩
    · rw [hother j hj] at hcj
      apply h.valid j cj hcj
  · have hsum := List.sum_map_set Core.load hc (b := c.released)
    have hload : c.load = 1 := if_pos htoken
    have hload' : c.released.load = 0 := rfl
    rw [hlive, h.count, hcores]
    omega
  · have hsum := List.sum_map_set Core.waste hc (b := c.released)
    have hwaste : c.waste = 0 := if_neg (hvalid.live htoken).2
    have hwaste' : c.released.waste = if c.generation = U64_MAX then 1 else 0 := by
      rw [Core.waste, Core.released]
      split
      · rfl
      · rfl
    rw [hretired, h.waste, hcores]
    omega

/-- The entry is freed, or retired when its generations are used up. -/
theorem discharge_eq {e : Entry T} (he : w.entries[i]? = some e) (htoken : e.token = some t)
    (hlive : 1 ≤ w.live) (message : String) :
  w.discharge i message = .ok ({ w with
    entries := w.entries.set i { e with
      token := none
      prev := NIL
      slot := 0
      next := if e.generation = U64_MAX then NIL else w.free
      level := if e.generation = U64_MAX then RETIRED_LEVEL else FREE_LEVEL }
    live := w.live - 1
    free := if e.generation = U64_MAX then w.free else i
    retired := w.retired + if e.generation = U64_MAX then 1 else 0 }, t)
  := by
  have hlt := (List.getElem?_eq_some_iff.mp he).1
  have hentry : w.entry i = .ok e := by
    rw [Wheel.entry, he]
  have hreread : (w.setEntry i { e with token := none }).entry i =
      .ok { e with token := none } := by
    rw [Wheel.entry, Wheel.setEntry, List.getElem?_set_self hlt]
  have hsub : sub (w.setEntry i { e with token := none }).live 1 = .ok (w.live - 1) :=
    sub_of_le hlive
  rw [Wheel.discharge, hentry, ok_bind, htoken, expect_some, ok_bind, Wheel.release, hreread,
    ok_bind, hsub]
  by_cases hgen : e.generation = U64_MAX
  · simp [hgen, Wheel.setEntry]
  · simp [hgen, Wheel.setEntry]

/-- Taking the token of a loose entry frees or retires the entry. -/
theorem discharge (h : Links w lists (i :: loose) free) (hc : w.cores[i]? = some c)
    (message : String) :
  ∃ w' t free', w.discharge i message = .ok (w', t) ∧ Links w' lists loose free' ∧
    c.token = some t ∧ w'.cores = w.cores.set i c.released ∧
    (∀ j, j ≠ i → w'.next j = w.next j) ∧ w'.cursor = w.cursor ∧ w'.wheelId = w.wheelId ∧
    w'.nextEvent = w.nextEvent ∧ w'.occupied = w.occupied
  := by
  obtain ⟨t, htoken⟩ := Option.isSome_iff_exists.mp (h.token_isSome hc)
  obtain ⟨e, he, -, hcore, -, -⟩ := exists_entry hc
  have hlive : 1 ≤ w.live := by
    have hsum := List.sum_map_set Core.load hc (b := c.released)
    have hload : c.load = 1 := if_pos (h.token_isSome hc)
    have hload' : c.released.load = 0 := rfl
    rw [h.count]
    omega
  have htoken' : e.token = some t := by
    rw [← hcore] at htoken
    exact htoken
  have hgeneration : e.generation = c.generation := by
    rw [← hcore]
    rfl
  have hreturns := discharge_eq he htoken' hlive message
  rw [hgeneration] at hreturns
  generalize he' : ({ e with
      generation := c.generation, token := none, prev := NIL, slot := 0,
      next := if c.generation = U64_MAX then NIL else w.free,
      level := if c.generation = U64_MAX then RETIRED_LEVEL else FREE_LEVEL } : Entry T) = e'
    at hreturns
  have hcores : (w.setEntry i e').cores = w.cores.set i c.released := by
    rw [cores_setEntry, ← he', Core.released, ← hcore]
    rfl
  have hnext : (w.setEntry i e').next = Function.update w.next i
      (if c.generation = U64_MAX then none else ofSentinel NIL w.free) := by
    rw [next_setEntry he, ← he']
    split
    · rw [ofSentinel_self]
    · rfl
  have hprev : (w.setEntry i e').prev = Function.update w.prev i none := by
    rw [prev_setEntry he, ← he', ofSentinel_self]
  refine ⟨_, t, if c.generation = U64_MAX then free else i :: free, hreturns, ?_, htoken, hcores, ?_,
    rfl, rfl, rfl, rfl⟩
  · exact h.retire hc hcores hnext hprev rfl (fun q => Iff.rfl) rfl rfl rfl rfl
  · intro j hj
    apply (congrFun hnext j).trans
    apply Function.update_of_ne hj

end Links

end Grommet.Timer
