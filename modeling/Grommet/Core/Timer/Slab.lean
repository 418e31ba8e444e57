import Grommet.Core.Timer.Event
import Grommet.Library.Buckets
import Grommet.Library.Lists

/-!
# The lists of the wheel

The entries of a wheel are threaded on one list for each slot and on the free list.
`Links w lists loose free` says that the links, heads and occupancy masks describe these
lists, that the entries in `loose` hold a timer but are on none of them, and that the
entries that are neither filed, loose nor free are retired.  There is one lemma for each
operation that moves entries between the lists; apart from the links, it says how the
operation changes the entries.
-/

open Checked

namespace Grommet.Timer

variable {T : Type}

/-- A slab position without its links. -/
structure Core (T : Type) where
  deadline : ℕ
  generation : ℕ
  token : Option T
  level : ℕ
  slot : ℕ

/-- The slot under which a slab position is filed. -/
def Core.position (c : Core T) : ℕ × ℕ := (c.level, c.slot)

/-- One for a live timer. -/
def Core.load (c : Core T) : ℕ := if c.token.isSome then 1 else 0

/-- One for a retired position. -/
def Core.waste (c : Core T) : ℕ := if c.level = RETIRED_LEVEL then 1 else 0

def Entry.core (e : Entry T) : Core T := ⟨e.deadline, e.generation, e.token, e.level, e.slot⟩

namespace Wheel

def cores (w : Wheel T) : List (Core T) := w.entries.map Entry.core

def next (w : Wheel T) (i : ℕ) : Option ℕ := w.entries[i]?.bind fun e => ofSentinel NIL e.next

def prev (w : Wheel T) (i : ℕ) : Option ℕ := w.entries[i]?.bind fun e => ofSentinel NIL e.prev

end Wheel

variable {w : Wheel T} {e e' : Entry T} {c : Core T} {i : ℕ}

theorem cores_getElem? :
  w.cores[i]? = w.entries[i]?.map Entry.core
  := by
  rw [Wheel.cores, List.getElem?_map]

/-- A slab position is read as an entry with its links. -/
theorem exists_entry (h : w.cores[i]? = some c) :
  ∃ e, w.entries[i]? = some e ∧ w.entry i = .ok e ∧ e.core = c ∧
    ofSentinel NIL e.next = w.next i ∧ ofSentinel NIL e.prev = w.prev i
  := by
  rw [cores_getElem?, Option.map_eq_some_iff] at h
  obtain ⟨e, he, hc⟩ := h
  refine ⟨e, he, ?_, hc, ?_, ?_⟩
  · rw [Wheel.entry, he]
  · rw [Wheel.next, he, Option.bind_some]
  · rw [Wheel.prev, he, Option.bind_some]

theorem cores_setEntry :
  (w.setEntry i e').cores = w.cores.set i e'.core
  := by
  rw [Wheel.cores, Wheel.setEntry, List.map_set, Wheel.cores]

theorem next_setEntry (h : w.entries[i]? = some e) :
  (w.setEntry i e').next = Function.update w.next i (ofSentinel NIL e'.next)
  := by
  have hlt := (List.getElem?_eq_some_iff.mp h).1
  funext j
  rw [Wheel.next, Wheel.setEntry, Function.update_apply, List.getElem?_set]
  by_cases hj : i = j
  · subst hj
    rw [if_pos rfl, if_pos hlt, if_pos rfl, Option.bind_some]
  · rw [if_neg hj, if_neg (Ne.symm hj), Wheel.next]

theorem prev_setEntry (h : w.entries[i]? = some e) :
  (w.setEntry i e').prev = Function.update w.prev i (ofSentinel NIL e'.prev)
  := by
  have hlt := (List.getElem?_eq_some_iff.mp h).1
  funext j
  rw [Wheel.prev, Wheel.setEntry, Function.update_apply, List.getElem?_set]
  by_cases hj : i = j
  · subst hj
    rw [if_pos rfl, if_pos hlt, if_pos rfl, Option.bind_some]
  · rw [if_neg hj, if_neg (Ne.symm hj), Wheel.prev]

/-- Setting a back link changes nothing else. -/
theorem linkPrev_spec {x : ℕ} (y : ℕ) (hx : ∀ j ∈ ofSentinel NIL x, ∃ c, w.cores[j]? = some c) :
  ∃ es, w.linkPrev x y = .ok { w with entries := es } ∧
    { w with entries := es }.cores = w.cores ∧
    { w with entries := es }.next = w.next ∧
    { w with entries := es }.prev =
      fun j => if ofSentinel NIL x = some j then ofSentinel NIL y else w.prev j
  := by
  by_cases hnil : x = NIL
  · subst hnil
    refine ⟨w.entries, by rw [Wheel.linkPrev, if_pos rfl], rfl, rfl, ?_⟩
    funext j
    simp
  · rw [ofSentinel_of_ne hnil] at hx ⊢
    obtain ⟨c, hc⟩ := hx x rfl
    obtain ⟨e, he, hentry, hcore, hnext, -⟩ := exists_entry hc
    refine ⟨w.entries.set x { e with prev := y }, ?_, ?_, ?_, ?_⟩
    · rw [Wheel.linkPrev, if_neg hnil, hentry]
      rfl
    · apply cores_setEntry.trans
      apply List.set_eq_self
      rw [hc, ← hcore]
      rfl
    · apply (next_setEntry he).trans
      rw [hnext, Function.update_eq_self]
    · apply (prev_setEntry he).trans
      funext j
      rw [Function.update_apply]
      by_cases hj : j = x
      · rw [if_pos hj, if_pos (by rw [hj])]
      · rw [if_neg hj, if_neg (by simpa using Ne.symm hj)]

/-! ### Occupancy masks -/

section Masks

variable {level slot : ℕ} {q : ℕ × ℕ}

theorem occupied_occupy (hslot : slot < SLOTS) :
  (w.occupy level slot).Occupied q ↔ q = (level, slot) ∨ w.Occupied q
  := by
  obtain ⟨l, s⟩ := q
  simp only [Wheel.Occupied, Wheel.occupy, Function.update_apply, Prod.mk.injEq]
  by_cases hl : l = level
  · subst hl
    by_cases hs : s < 64
    · rw [if_pos rfl, BitVec.getLsbD_set hs]
      simp [or_comm]
    · have hne : s ≠ slot := by
        rw [SLOTS] at hslot
        omega
      rw [if_pos rfl, BitVec.getLsbD_of_ge _ _ (by omega), BitVec.getLsbD_of_ge _ _ (by omega)]
      simp [hne]
  · simp [hl]

theorem occupied_vacate :
  (w.vacate level slot).Occupied q ↔ q ≠ (level, slot) ∧ w.Occupied q
  := by
  obtain ⟨l, s⟩ := q
  simp only [Wheel.Occupied, Wheel.vacate, Function.update_apply, Prod.mk.injEq, ne_eq]
  by_cases hl : l = level
  · subst hl
    by_cases hs : s < 64
    · rw [if_pos rfl, BitVec.getLsbD_clear hs]
      simp [and_comm]
    · rw [if_pos rfl, BitVec.getLsbD_of_ge _ _ (by omega), BitVec.getLsbD_of_ge _ _ (by omega)]
      simp
  · simp [hl]

end Masks

/-! ### The lists -/

/-- What holds of a slab position whatever list it is on. -/
structure Core.Valid (c : Core T) : Prop where
  generation : c.generation ≤ U64_MAX
  live : c.token.isSome → c.generation ≠ 0 ∧ c.level ≠ RETIRED_LEVEL
  idle : c.token = none → (c.level = FREE_LEVEL ∧ c.generation ≠ U64_MAX) ∨
    (c.level = RETIRED_LEVEL ∧ c.generation = U64_MAX)

/-- The wheel holds the given lists: one for each slot, and the free list. -/
structure Links (w : Wheel T) (lists : ℕ × ℕ → List ℕ) (loose free : List ℕ) : Prop where
  size : w.cores.length ≤ NIL
  buckets : Buckets w.next w.prev (fun p => ofSentinel NIL (w.heads p)) lists
  occupied : ∀ p, w.Occupied p ↔ lists p ≠ []
  range : ∀ p, lists p ≠ [] → p.1 < LEVELS ∧ p.2 < SLOTS
  filed : ∀ p i, i ∈ lists p ↔
    i ∉ loose ∧ ∃ c, w.cores[i]? = some c ∧ c.token.isSome ∧ c.position = p
  loose_live : ∀ i ∈ loose, ∃ c, w.cores[i]? = some c ∧ c.token.isSome
  loose_nodup : loose.Nodup
  free_chain : Follows w.next none free
  free_head : ofSentinel NIL w.free = free.head?
  free_nodup : free.Nodup
  free_iff : ∀ i, i ∈ free ↔
    ∃ c, w.cores[i]? = some c ∧ c.token = none ∧ c.level = FREE_LEVEL
  valid : ∀ (i : ℕ) (c : Core T), w.cores[i]? = some c → c.Valid
  count : w.live = (w.cores.map Core.load).sum
  waste : w.retired = (w.cores.map Core.waste).sum

namespace Links

variable {w' : Wheel T} {lists : ℕ × ℕ → List ℕ} {loose free : List ℕ} {p : ℕ × ℕ}

/-- An index of the slab is not the sentinel. -/
theorem ne_nil (h : Links w lists loose free) (hc : w.cores[i]? = some c) :
  i ≠ NIL
  := by
  have hlt := (List.getElem?_eq_some_iff.mp hc).1
  have hsize := h.size
  omega

theorem token_isSome (h : Links w lists (i :: loose) free) (hc : w.cores[i]? = some c) :
  c.token.isSome
  := by
  obtain ⟨c', hc', htoken⟩ := h.loose_live i (by simp)
  rw [hc, Option.some_inj] at hc'
  rwa [hc']

/-- A loose entry is on no list. -/
theorem not_filed (h : Links w lists loose free) (hi : i ∈ loose) (q : ℕ × ℕ) :
  i ∉ lists q
  := by
  rw [h.filed, not_and]
  intro hnot
  exact (hnot hi).elim

/-- An entry that holds a timer is not free. -/
theorem not_free (h : Links w lists loose free) (hc : w.cores[i]? = some c)
    (htoken : c.token.isSome) :
  i ∉ free
  := by
  rw [h.free_iff]
  rintro ⟨c', hc', hnone, -⟩
  rw [hc, Option.some_inj] at hc'
  rw [hc', hnone] at htoken
  cases htoken

end Links

theorem head_eq {p : ℕ × ℕ} (hp : p.1 < LEVELS ∧ p.2 < SLOTS) :
  w.head p.1 p.2 = .ok (w.heads p)
  := by
  rw [Wheel.head, inBounds_of_lt hp.1, ok_bind, inBounds_of_lt hp.2, ok_bind]

theorem heads_update {heads : ℕ × ℕ → ℕ} {p : ℕ × ℕ} {x : ℕ} :
  (fun q => ofSentinel NIL (Function.update heads p x q)) =
    Function.update (fun q => ofSentinel NIL (heads q)) p (ofSentinel NIL x)
  := by
  funext q
  rw [Function.apply_update fun _ y => ofSentinel NIL y]

/-- The entry with a new deadline, filed under a slot. -/
def Core.moved (c : Core T) (deadline : ℕ) (p : ℕ × ℕ) : Core T :=
  { c with deadline := deadline, level := p.1, slot := p.2 }

namespace Links

variable {w' : Wheel T} {lists : ℕ × ℕ → List ℕ} {loose free : List ℕ} {p : ℕ × ℕ}

/-- A loose entry becomes the first of a slot. -/
theorem link {d : ℕ} (h : Links w lists (i :: loose) free) (hc : w.cores[i]? = some c)
    (hrange : p.1 < LEVELS ∧ p.2 < SLOTS) (hcores : w'.cores = w.cores.set i (c.moved d p))
    (hnext : w'.next = Function.update w.next i (ofSentinel NIL (w.heads p)))
    (hprev : w'.prev = fun j => if ofSentinel NIL (w.heads p) = some j then some i
      else Function.update w.prev i none j)
    (hheads : w'.heads = Function.update w.heads p i)
    (hocc : ∀ q, w'.Occupied q ↔ q = p ∨ w.Occupied q)
    (hfree : w'.free = w.free) (hlive : w'.live = w.live) (hretired : w'.retired = w.retired) :
  Links w' (Function.update lists p (i :: lists p)) loose free
  := by
  have hnot : ∀ q, i ∉ lists q := h.not_filed (by simp)
  have htoken := h.token_isSome hc
  have hvalid := h.valid i c hc
  have hloose := List.nodup_cons.mp h.loose_nodup
  have hself : w'.cores[i]? = some (c.moved d p) := by
    rw [hcores, List.getElem?_set_self (List.getElem?_eq_some_iff.mp hc).1]
  have hother : ∀ j, j ≠ i → w'.cores[j]? = w.cores[j]? := by
    intro j hj
    rw [hcores, List.getElem?_set_ne (Ne.symm hj)]
  constructor
  · rw [hcores, List.length_set]
    apply h.size
  · rw [hnext, hprev, hheads, heads_update, ofSentinel_of_ne (h.ne_nil hc)]
    apply h.buckets.push hnot
  · intro q
    rw [hocc]
    by_cases hq : q = p
    · subst hq
      simp
    · rw [Function.update_of_ne hq, ← h.occupied]
      simp [hq]
  · intro q
    by_cases hq : q = p
    · subst hq
      intro _
      exact hrange
    · rw [Function.update_of_ne hq]
      apply h.range
  · intro q j
    rw [Buckets.mem_update, List.mem_cons]
    by_cases hj : j = i
    · subst hj
      rw [hself]
      simp only [hnot, hloose.1, Option.some_inj]
      simp [Core.moved, Core.position, htoken, eq_comm]
    · rw [hother j hj]
      have hfiled := h.filed q j
      simp only [List.mem_cons, hj, false_or] at hfiled ⊢
      rw [← hfiled]
      by_cases hq : q = p <;> simp [hq]
  · intro j hj
    rw [hother j (by rintro rfl; exact hloose.1 hj)]
    apply h.loose_live j (by simp [hj])
  · exact hloose.2
  · apply h.free_chain.congr
    intro x hx
    rw [hnext, Function.update_of_ne]
    rintro rfl
    apply h.not_free hc htoken hx
  · rw [hfree, h.free_head]
  · exact h.free_nodup
  · intro j
    by_cases hj : j = i
    · subst hj
      have hnone : c.token ≠ none := by
        intro hnone
        rw [hnone] at htoken
        cases htoken
      have hout := h.not_free hc htoken
      rw [hself]
      simp [Core.moved, hout, hnone]
    · rw [hother j hj]
      apply h.free_iff
  · intro j cj hcj
    by_cases hj : j = i
    · subst hj
      rw [hself, Option.some_inj] at hcj
      subst hcj
      refine ⟨hvalid.generation, ?_, ?_⟩
      · intro _
        refine ⟨(hvalid.live htoken).1, ?_⟩
        have hlevel : p.1 ≠ RETIRED_LEVEL := by
          have hdepth := hrange.1
          rw [LEVELS] at hdepth
          rw [RETIRED_LEVEL]
          omega
        exact hlevel
      · intro hnone
        simp only [Core.moved] at hnone
        rw [hnone] at htoken
        cases htoken
    · rw [hother j hj] at hcj
      apply h.valid j cj hcj
  · have hsum := List.sum_map_set Core.load hc (b := c.moved d p)
    have hload : (c.moved d p).load = c.load := rfl
    rw [hlive, h.count, hcores]
    omega
  · have hsum := List.sum_map_set Core.waste hc (b := c.moved d p)
    have hwaste : c.waste = 0 := if_neg (hvalid.live htoken).2
    have hwaste' : (c.moved d p).waste = 0 := by
      apply if_neg
      have hdepth := hrange.1
      simp only [Core.moved]
      rw [LEVELS] at hdepth
      rw [RETIRED_LEVEL]
      omega
    rw [hretired, h.waste, hcores]
    omega

/-- The members of the lists are slab positions. -/
theorem cores_of_head (h : Links w lists loose free) (hi : ofSentinel NIL (w.heads p) = some i) :
  ∃ c, w.cores[i]? = some c
  := by
  have hhead := h.buckets.head_eq p
  rw [hi] at hhead
  obtain ⟨-, c, hc, -⟩ := (h.filed p i).mp (List.mem_of_head? hhead.symm)
  exact ⟨c, hc⟩

/-- A loose entry is filed under its deadline. -/
theorem file {d : ℕ} (h : Links w lists (i :: loose) free) (hc : w.cores[i]? = some c)
    (hcursor : w.cursor ≤ MAX_TICK) (hd : d ≤ MAX_TICK) (hfits : d ≤ w.cursor + MAX_DELAY_TICKS)
    (hp : place w.cursor d = p) :
  ∃ w', w.file i d = .ok w' ∧
    Links w' (Function.update lists p (i :: lists p)) loose free ∧
    w'.cores = w.cores.set i (c.moved d p) ∧ (∀ j, j ≠ i → w'.next j = w.next j) ∧
    w'.cursor = w.cursor ∧ w'.wheelId = w.wheelId ∧
    w'.nextEvent = min w.nextEvent (slotWakeup w.cursor p.1 p.2)
  := by
  have hfiled := filed_place hcursor hd hfits
  rw [hp] at hfiled
  have hrange := And.intro hfiled.depth hfiled.slot_lt
  obtain ⟨e, he, hentry, hcore, -, -⟩ := exists_entry hc
  have hlt := (List.getElem?_eq_some_iff.mp hc).1
  generalize hw₁ : w.setEntry i { e with
      deadline := d, next := w.heads p, prev := NIL, level := p.1, slot := p.2 } = w₁
  have hcores₁ : w₁.cores = w.cores.set i (c.moved d p) := by
    rw [← hw₁, cores_setEntry, ← hcore]
    rfl
  have hnext₁ : w₁.next = Function.update w.next i (ofSentinel NIL (w.heads p)) := by
    rw [← hw₁, next_setEntry he]
  have hprev₁ : w₁.prev = Function.update w.prev i none := by
    rw [← hw₁, prev_setEntry he, ofSentinel_self]
  have hframe₁ : w₁ = { w with entries := w₁.entries } := by
    rw [← hw₁]
    rfl
  obtain ⟨es, hes, hcores, hnext, hprev⟩ := linkPrev_spec (w := w₁) (x := w.heads p) i (by
    intro j hj
    obtain ⟨cj, hcj⟩ := h.cores_of_head hj
    rw [hcores₁]
    by_cases hji : i = j
    · subst hji
      exact ⟨_, List.getElem?_set_self hlt⟩
    · exact ⟨cj, by rw [List.getElem?_set_ne hji, hcj]⟩)
  rw [hframe₁] at hes
  rw [hcores₁] at hcores
  rw [hnext₁] at hnext
  rw [hprev₁, ofSentinel_of_ne (h.ne_nil hc)] at hprev
  rw [hframe₁] at hcores hnext hprev
  refine ⟨{ w with
      entries := es
      heads := Function.update w.heads p i
      occupied := Function.update w.occupied p.1 (w.occupied p.1 ||| (1#64 <<< p.2))
      nextEvent := min w.nextEvent (slotWakeup w.cursor p.1 p.2) },
    ?_, ?_, hcores, ?_, rfl, rfl, rfl⟩
  · rw [Wheel.file, placement_eq hcursor hd hfits, ok_bind, hp]
    simp only
    rw [head_eq hrange, ok_bind, hentry, ok_bind, hw₁, hframe₁, hes, ok_bind]
    rfl
  · refine h.link (d := d) hc hrange ?_ ?_ ?_ rfl ?_ rfl rfl rfl
    · exact hcores
    · exact hnext
    · exact hprev
    · intro q
      apply occupied_occupy (w := w) hrange.2
  · intro j hj
    apply (congrFun hnext j).trans
    apply Function.update_of_ne hj

/-- A filed entry becomes loose. -/
theorem detach (h : Links w lists [] free) (hi : i ∈ lists p) (hcores : w'.cores = w.cores)
    (hnext : w'.next = fun j => if w.prev i = some j then w.next i else w.next j)
    (hprev : w'.prev = fun j => if w.next i = some j then w.prev i else w.prev j)
    (hheads : (fun q => ofSentinel NIL (w'.heads q)) = if (w.prev i).isNone then
        Function.update (fun q => ofSentinel NIL (w.heads q)) p (w.next i)
      else fun q => ofSentinel NIL (w.heads q))
    (hocc : ∀ q, w'.Occupied q ↔ (q = p → lists p ≠ [i]) ∧ w.Occupied q)
    (hfree : w'.free = w.free) (hlive : w'.live = w.live) (hretired : w'.retired = w.retired) :
  Links w' (Function.update lists p ((lists p).erase i)) [i] free
  := by
  have hnonempty : lists p ≠ [] := List.ne_nil_of_mem hi
  have herase : (lists p).erase i = [] ↔ lists p = [i] := by
    rw [List.erase_eq_nil_iff]
    simp [hnonempty]
  constructor
  · rw [hcores]
    apply h.size
  · rw [hnext, hprev, hheads]
    apply h.buckets.remove hi
  · intro q
    rw [hocc]
    by_cases hq : q = p
    · subst hq
      rw [Function.update_self, h.occupied]
      simp [hnonempty, herase]
    · rw [Function.update_of_ne hq, h.occupied]
      simp [hq]
  · intro q
    by_cases hq : q = p
    · subst hq
      intro _
      apply h.range q hnonempty
    · rw [Function.update_of_ne hq]
      apply h.range
  · intro q j
    rw [Buckets.mem_update, hcores, (h.buckets.nodup p).mem_erase_iff, List.mem_singleton]
    have hfiled := h.filed q j
    simp only [List.not_mem_nil, not_false_eq_true, true_and] at hfiled
    rw [← hfiled]
    by_cases hq : q = p
    · subst hq
      simp
    · have hne : j ∈ lists q → j ≠ i := by
        rintro hj rfl
        apply hq (h.buckets.apart q p j hj hi)
      simp only [hq, ne_eq, not_false_eq_true, false_and, true_and, false_or]
      tauto
  · intro j hj
    rw [List.mem_singleton] at hj
    subst hj
    obtain ⟨-, c, hc, htoken, -⟩ := (h.filed p j).mp hi
    exact ⟨c, by rw [hcores, hc], htoken⟩
  · apply List.nodup_singleton
  · apply h.free_chain.congr
    intro x hx
    rw [hnext]
    simp only
    rw [if_neg]
    intro heq
    obtain ⟨-, cx, hcx, htoken, -⟩ := (h.filed p x).mp (h.buckets.mem_of_prev hi heq)
    apply h.not_free hcx htoken hx
  · rw [hfree, h.free_head]
  · exact h.free_nodup
  · rw [hcores]
    exact h.free_iff
  · rw [hcores]
    exact h.valid
  · rw [hcores, hlive, h.count]
  · rw [hcores, hretired, h.waste]

/-- Unlinking a live entry makes it loose. -/
theorem unlink (h : Links w lists [] free) (hc : w.cores[i]? = some c) (htoken : c.token.isSome) :
  ∃ w', w.unlink i = .ok w' ∧
    Links w' (Function.update lists c.position ((lists c.position).erase i)) [i] free ∧
    w'.cores = w.cores ∧ w'.cursor = w.cursor ∧ w'.wheelId = w.wheelId ∧
    w'.nextEvent = w.nextEvent
  := by
  obtain ⟨e, he, hentry, hcore, hnexti, hprevi⟩ := exists_entry hc
  have hi : i ∈ lists c.position := by
    rw [h.filed]
    exact ⟨by simp, c, hc, htoken, rfl⟩
  have hposition : (e.level, e.slot) = c.position := by
    rw [← hcore]
    rfl
  generalize hp : c.position = p at hi hposition
  have hrange := h.range p (List.ne_nil_of_mem hi)
  have halone := h.buckets.alone_iff hi
  have hmember : ∀ j, j ∈ lists p → ∃ cj, w.cores[j]? = some cj := by
    intro j hj
    obtain ⟨-, cj, hcj, -⟩ := (h.filed p j).mp hj
    exact ⟨cj, hcj⟩
  have hafter : ∀ j ∈ ofSentinel NIL e.next, ∃ cj, w.cores[j]? = some cj := by
    intro j hj
    rw [hnexti] at hj
    apply hmember j (h.buckets.mem_of_next hi hj)
  by_cases hfirst : e.prev = NIL
  · rw [hfirst, ofSentinel_self, eq_comm] at hprevi
    obtain ⟨es, hes, hcores, hnext, hprev⟩ := linkPrev_spec (w := { w with
        heads := Function.update w.heads p e.next
        occupied := if e.next = NIL then (w.vacate p.1 p.2).occupied else w.occupied })
      (x := e.next) e.prev hafter
    refine ⟨_, ?_, h.detach hi hcores ?_ ?_ ?_ ?_ rfl rfl rfl, hcores, rfl, rfl, rfl⟩
    · rw [Wheel.unlink, hentry, ok_bind, if_pos hfirst]
      obtain ⟨hlevel, hslot⟩ := Prod.mk.inj hposition
      rw [hlevel, hslot, head_eq hrange, ok_bind, ← hes]
      by_cases hlast : e.next = NIL
      · simp only [if_pos hlast]
        rfl
      · simp only [if_neg hlast]
        rfl
    · rw [hnext, hprevi]
      rfl
    · rw [hprev, hnexti, hfirst, ofSentinel_self, hprevi]
      rfl
    · rw [hprevi, Option.isNone_none, if_pos rfl, ← hnexti, ← heads_update]
    · intro q
      rw [hprevi, ← hnexti, ofSentinel_eq_none_iff] at halone
      by_cases hlast : e.next = NIL
      · have hsingle := halone.mp ⟨rfl, hlast⟩
        simp only [if_pos hlast, hsingle]
        apply occupied_vacate.trans
        simp
      · have hmany : lists p ≠ [i] := by
          intro hsingle
          apply hlast (halone.mpr hsingle).2
        simp only [if_neg hlast]
        simp only [ne_eq, hmany, not_false_eq_true, implies_true, true_and]
        rfl
  · rw [ofSentinel_of_ne hfirst, eq_comm] at hprevi
    obtain ⟨cb, hcb⟩ := hmember e.prev (h.buckets.mem_of_prev hi hprevi)
    obtain ⟨b, hb, hbentry, hbcore, hbnext, hbprev⟩ := exists_entry hcb
    generalize hw₁ : w.setEntry e.prev { b with next := e.next } = w₁
    have hcores₁ : w₁.cores = w.cores := by
      rw [← hw₁, cores_setEntry]
      apply List.set_eq_self
      rw [hcb, ← hbcore]
      rfl
    have hnext₁ : w₁.next = Function.update w.next e.prev (w.next i) := by
      rw [← hw₁, next_setEntry hb, hnexti]
    have hprev₁ : w₁.prev = w.prev := by
      rw [← hw₁, prev_setEntry hb, hbprev, Function.update_eq_self]
    have hframe₁ : w₁ = { w with entries := w₁.entries } := by
      rw [← hw₁]
      rfl
    rw [← hcores₁] at hafter
    obtain ⟨es, hes, hcores, hnext, hprev⟩ := linkPrev_spec (w := w₁) (x := e.next) e.prev hafter
    rw [hcores₁] at hcores
    rw [hnext₁] at hnext
    rw [hprev₁, hnexti, ofSentinel_of_ne hfirst] at hprev
    rw [hframe₁] at hes hcores hnext hprev
    refine ⟨_, ?_, h.detach hi hcores ?_ ?_ ?_ ?_ rfl rfl rfl, hcores, rfl, rfl, rfl⟩
    · rw [Wheel.unlink, hentry, ok_bind, if_neg hfirst, hbentry, ok_bind]
      simp only
      rw [hw₁, hframe₁]
      exact hes
    · rw [hnext, hprevi]
      funext j
      rw [Function.update_apply]
      by_cases hj : j = e.prev
      · rw [if_pos hj, if_pos (by rw [hj])]
      · rw [if_neg hj, if_neg (by simpa using Ne.symm hj)]
    · rw [hprev, hprevi]
    · rw [hprevi]
      rfl
    · intro q
      have hmany : lists p ≠ [i] := by
        intro hsingle
        rw [(halone.mpr hsingle).1] at hprevi
        cases hprevi
      simp only [ne_eq, hmany, not_false_eq_true, implies_true, true_and]
      rfl

/-- The entries of a slot become loose. -/
theorem take (h : Links w lists [] free) (hp : p.1 < LEVELS ∧ p.2 < SLOTS) :
  ∃ w' index, w.take p.1 p.2 = .ok (w', index) ∧ ofSentinel NIL index = (lists p).head? ∧
    Links w' (Function.update lists p []) (lists p) free ∧ Follows w'.next none (lists p) ∧
    w'.cores = w.cores ∧ w'.cursor = w.cursor ∧ w'.wheelId = w.wheelId
  := by
  refine ⟨(w.setHead p.1 p.2 NIL).vacate p.1 p.2, w.heads p, ?_, h.buckets.head_eq p, ?_,
    (h.buckets.threads p).forward, rfl, rfl, rfl⟩
  · rw [Wheel.take, head_eq hp, ok_bind]
  · constructor
    · exact h.size
    · have hbuckets := h.buckets.take p
      rw [← ofSentinel_self, ← heads_update] at hbuckets
      exact hbuckets
    · intro q
      rw [occupied_vacate]
      by_cases hq : q = p
      · subst hq
        simp
      · rw [Function.update_of_ne hq, ← h.occupied]
        simp only [ne_eq, Prod.mk.eta, hq, not_false_eq_true, true_and]
        rfl
    · intro q
      by_cases hq : q = p
      · subst hq
        simp
      · rw [Function.update_of_ne hq]
        apply h.range
    · intro q j
      have hfiled := h.filed q j
      simp only [List.not_mem_nil, not_false_eq_true, true_and] at hfiled
      rw [Buckets.mem_update]
      by_cases hq : q = p
      · subst hq
        simp only [List.not_mem_nil, and_false, ne_eq, not_true_eq_false, false_and, or_self,
          false_iff, not_and]
        intro hnot hlive
        apply hnot (hfiled.mpr hlive)
      · have hnot : j ∈ lists q → j ∉ lists p := by
          intro hj hjp
          apply hq (h.buckets.apart q p j hj hjp)
        simp only [hq, false_and, ne_eq, not_false_eq_true, true_and, false_or]
        rw [hfiled] at hnot ⊢
        constructor
        · intro hlive
          exact ⟨hnot hlive, hlive⟩
        · exact And.right
    · intro j hj
      obtain ⟨-, c, hc, htoken, -⟩ := (h.filed p j).mp hj
      exact ⟨c, hc, htoken⟩
    · exact h.buckets.nodup p
    · exact h.free_chain
    · exact h.free_head
    · exact h.free_nodup
    · exact h.free_iff
    · exact h.valid
    · exact h.count
    · exact h.waste

end Links

end Grommet.Timer
