import Grommet.Core.Timer.Advance

/-!
# The operations of the wheel

A new wheel is good, and every operation of a good wheel returns and leaves it good.  What
an operation does is stated on the contents of the slab positions.
-/

open Checked

namespace Grommet.Timer

variable {T : Type} {w w' : Wheel T} {c : Core T} {i d : ℕ} {lists lists' : ℕ × ℕ → List ℕ}
  {loose loose' free free' : List ℕ}

theorem allocateWheelId_spec {next id after : ℕ} (hnext : NEXT_WHEEL_ID ≤ next)
    (h : allocateWheelId next = .ok (id, after)) :
  id ≠ 0 ∧ id < 2 ^ 32
  := by
  rw [allocateWheelId, bind_eq_ok] at h
  obtain ⟨n, hn, h⟩ := h
  rw [expect_eq_ok, Option.ite_none_right_eq_some] at hn
  cases h
  rw [NEXT_WHEEL_ID] at hnext
  exact ⟨by omega, by omega⟩

/-! ### A new wheel -/

/-- A range of numbers, each of which leads to the next. -/
theorem follows_range {f : ℕ → Option ℕ} (n s : ℕ)
    (h : ∀ i, s ≤ i → i < s + n → f i = if i + 1 < s + n then some (i + 1) else none) :
  Follows f none (List.range' s n)
  := by
  induction n generalizing s with
  | zero => trivial
  | succ n ih =>
    rw [List.range'_succ]
    constructor
    · rw [h s le_rfl (by omega), Option.or_none]
      cases n with
      | zero => simp
      | succ n =>
        rw [List.range'_succ, List.head?_cons, if_pos (by omega)]
    · apply ih
      intro i hi hlt
      rw [h i (by omega) (by omega)]
      have heq : s + 1 + n = s + (n + 1) := by omega
      rw [heq]

/-- A new wheel has all its positions free. -/
theorem links_new {capacity now wheelId : ℕ}
    (h : Wheel.withCapacityAtTick capacity now wheelId = .ok w) :
  Links w (fun _ => []) [] (List.range capacity)
  := by
  rw [Wheel.withCapacityAtTick, bind_eq_ok] at h
  obtain ⟨_, hsize, h⟩ := h
  rw [assert_eq_ok, decide_eq_true_eq] at hsize
  rw [bind_eq_ok] at h
  obtain ⟨_, -, h⟩ := h
  rw [Except.ok.injEq] at h
  have hcores : w.cores = (List.range capacity).map
      fun _ => (⟨0, 0, none, FREE_LEVEL, 0⟩ : Core T) := by
    rw [← h, Wheel.cores, List.map_map]
    rfl
  have hget : ∀ i c, w.cores[i]? = some c ↔ i < capacity ∧ c = ⟨0, 0, none, FREE_LEVEL, 0⟩ := by
    intro i c
    rw [hcores, List.getElem?_map]
    by_cases hi : i < capacity
    · rw [List.getElem?_range hi]
      simp [hi, eq_comm]
    · rw [List.getElem?_eq_none (by simpa using hi)]
      simp [hi]
  constructor
  · rw [hcores]
    simpa using hsize
  · refine ⟨fun p => Threads.nil, fun p => List.nodup_nil, ?_, ?_⟩
    · intro p
      rw [← h]
      simp
    · intro p q i hi
      cases hi
  · intro p
    rw [← h, Wheel.Occupied]
    simp
  · intro p hp
    exact (hp rfl).elim
  · intro p i
    simp only [List.not_mem_nil, not_false_eq_true, true_and, false_iff, not_exists, not_and]
    intro c hc htoken
    rw [((hget i c).mp hc).2] at htoken
    cases htoken
  · intro i hi
    cases hi
  · exact List.nodup_nil
  · rw [List.range_eq_range']
    apply follows_range
    intro i _ hi
    rw [Nat.zero_add] at hi ⊢
    rw [Wheel.next, ← h]
    simp only [List.getElem?_map, List.getElem?_range hi, Option.map_some, Option.bind_some]
    split
    · apply ofSentinel_of_ne
      omega
    · rw [ofSentinel_self]
  · rw [← h]
    simp only
    split
    · rename_i hzero
      rw [hzero, ofSentinel_self]
      rfl
    · rename_i hpos
      rw [List.head?_range, if_neg hpos]
      apply ofSentinel_of_ne
      decide
  · exact List.nodup_range
  · intro i
    rw [List.mem_range]
    constructor
    · intro hi
      exact ⟨_, (hget i _).mpr ⟨hi, rfl⟩, rfl, rfl⟩
    · rintro ⟨c, hc, -⟩
      exact ((hget i c).mp hc).1
  · intro i c hc
    rw [((hget i c).mp hc).2]
    refine ⟨Nat.zero_le _, ?_, ?_⟩
    · intro htoken
      cases htoken
    · intro _
      exact Or.inl ⟨rfl, show 0 ≠ U64_MAX by decide⟩
  · rw [hcores, ← h, List.map_map]
    simp only
    rw [show Core.load ∘ (fun _ : ℕ => (⟨0, 0, none, FREE_LEVEL, 0⟩ : Core T)) = fun _ => 0 from rfl]
    simp
  · rw [hcores, ← h, List.map_map]
    simp only
    rw [show Core.waste ∘ (fun _ : ℕ => (⟨0, 0, none, FREE_LEVEL, 0⟩ : Core T)) = fun _ => 0 from rfl]
    simp

/-- A new wheel is good and holds no timer. -/
theorem good_new {capacity now wheelId : ℕ} (hid : wheelId ≠ 0 ∧ wheelId < 2 ^ 32)
    (h : Wheel.withCapacityAtTick capacity now wheelId = .ok w) :
  w.Good ∧ w.cursor = now ∧ (∀ c ∈ w.cores, c.token = none) ∧ w.wheelId = wheelId
  := by
  have hlinks := links_new h
  have hnone : ∀ c ∈ w.cores, c.token = none := by
    intro c hc
    obtain ⟨i, hi⟩ := List.mem_iff_getElem?.mp hc
    by_contra hsome
    have htoken : c.token.isSome := Option.isSome_iff_ne_none.mpr hsome
    have hmem := (hlinks.filed c.position i).mpr ⟨by simp, c, hi, htoken, rfl⟩
    cases hmem
  rw [Wheel.withCapacityAtTick, bind_eq_ok] at h
  obtain ⟨_, -, h⟩ := h
  rw [bind_eq_ok] at h
  obtain ⟨_, hnow, h⟩ := h
  rw [assert_eq_ok, decide_eq_true_eq] at hnow
  rw [Except.ok.injEq] at h
  have hcursor : w.cursor = now := by rw [← h]
  have hwheel : w.wheelId = wheelId := by rw [← h]
  have hevent : w.nextEvent = U64_MAX := by rw [← h]
  refine ⟨⟨⟨_, _, hlinks⟩, ?_, ?_, hcursor ▸ hnow, hwheel ▸ hid⟩, hcursor, hnone, hwheel⟩
  · intro c hc htoken
    rw [hnone c hc] at htoken
    cases htoken
  · refine ⟨hevent.le, ?_, Or.inl hevent⟩
    intro p _ hocc
    rw [hlinks.occupied] at hocc
    exact (hocc rfl).elim

/-! ### The cached event -/

/-- The event stays exact when one more slot is occupied. -/
theorem Soonest.occupy {p : ℕ × ℕ} (h : w.Exact) (hp : p.1 < LEVELS)
    (hocc : ∀ q, w'.Occupied q ↔ q = p ∨ w.Occupied q) (hcursor : w'.cursor = w.cursor)
    (hevent : w'.nextEvent = min w.nextEvent (slotWakeup w.cursor p.1 p.2)) :
  w'.Exact
  := by
  constructor
  · rw [hevent]
    apply (min_le_left _ _).trans h.le_bound
  · intro q hq hoccq
    rw [hevent, hcursor]
    rcases (hocc q).mp hoccq with rfl | hold
    · apply min_le_right
    · apply (min_le_left _ _).trans (h.le_wakeup q hq hold)
  · rw [hevent, hcursor]
    rcases min_choice w.nextEvent (slotWakeup w.cursor p.1 p.2) with heq | heq
    · rw [heq]
      apply h.attained.imp_right
      rintro ⟨q, hq, hold, hattained⟩
      exact ⟨q, hq, (hocc q).mpr (Or.inr hold), hattained⟩
    · rw [heq]
      exact Or.inr ⟨p, hp, (hocc p).mpr (Or.inl rfl), rfl⟩

/-- The event stays exact when only slots that come up later are vacated. -/
theorem Soonest.vacate (h : w.Exact) (hsub : ∀ q, w'.Occupied q → w.Occupied q)
    (hkeep : ∀ q, w.Occupied q → slotWakeup w.cursor q.1 q.2 = w.nextEvent → w'.Occupied q)
    (hcursor : w'.cursor = w.cursor) (hevent : w'.nextEvent = w.nextEvent) :
  w'.Exact
  := by
  constructor
  · rw [hevent]
    exact h.le_bound
  · intro q hq hocc
    rw [hevent, hcursor]
    apply h.le_wakeup q hq (hsub q hocc)
  · rw [hevent, hcursor]
    apply h.attained.imp_right
    rintro ⟨q, hq, hocc, heq⟩
    exact ⟨q, hq, hkeep q hocc heq.symm, heq⟩

/-- Filing a loose entry keeps the event exact. -/
theorem exact_file {p : ℕ × ℕ} (h : w.Exact) (hlinks : Links w lists loose free)
    (hlinks' : Links w' (Function.update lists p (i :: lists p)) loose' free')
    (hcursor : w'.cursor = w.cursor)
    (hevent : w'.nextEvent = min w.nextEvent (slotWakeup w.cursor p.1 p.2)) :
  w'.Exact
  := by
  have hp := hlinks'.range p (by simp)
  apply Soonest.occupy h hp.1 _ hcursor hevent
  intro q
  rw [hlinks'.occupied, hlinks.occupied]
  by_cases hq : q = p
  · subst hq
    simp
  · rw [Function.update_of_ne hq]
    simp [hq]

/-- Unlinking an entry keeps the event exact, unless the entry was alone in the slot that
comes up next. -/
theorem exact_unlink {p : ℕ × ℕ} (h : w.Exact) (hlinks : Links w lists loose free)
    (hlinks' : Links w' (Function.update lists p ((lists p).erase i)) loose' free')
    (hearliest : ¬ (lists p = [i] ∧ slotWakeup w.cursor p.1 p.2 = w.nextEvent))
    (hcursor : w'.cursor = w.cursor) (hevent : w'.nextEvent = w.nextEvent) :
  w'.Exact
  := by
  apply Soonest.vacate h _ _ hcursor hevent
  · intro q
    rw [hlinks'.occupied, hlinks.occupied]
    by_cases hq : q = p
    · subst hq
      rw [Function.update_self]
      intro hne hnil
      apply hne
      rw [hnil]
      rfl
    · rw [Function.update_of_ne hq]
      exact id
  · intro q
    rw [hlinks'.occupied, hlinks.occupied]
    by_cases hq : q = p
    · subst hq
      rw [Function.update_self]
      intro hne hwakeup hnil
      rw [List.erase_eq_nil_iff] at hnil
      apply hearliest ⟨hnil.resolve_left hne, hwakeup⟩
    · rw [Function.update_of_ne hq]
      intro hne _
      exact hne

/-- Whether an entry is alone in the slot that comes up next. -/
theorem isEarliest_iff {e : Entry T} (hlinks : Links w lists [] free) (hc : w.cores[i]? = some c)
    (htoken : c.token.isSome) (he : e.core = c) (hnext : ofSentinel NIL e.next = w.next i)
    (hprev : ofSentinel NIL e.prev = w.prev i) :
  w.isEarliest e = true ↔ lists c.position = [i] ∧
    slotWakeup w.cursor c.position.1 c.position.2 = w.nextEvent
  := by
  have hmem := (hlinks.filed c.position i).mpr ⟨by simp, c, hc, htoken, rfl⟩
  have halone := hlinks.buckets.alone_iff hmem
  rw [← hnext, ← hprev, ofSentinel_eq_none_iff, ofSentinel_eq_none_iff] at halone
  rw [Wheel.isEarliest, Bool.and_eq_true, Bool.and_eq_true, ← halone, ← he]
  simp only [decide_eq_true_eq]
  rfl

/-! ### Handles -/

namespace TimerId

/-- The number that encodes a wheel, a generation and an index. -/
theorem encode_eq (wheel : ℕ) {generation index : ℕ} (hgeneration : generation < 2 ^ 64)
    (hindex : index < NIL) :
  wheel <<< 96 ||| generation <<< 32 ||| (index + 1) =
    wheel * 2 ^ 96 + generation * 2 ^ 32 + (index + 1)
  := by
  have hlow : index + 1 < 2 ^ 32 := by
    rw [NIL] at hindex
    omega
  have hmiddle : generation <<< 32 < 2 ^ 96 := by
    rw [Nat.shiftLeft_eq]
    omega
  have hhigh : wheel <<< 96 + generation <<< 32 = (wheel * 2 ^ 64 + generation) <<< 32 := by
    rw [Nat.shiftLeft_eq, Nat.shiftLeft_eq, Nat.shiftLeft_eq]
    omega
  rw [← Nat.shiftLeft_add_eq_or_of_lt hmiddle, hhigh, ← Nat.shiftLeft_add_eq_or_of_lt hlow,
    Nat.shiftLeft_eq]
  omega

/-- A handle can be taken apart again. -/
theorem new_spec {wheel generation index : ℕ} (hwheel : wheel ≠ 0 ∧ wheel < 2 ^ 32)
    (hgeneration : generation ≠ 0 ∧ generation < 2 ^ 64) (hindex : index < NIL) :
  ∃ id, new wheel generation index = .ok id ∧ id.parts = some (wheel, generation, index)
  := by
  have hencode := encode_eq wheel hgeneration.2 hindex
  have hlow : index + 1 < 2 ^ 32 := by
    rw [NIL] at hindex
    omega
  have hraw : wheel * 2 ^ 96 + generation * 2 ^ 32 + (index + 1) ≠ 0 ∧
      wheel * 2 ^ 96 + generation * 2 ^ 32 + (index + 1) < 2 ^ 128 := by
    omega
  refine ⟨⟨_, hraw.1, hraw.2⟩, ?_, ?_⟩
  · rw [new, assert_of (by simpa using hwheel.1), ok_bind, assert_of (by simpa using hgeneration.1),
      ok_bind, assert_of (by simpa using hindex.ne), ok_bind, hencode, ofNat, dif_pos hraw, expect_some]
  · simp only [parts, Nat.shiftRight_eq_div_pow]
    have hparts : (wheel * 2 ^ 96 + generation * 2 ^ 32 + (index + 1)) / 2 ^ 96 % 2 ^ 32 = wheel ∧
        (wheel * 2 ^ 96 + generation * 2 ^ 32 + (index + 1)) / 2 ^ 32 % 2 ^ 64 = generation ∧
        (wheel * 2 ^ 96 + generation * 2 ^ 32 + (index + 1)) % 2 ^ 32 = index + 1 := by
      omega
    obtain ⟨hw, hg, hi⟩ := hparts
    rw [hw, hg, hi, if_neg (by omega), Nat.add_sub_cancel]

/-- A handle is determined by its parts. -/
theorem parts_inj {a b : TimerId} {parts : ℕ × ℕ × ℕ} (ha : a.parts = some parts)
    (hb : b.parts = some parts) :
  a = b
  := by
  obtain ⟨x, hx, hxb⟩ := a
  obtain ⟨y, hy, hyb⟩ := b
  simp only [TimerId.parts, Nat.shiftRight_eq_div_pow, Option.ite_none_left_eq_some,
    Option.some_inj] at ha hb
  obtain ⟨hna, rfl⟩ := ha
  obtain ⟨hnb, hb⟩ := hb
  simp only [Prod.mk.injEq] at hb
  have heq : x = y := by omega
  subst heq
  rfl

end TimerId

/-! ### The operations -/

theorem each_set {P : Core T → Prop} {c' : Core T} (h : w.Each P)
    (hcores : w'.cores = w.cores.set i c') (hc' : P c') :
  w'.Each P
  := by
  intro c hc htoken
  rw [hcores] at hc
  rcases List.mem_or_eq_of_mem_set hc with hold | rfl
  · apply h c hold htoken
  · exact hc'

theorem contents_set {c' : Core T} (hcores : w'.cores = w.cores.set i c') :
  w'.contents = w.contents.set i c'.content
  := by
  rw [Wheel.contents, hcores, List.map_set, Wheel.contents]

theorem contents_of_entries :
  w.contents[i]? = w.entries[i]?.map fun e : Entry T => e.core.content
  := by
  rw [Wheel.contents, Wheel.cores, List.map_map, List.getElem?_map]
  rfl

theorem contents_getElem? (hc : w.cores[i]? = some c) :
  w.contents[i]? = some c.content
  := by
  rw [Wheel.contents, List.getElem?_map, hc, Option.map_some]

/-- A wheel is good once its event is exact or has been looked for again. -/
theorem good_settle {earliest : Bool} (hlinks : Links w lists [] free)
    (hfiled : w.Each (Core.FiledAt w.cursor)) (hcursor : w.cursor ≤ MAX_TICK)
    (hwheel : w.wheelId ≠ 0 ∧ w.wheelId < 2 ^ 32) (hevent : earliest = false → w.Exact) :
  (if earliest then w.refresh else w).Good
  := by
  cases earliest with
  | true => exact ⟨⟨_, _, hlinks.at_event w.cursor _⟩, hfiled, exact_refresh w, hcursor, hwheel⟩
  | false => exact ⟨⟨_, _, hlinks⟩, hfiled, hevent rfl, hcursor, hwheel⟩

/-- The index of a handle of a live timer. -/
theorem liveIndex_eq_some {id : TimerId} :
  w.liveIndex id = some i ↔ ∃ g s, id.parts = some (w.wheelId, g, i) ∧ w.contents[i]? = some s ∧
    s.generation = g ∧ s.token.isSome
  := by
  rw [Wheel.liveIndex, Option.bind_eq_bind, Option.bind_eq_some_iff]
  constructor
  · rintro ⟨⟨wheel, g, j⟩, hparts, hlive⟩
    simp only [ne_eq, ite_not, Option.ite_none_right_eq_some, Option.bind_eq_bind,
      Option.bind_eq_some_iff, Option.some_inj] at hlive
    obtain ⟨rfl, e, he, hentry, rfl⟩ := hlive
    refine ⟨g, e.core.content, hparts, ?_, hentry.1, hentry.2⟩
    rw [contents_of_entries, he, Option.map_some]
  · rintro ⟨g, s, hparts, hs, hgeneration, htoken⟩
    rw [contents_of_entries, Option.map_eq_some_iff] at hs
    obtain ⟨e, he, rfl⟩ := hs
    refine ⟨_, hparts, ?_⟩
    simp only [ne_eq, not_true_eq_false, if_false, he]
    exact if_pos ⟨hgeneration, htoken⟩

/-- The deadline that is written before an entry is filed is overwritten. -/
theorem file_setEntry {e : Entry T} (he : w.entries[i]? = some e) :
  (w.setEntry i { e with deadline := d }).file i d = w.file i d
  := by
  have hlt := (List.getElem?_eq_some_iff.mp he).1
  have hentry : w.entry i = .ok e := by
    rw [Wheel.entry, he]
  have hentry' : (w.setEntry i { e with deadline := d }).entry i = .ok { e with deadline := d } := by
    rw [Wheel.entry, Wheel.setEntry, List.getElem?_set_self hlt]
  rw [Wheel.file, Wheel.file, hentry, hentry']
  simp only [ok_bind, Wheel.setEntry, List.set_set]
  rfl

namespace Wheel.Good

/-- An insertion fails and changes nothing, or stores the timer in an empty position. -/
theorem tryInsertAt (h : w.Good) (d : ℕ) (t : T) :
  (∃ kind, w.tryInsertAt d t = .ok (w, .error ⟨kind, t⟩) ∧
      (kind = .full ∨ MAX_TICK < d ∨ w.cursor + MAX_DELAY_TICKS < d)) ∨
    ∃ w' id i s, w.tryInsertAt d t = .ok (w', .ok id) ∧ w'.Good ∧ w'.cursor = w.cursor ∧
      w'.wheelId = w.wheelId ∧ id.parts = some (w.wheelId, s.generation + 1, i) ∧
      w.contents[i]? = some s ∧ s.token = none ∧
      w'.contents = w.contents.set i ⟨d, s.generation + 1, some t⟩
  := by
  rw [Wheel.tryInsertAt]
  by_cases hmax : MAX_TICK < d
  · rw [if_pos hmax]
    exact Or.inl ⟨_, rfl, Or.inr (Or.inl hmax)⟩
  rw [if_neg hmax]
  by_cases hfits : d ≤ w.cursor + MAX_DELAY_TICKS
  swap
  · rw [if_pos (by simpa [← deadlineFits_iff] using hfits)]
    exact Or.inl ⟨_, rfl, Or.inr (Or.inr (Nat.not_le.mp hfits))⟩
  rw [if_neg (by simpa [← deadlineFits_iff] using hfits)]
  by_cases hfull : w.free = NIL
  · rw [if_pos hfull]
    exact Or.inl ⟨_, rfl, Or.inl rfl⟩
  rw [if_neg hfull]
  right
  obtain ⟨lists, free, hlinks⟩ := h.links
  obtain ⟨w₁, i, c, rest, rfl, hallocate, hlinks₁, hc, htoken, hcores₁, hcursor₁, hid₁, hevent₁,
    hocc₁⟩ := hlinks.allocate hfull d t
  have hlt := (List.getElem?_eq_some_iff.mp hc).1
  have hc₁ : w₁.cores[i]? = some (c.issued d t) := by
    rw [hcores₁, List.getElem?_set_self hlt]
  have hbound : w₁.cursor ≤ MAX_TICK := hcursor₁ ▸ h.cursor
  have hfits₁ : d ≤ w₁.cursor + MAX_DELAY_TICKS := hcursor₁ ▸ hfits
  obtain ⟨w₂, hfile, hlinks₂, hcores₂, -, hcursor₂, hid₂, hevent₂⟩ :=
    hlinks₁.file hc₁ hbound (by omega) hfits₁ rfl
  have hexact₁ : w₁.Exact := by
    apply Soonest.vacate h.event _ _ hcursor₁ hevent₁
    · intro q hocc
      rwa [Wheel.Occupied, hocc₁] at hocc
    · intro q hocc _
      rwa [Wheel.Occupied, hocc₁]
  have hcursor := hcursor₂.trans hcursor₁
  have hid := hid₂.trans hid₁
  have hcores : w₂.cores = w.cores.set i ((c.issued d t).moved d (place w₁.cursor d)) := by
    rw [hcores₂, hcores₁, List.set_set]
  have hself : w₂.cores[i]? = some ((c.issued d t).moved d (place w₁.cursor d)) := by
    rw [hcores, List.getElem?_set_self hlt]
  obtain ⟨e, -, hentry, hcore, -, -⟩ := exists_entry hself
  have hvalid := hlinks₂.valid i _ hself
  have hgeneration : e.generation = c.generation + 1 := by
    have heq := congrArg Core.generation hcore
    exact heq
  have hindex : i < NIL := by
    have hsize := hlinks.size
    omega
  obtain ⟨id, hnew, hparts⟩ := TimerId.new_spec (hid ▸ h.wheel)
    (show e.generation ≠ 0 ∧ e.generation < 2 ^ 64 by
      have hle := hvalid.generation
      have hword : U64_MAX + 1 = 2 ^ 64 := by decide
      rw [show ((c.issued d t).moved d (place w₁.cursor d)).generation = c.generation + 1 from rfl]
        at hle
      omega) hindex
  refine ⟨w₂, id, i, c.content, ?_, ?_, hcursor, hid, ?_, contents_getElem? hc, htoken,
    contents_set hcores⟩
  · rw [hallocate, ok_bind]
    simp only
    rw [hfile, ok_bind, hentry, ok_bind, hnew, ok_bind]
  · refine ⟨⟨_, _, hlinks₂⟩, ?_, exact_file hexact₁ hlinks₁ hlinks₂ hcursor₂ hevent₂, hcursor ▸ h.cursor,
      hid ▸ h.wheel⟩
    rw [hcursor]
    apply each_set h.filed hcores
    rw [hcursor₁]
    exact filed_place h.cursor (Nat.not_lt.mp hmax) hfits
  · rw [hparts, hid, hgeneration]
    rfl

/-- The entry of a live handle, and whether its slot is the next to be visited for it alone. -/
theorem entry_of_liveIndex {id : TimerId} (h : w.Good) (hid : w.liveIndex id = some i) :
  ∃ lists free c e, Links w lists [] free ∧ w.cores[i]? = some c ∧ c.token.isSome = true ∧
    w.entry i = .ok e ∧ (w.isEarliest e = true ↔ lists c.position = [i] ∧
      slotWakeup w.cursor c.position.1 c.position.2 = w.nextEvent)
  := by
  obtain ⟨lists, free, hlinks⟩ := h.links
  obtain ⟨g, s, -, hs, -, htoken⟩ := liveIndex_eq_some.mp hid
  rw [Wheel.contents, List.getElem?_map, Option.map_eq_some_iff] at hs
  obtain ⟨c, hc, rfl⟩ := hs
  obtain ⟨e, -, hentry, hcore, hnext, hprev⟩ := exists_entry hc
  exact ⟨lists, free, c, e, hlinks, hc, htoken, hentry,
    isEarliest_iff hlinks hc htoken hcore hnext hprev⟩

/-- Cancelling through a live handle takes the timer. -/
theorem cancel {id : TimerId} (h : w.Good) (hid : w.liveIndex id = some i) :
  ∃ w' s t, w.cancel id = .ok (w', some t) ∧ w'.Good ∧ w'.cursor = w.cursor ∧
    w'.wheelId = w.wheelId ∧ w.contents[i]? = some s ∧ s.token = some t ∧
    w'.contents = w.contents.set i { s with token := none }
  := by
  obtain ⟨lists, free, c, e, hlinks, hc, htoken, hentry, hearliest⟩ := h.entry_of_liveIndex hid
  obtain ⟨w₁, hunlink, hlinks₁, hcores₁, hcursor₁, hid₁, hevent₁⟩ := hlinks.unlink hc htoken
  have hc₁ : w₁.cores[i]? = some c := by rw [hcores₁, hc]
  obtain ⟨w₂, t, free₂, hdischarge, hlinks₂, htoken₂, hcores₂, -, hcursor₂, hid₂, hevent₂, -⟩ :=
    hlinks₁.discharge hc₁ "a generation-checked live entry holds a token"
  have hcursor := hcursor₂.trans hcursor₁
  have hwheel := hid₂.trans hid₁
  have hcores : w₂.cores = w.cores.set i c.released := by rw [hcores₂, hcores₁]
  have hcontents : w₂.contents = w.contents.set i { c.content with token := none } :=
    contents_set hcores
  refine ⟨if w.isEarliest e then w₂.refresh else w₂, c.content, t, ?_, ?_, ?_, ?_,
    contents_getElem? hc, htoken₂, ?_⟩
  · rw [Wheel.cancel, hid]
    simp only
    rw [hentry, ok_bind, hunlink, ok_bind, hdischarge, ok_bind]
  · apply good_settle hlinks₂ _ (hcursor ▸ h.cursor) (hwheel ▸ h.wheel)
    · intro hnot
      apply exact_unlink h.event hlinks hlinks₂ _ hcursor (hevent₂.trans hevent₁)
      rw [← hearliest, hnot]
      simp
    · rw [hcursor]
      intro c' hc' htoken'
      rw [hcores] at hc'
      rcases List.mem_or_eq_of_mem_set hc' with hold | rfl
      · apply h.filed c' hold htoken'
      · cases htoken'
  · split <;> exact hcursor
  · split <;> exact hwheel
  · split <;> exact hcontents

/-- Rescheduling through a live handle moves the timer. -/
theorem rescheduleAt {id : TimerId} (h : w.Good) (hid : w.liveIndex id = some i)
    (hmax : d ≤ MAX_TICK) (hfits : d ≤ w.cursor + MAX_DELAY_TICKS) :
  ∃ w' s, w.rescheduleAt id d = .ok (w', .ok ()) ∧ w'.Good ∧ w'.cursor = w.cursor ∧
    w'.wheelId = w.wheelId ∧ w.contents[i]? = some s ∧
    w'.contents = w.contents.set i { s with deadline := d }
  := by
  obtain ⟨lists, free, c, e, hlinks, hc, htoken, hentry, hearliest⟩ := h.entry_of_liveIndex hid
  obtain ⟨w₁, hunlink, hlinks₁, hcores₁, hcursor₁, hid₁, hevent₁⟩ := hlinks.unlink hc htoken
  have hc₁ : w₁.cores[i]? = some c := by rw [hcores₁, hc]
  obtain ⟨e₁, he₁, hentry₁, -, -, -⟩ := exists_entry hc₁
  have hbound : w₁.cursor ≤ MAX_TICK := hcursor₁ ▸ h.cursor
  have hfits₁ : d ≤ w₁.cursor + MAX_DELAY_TICKS := hcursor₁ ▸ hfits
  obtain ⟨w₂, hfile, hlinks₂, hcores₂, -, hcursor₂, hid₂, hevent₂⟩ :=
    hlinks₁.file hc₁ hbound hmax hfits₁ rfl
  have hcursor := hcursor₂.trans hcursor₁
  have hwheel := hid₂.trans hid₁
  have hcores : w₂.cores = w.cores.set i (c.moved d (place w₁.cursor d)) := by
    rw [hcores₂, hcores₁]
  have hcontents : w₂.contents = w.contents.set i { c.content with deadline := d } :=
    contents_set hcores
  refine ⟨if w.isEarliest e then w₂.refresh else w₂, c.content, ?_, ?_, ?_, ?_,
    contents_getElem? hc, ?_⟩
  · rw [Wheel.rescheduleAt, if_neg (by omega), if_neg (by simpa [← deadlineFits_iff] using hfits), hid]
    simp only
    rw [hentry, ok_bind, hunlink, ok_bind, hentry₁, ok_bind, file_setEntry he₁, hfile, ok_bind]
  · apply good_settle hlinks₂ _ (hcursor ▸ h.cursor) (hwheel ▸ h.wheel)
    · intro hnot
      apply exact_file _ hlinks₁ hlinks₂ hcursor₂ hevent₂
      apply exact_unlink h.event hlinks hlinks₁ _ hcursor₁ hevent₁
      rw [← hearliest, hnot]
      simp
    · rw [hcursor]
      apply each_set h.filed hcores
      rw [hcursor₁]
      exact filed_place h.cursor hmax hfits
  · split <;> exact hcursor
  · split <;> exact hwheel
  · split <;> exact hcontents

end Wheel.Good

end Grommet.Timer
