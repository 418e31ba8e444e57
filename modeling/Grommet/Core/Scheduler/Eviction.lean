import Grommet.Core.Scheduler.Idling
import Mathlib.Order.Bounds.Basic

/-!
# How far an eviction goes

An eviction releases keys from the front of the idle list as long as they are ripe: a key is
ripe when it has been idle long enough, or when the keys that are not being flushed, without
those that the eviction released before it, are more than the cap allows.
-/

open Checked

namespace Grommet

variable {K P S : Type} {CLASSES : ℕ} [DecidableEq K]

namespace Book

variable {b : Book K P S} {l : Ledger K} {k : K} {m : ℕ}

/-- What a release makes of the page of the oldest idle key. -/
def released (page : Page P S) : Option (Page P S) :=
  page.resident.map fun _ => { page with resident := none, presence := .evicting }

/-- The release of the oldest idle key. -/
theorem release_eq (hg : b.Good CLASSES l) {rest : List K} (hidle : b.idle = k :: rest) :
  b.release.2 = ((b.resident k).map (k, ·)).toList ∧
  b.release.1.page = Function.update b.page k ((b.page k).bind released)
  := by
  obtain ⟨page, hpage⟩ := Option.isSome_iff_exists.mp (hg.page_of_idle k (by simp [hidle]))
  rw [resident, hpage]
  simp only [release, hidle, hpage, Option.bind_some, released]
  cases page.resident <;> exact ⟨rfl, rfl⟩

/-- An eviction hands out the states of the oldest idle keys, and changes the pages of these
keys only. -/
theorem evict_eq (hg : b.Good CLASSES l) (hm : m ≤ b.idle.length) :
  (b.evict m).2 = (b.idle.take m).filterMap (fun k => (b.resident k).map (k, ·)) ∧
  ∀ k, (b.evict m).1.page k =
    if k ∈ b.idle.take m then (b.page k).bind released else b.page k
  := by
  induction m generalizing b l with
  | zero => simp [evict]
  | succ m ih =>
    cases hidle : b.idle with
    | nil => simp [hidle] at hm
    | cons k rest =>
      have hrest := hg.release_idle hidle
      obtain ⟨hout, hpage⟩ := release_eq hg hidle
      have hnodup : (k :: rest).Nodup := by
        rw [← hidle]
        apply hg.nodup .idle
      rw [List.nodup_cons] at hnodup
      obtain ⟨hk, -⟩ := hnodup
      obtain ⟨ihout, ihpage⟩ := ih hg.release (by rw [hrest]; simpa [hidle] using hm)
      rw [hrest] at ihout ihpage
      constructor
      · have hresident : ∀ j ∈ rest.take m, b.release.1.resident j = b.resident j := by
          intro j hj
          rw [resident, hpage, Function.update_of_ne, resident]
          rintro rfl
          apply hk (List.mem_of_mem_take hj)
        have hsame : (rest.take m).filterMap (fun j => (b.release.1.resident j).map (j, ·)) =
            (rest.take m).filterMap fun j => (b.resident j).map (j, ·) := by
          apply List.filterMap_congr
          intro j hj
          rw [hresident j hj]
        have hevict : (b.evict (m + 1)).2 = b.release.2 ++ (b.release.1.evict m).2 := rfl
        rw [hevict, hout, ihout, hsame, List.take_succ_cons, List.filterMap_cons]
        cases b.resident k <;> rfl
      · intro j
        have hevict : (b.evict (m + 1)).1 = (b.release.1.evict m).1 := rfl
        rw [hevict, ihpage, hpage, List.take_succ_cons]
        by_cases hj : j = k
        · subst hj
          have hnot : j ∉ rest.take m := fun hmem => hk (List.mem_of_mem_take hmem)
          rw [if_neg hnot, Function.update_self, if_pos (by simp)]
        · rw [Function.update_of_ne hj]
          simp [hj]

end Book

namespace Scheduler

variable {cfg : Config CLASSES} {s s₁ s' : Scheduler K P S CLASSES} {b : Book K P S}
  {l : Ledger K} {own : K → List (ℕ × Item P)} {free : List ℕ} {k : K} {now : Duration}

/-- The number of keys in the map that are not being flushed. -/
def residents (s : Scheduler K P S CLASSES) : ℕ :=
  (s.keys.keys.filter fun k => s.presence k ≠ some .evicting).length

/-- The idle key at a place of the idle list is released at its turn, when the keys in front of
it have been: it has been idle long enough, or too many keys are left. -/
def Ripe (s : Scheduler K P S CLASSES) (now : Duration) (place : ℕ) : Prop :=
  ∃ k since, s.idleList[place]? = some k ∧ s.idling k = some since ∧
    (s.cfg.evictAfter ≤ now - since ∨ ∃ max ∈ s.cfg.maxResident, max < s.residents - place)

/-- Keys that have a presence other than that of a flush. -/
theorem residents_eq {keys : List K} (hnodup : keys.Nodup)
    (hmem : ∀ k, k ∈ keys ↔ ∃ p, s.presence k = some p ∧ p ≠ .evicting) :
  s.residents = keys.length
  := by
  apply List.Perm.length_eq
  apply (List.perm_ext_iff_of_nodup (s.keys.keys_nodup.filter _) hnodup).mpr
  intro k
  rw [List.mem_filter, hmem, ← AList.mem_keys, ← AList.lookup_isSome, Scheduler.presence]
  cases s.keys.lookup k <;> simp

/-- The map holds the keys that are being flushed and the other ones. -/
theorem Represents.residents (h : s.Represents cfg b own free) (hg : b.Good CLASSES l) :
  s.residents = s.keys.keys.length - s.evicting
  := by
  have hflushing : (s.keys.keys.filter fun k => s.presence k = some .evicting).length =
      s.evicting := by
    rw [h.evicting, hg.evicting]
    apply List.Perm.length_eq
    apply (List.perm_ext_iff_of_nodup (s.keys.keys_nodup.filter _) (hg.nodup .evicting)).mpr
    intro k
    rw [List.mem_filter, hg.mem, ← h.presence, ← AList.mem_keys, ← AList.lookup_isSome,
      Scheduler.presence]
    cases s.keys.lookup k <;> simp
  have hsplit := List.length_eq_length_filter_add (l := s.keys.keys)
    fun k => decide (s.presence k = some .evicting)
  rw [hflushing] at hsplit
  rw [Scheduler.residents]
  simp only [decide_not] at hsplit ⊢
  omega

/-- A release takes one key from those that are not being flushed. -/
theorem residents_release (hg : b.Good CLASSES l) (h : s.Represents cfg b own free)
    {own' : K → List (ℕ × Item P)} {free' : List ℕ} {rest : List K}
    (h' : s'.Represents cfg b.release.1 own' free') (hidle : b.idle = k :: rest) :
  s.residents = s'.residents + 1
  := by
  obtain ⟨-, hpage⟩ := Book.release_eq hg hidle
  have hpresence : ∀ j, s'.presence j =
      if j = k then ((b.page k).bind Book.released).map Page.presence else s.presence j := by
    intro j
    rw [h'.presence, Book.presence, hpage, h.presence]
    by_cases hj : j = k
    · subst hj
      rw [Function.update_self, if_pos rfl]
    · rw [Function.update_of_ne hj, if_neg hj, Book.presence]
  have hgone : ∀ p, s'.presence k = some p → p = .evicting := by
    intro p hp
    rw [hpresence, if_pos rfl] at hp
    cases hk : b.page k with
    | none =>
      rw [hk] at hp
      cases hp
    | some page =>
      cases hresident : page.resident <;>
        simp [hk, Book.released, hresident] at hp
      exact hp.symm
  let keys := s.keys.keys.filter fun k => s.presence k ≠ some .evicting
  have hnodup : keys.Nodup := s.keys.keys_nodup.filter _
  have hmem : ∀ j, j ∈ keys ↔ ∃ p, s.presence j = some p ∧ p ≠ .evicting := by
    intro j
    rw [List.mem_filter, ← AList.mem_keys, ← AList.lookup_isSome, Scheduler.presence]
    cases s.keys.lookup j <;> simp
  have hk : k ∈ keys := by
    rw [hmem, h.presence]
    exact ⟨.idle, ((hg.mem .idle k).mp (by simp [Book.standing, hidle])).2, by simp⟩
  have hrest : s'.residents = (keys.erase k).length := by
    apply residents_eq (hnodup.erase k)
    intro j
    rw [hnodup.mem_erase_iff, hmem]
    by_cases hj : j = k
    · subst hj
      constructor
      · rintro ⟨hne, -⟩
        exact (hne rfl).elim
      · rintro ⟨p, hp, hne⟩
        exact (hne (hgone p hp)).elim
    · rw [hpresence, if_neg hj]
      simp [hj]
  rw [hrest, List.length_erase_of_mem hk]
  have hpos := List.length_pos_of_mem hk
  change keys.length = keys.length - 1 + 1
  omega

/-- `s'` differs from `s` in what it knows of the released keys, in links and in counts. -/
structure Sweeps (s s' : Scheduler K P S CLASSES) (released : List K) : Prop where
  rest : s' = { s with
    keys := s'.keys, idleHead := s'.idleHead, idleTail := s'.idleTail, idle := s'.idle,
    evicting := s'.evicting }
  core : ∀ k ∉ released, s'.core k = s.core k

theorem Sweeps.refl (s : Scheduler K P S CLASSES) :
  s.Sweeps s []
  := ⟨rfl, fun _ _ => rfl⟩

theorem Sweeps.idling {released : List K} (h : s.Sweeps s' released) (hk : k ∉ released) :
  s'.idling k = s.idling k
  := by
  rw [Scheduler.idling, h.core k hk, Scheduler.idling]

/-- The release of the oldest idle key. -/
theorem release_sweeps {out out' : List (K × S)} (h₁ : s.idleUnlinkHead = .ok s₁)
    (h₂ : s₁.release k out = .ok (s', out')) :
  s.Sweeps s' [k]
  := by
  have hlinks := idleUnlinkHead_links h₁
  simp only [release, bind_eq_ok, expect_eq_ok] at h₂
  obtain ⟨slot, -, _, -, h₂⟩ := h₂
  cases hresident : slot.resident with
  | some state =>
    rw [hresident] at h₂
    cases h₂
    constructor
    · rw [hlinks.rest]
    · intro j hj
      rw [core_insert (s := s₁) (k := k) rfl, Function.update_of_ne (by simpa using hj), hlinks.core]
  | none =>
    rw [hresident] at h₂
    cases h₂
    constructor
    · rw [hlinks.rest]
    · intro j hj
      rw [core, AList.lookup_erase_eq, Function.update_of_ne (by simpa using hj), ← hlinks.core]
      rfl

theorem Sweeps.trans {released : List K} (h₁ : s.Sweeps s₁ [k]) (h₂ : s₁.Sweeps s' released) :
  s.Sweeps s' (k :: released)
  := by
  constructor
  · rw [h₂.rest, h₁.rest]
  · intro j hj
    rw [List.mem_cons, not_or] at hj
    rw [h₂.core j hj.2, h₁.core j (by simpa using hj.1)]

/-- A key that is ripe after a release was ripe before it. -/
theorem ripe_release (hg : b.Good CLASSES l) (h : s.Represents cfg b own free)
    {own' : K → List (ℕ × Item P)} {free' : List ℕ} {rest : List K}
    (h' : s'.Represents cfg b.release.1 own' free') (hidle : b.idle = k :: rest)
    (hsweeps : s.Sweeps s' [k]) (place : ℕ) :
  s'.Ripe now place ↔ s.Ripe now (place + 1)
  := by
  have hnodup := hg.nodup .idle
  rw [Book.standing, hidle, List.nodup_cons] at hnodup
  have hsince : ∀ j, rest[place]? = some j → s'.idling j = s.idling j := by
    intro j hj
    apply hsweeps.idling
    rw [List.mem_singleton]
    rintro rfl
    apply hnodup.1 (List.mem_of_getElem? hj)
  have hleft : s'.residents - place = s.residents - (place + 1) := by
    rw [residents_release hg h h' hidle]
    omega
  rw [Ripe, Ripe, h'.idleList, h.idleList, hg.release_idle hidle, hidle, h'.config, h.config, hleft,
    List.getElem?_cons_succ]
  constructor
  · rintro ⟨j, since, hj, hs, hripe⟩
    refine ⟨j, since, hj, ?_, hripe⟩
    rw [← hsince j hj, hs]
  · rintro ⟨j, since, hj, hs, hripe⟩
    refine ⟨j, since, hj, ?_, hripe⟩
    rw [hsince j hj, hs]

/-- The oldest idle key is ripe when the sweep finds that it may be released. -/
theorem ripe_zero (hg : b.Good CLASSES l) (h : s.Represents cfg b own free) {rest : List K}
    (hidle : b.idle = k :: rest) {slot : Slot K S} (hslot : s.keys.lookup k = some slot) :
  s.Ripe now 0 ↔ s.cfg.evictAfter ≤ now - slot.idleSince ∨
    ∃ max ∈ s.cfg.maxResident, max < s.keys.keys.length - s.evicting
  := by
  have hpresence : s.presence k = some .idle := by
    rw [h.presence]
    apply ((hg.mem .idle k).mp (by simp [Book.standing, hidle])).2
  rw [Scheduler.presence, hslot, Option.map_some, Option.some.injEq] at hpresence
  have hsince : s.idling k = some slot.idleSince := by
    rw [idling_of_lookup hslot, Slot.idling, if_pos hpresence]
  rw [← h.residents hg, Ripe, h.idleList, hidle]
  constructor
  · rintro ⟨j, since, hj, hs, hripe⟩
    cases hj
    rw [hsince] at hs
    cases hs
    apply hripe
  · intro hripe
    exact ⟨k, slot.idleSince, rfl, hsince, hripe⟩

/-- The places up to which the sweep goes. -/
def Span (s : Scheduler K P S CLASSES) (now : Duration) (iters : ℕ) : Set ℕ :=
  { m | m ≤ iters ∧ ∀ place < m, s.Ripe now place }

theorem span_of_not_ripe {iters : ℕ} (h : ¬ s.Ripe now 0) :
  IsGreatest (s.Span now iters) 0
  := by
  constructor
  · exact ⟨Nat.zero_le _, fun place hplace => (Nat.not_lt_zero place hplace).elim⟩
  · rintro m ⟨-, hripe⟩
    by_contra hm
    apply h (hripe 0 (by omega))

theorem span_succ {iters m : ℕ} (h : IsGreatest (s₁.Span now iters) m) (hripe : s.Ripe now 0)
    (hnext : ∀ place, s₁.Ripe now place ↔ s.Ripe now (place + 1)) :
  IsGreatest (s.Span now (iters + 1)) (m + 1)
  := by
  obtain ⟨⟨hm, hall⟩, hbound⟩ := h
  constructor
  · refine ⟨by omega, ?_⟩
    intro place hplace
    cases place with
    | zero => apply hripe
    | succ place =>
      rw [← hnext]
      apply hall place (by omega)
  · rintro n ⟨hn, hall'⟩
    cases n with
    | zero => apply Nat.zero_le
    | succ n =>
      have hle : n ≤ m := by
        apply hbound
        refine ⟨by omega, ?_⟩
        intro place hplace
        rw [hnext]
        apply hall' (place + 1) (by omega)
      omega

/-- The sweep releases the ripe keys at the front of the idle list, up to its limit. -/
theorem Represents.evictLoop_span (h : s.Represents cfg b own free) (hg : b.Good CLASSES l)
    (iters : ℕ) (out : List (K × S)) :
  ∃ m s', Scheduler.evictLoop now iters s out = .ok (s', out ++ (b.evict m).2) ∧
    s'.Represents cfg (b.evict m).1 own free ∧ IsGreatest (s.Span now iters) m ∧
    s.Sweeps s' (b.idle.take m) ∧ s.residents = s'.residents + m
  := by
  induction iters generalizing s b l out with
  | zero =>
    refine ⟨0, s, ?_, h, ?_, .refl s, rfl⟩
    · simp [Scheduler.evictLoop, Book.evict]
    · constructor
      · exact ⟨le_refl _, fun place hplace => (Nat.not_lt_zero place hplace).elim⟩
      · rintro m ⟨hm, -⟩
        apply hm
  | succ iters ih =>
    have hhead := h.idleHead
    cases hidle : b.idle with
    | nil =>
      rw [hidle] at hhead
      refine ⟨0, s, ?_, h, ?_, .refl s, rfl⟩
      · simp [Scheduler.evictLoop, hhead, Book.evict]
      · apply span_of_not_ripe
        rintro ⟨j, -, hj, -⟩
        rw [h.idleList, hidle] at hj
        cases hj
    | cons k rest =>
      rw [hidle, List.head?_cons] at hhead
      obtain ⟨slot, hslot⟩ := core_isSome_iff.mp
        (h.core_of_idle hg.page_of_idle k (by simp [hidle]))
      have hripe : s.Ripe now 0 ↔ _ := ripe_zero hg h hidle hslot
      rw [Scheduler.evictLoop, hhead]
      simp only [hslot, expect_some, ok_bind]
      rw [sub_of_le (h.evicting_le hg), ok_bind]
      split
      · rename_i hyoung
        refine ⟨0, s, ?_, h, ?_, .refl s, rfl⟩
        · simp [Book.evict]
        · apply span_of_not_ripe
          rw [hripe]
          simpa [Option.any_eq_false] using hyoung
      · rename_i hold
        obtain ⟨s₁, s₂, hs₁, hs₂, hr₂⟩ := h.release hg hidle out
        have hsweeps := release_sweeps hs₁ hs₂
        obtain ⟨m, s', hs', hr', hspan, hrest, hleft⟩ := ih hr₂ hg.release (out ++ b.release.2)
        rw [hg.release_idle hidle] at hrest
        refine ⟨m + 1, s', ?_, hr', ?_, ?_, ?_⟩
        · rw [hs₁, ok_bind, hs₂, ok_bind, hs', List.append_assoc]
          rfl
        · apply span_succ hspan
          · rw [hripe]
            by_contra hyoung
            apply hold
            simpa [Option.any_eq_false] using hyoung
          · apply ripe_release hg h hr₂ hidle hsweeps
        · rw [List.take_succ_cons]
          apply hsweeps.trans hrest
        · rw [residents_release hg h hr₂ hidle, hleft]
          omega

/-- An eviction that appends `pushed` releases the first `m` idle keys and nothing else. -/
structure Evicts (s : Scheduler K P S CLASSES) (now : Duration) (s' : Scheduler K P S CLASSES)
    (pushed : List (K × S)) (m : ℕ) : Prop where
  /-- It goes as far as the keys are ripe, and not beyond its limit. -/
  span : IsGreatest (s.Span now s.cfg.evictIters) m
  /-- Every key that it released left one key less. -/
  residents : s'.residents = s.residents - m
  idle : s'.idleList = s.idleList.drop m
  /-- The states of the released keys are handed out in the order of the idle list. -/
  pushed : pushed = (s.idleList.take m).filterMap fun k => (s.resident k).map (k, ·)
  quiesced : ∀ k ∈ s.idleList.take m, (s.resident k).isSome →
    s'.presence k = some .evicting ∧ s'.resident k = none
  removed : ∀ k ∈ s.idleList.take m, s.resident k = none → s'.keys.lookup k = none
  contents : s'.contents = s.contents
  others : ∀ k ∉ s.idleList.take m, s'.core k = s.core k
  ready : s'.ready = s.ready

/-- The sweep releases no more keys than there are idle ones. -/
theorem Span.le_length {iters m : ℕ} (h : IsGreatest (s.Span now iters) m) :
  m ≤ s.idleList.length
  := by
  cases m with
  | zero => apply Nat.zero_le
  | succ m =>
    obtain ⟨k, -, hk, -⟩ := h.1.2 m (by omega)
    obtain ⟨hlt, -⟩ := List.getElem?_eq_some_iff.mp hk
    exact hlt

/-- A sweep that the book makes as well is an eviction. -/
theorem Represents.evicts {m : ℕ} (h : s.Represents cfg b own free) (hg : b.Good CLASSES l)
    (h' : s'.Represents cfg (b.evict m).1 own free)
    (hspan : IsGreatest (s.Span now s.cfg.evictIters) m) (hsweeps : s.Sweeps s' (b.idle.take m))
    (hleft : s.residents = s'.residents + m) :
  s.Evicts now s' (b.evict m).2 m
  := by
  have hm := Span.le_length hspan
  rw [h.idleList] at hm
  obtain ⟨hout, hpage⟩ := Book.evict_eq hg hm
  have hresident : s.resident = b.resident := by
    funext k
    apply h.resident
  constructor
  · apply hspan
  · omega
  · rw [h'.idleList, h.idleList, Book.evict_idle hg]
  · rw [h.idleList, hresident, hout]
  · intro k hk hstate
    rw [h.idleList] at hk
    rw [hresident] at hstate
    have hpk := hpage k
    rw [if_pos hk] at hpk
    rw [h'.presence, h'.resident, Book.presence, Book.resident, hpk]
    rw [Book.resident] at hstate
    cases hpage : b.page k with
    | none =>
      rw [hpage] at hstate
      cases hstate
    | some page =>
      rw [hpage, Option.bind_some] at hstate
      obtain ⟨state, hstate⟩ := Option.isSome_iff_exists.mp hstate
      simp [Book.released, hstate]
  · intro k hk hnone
    rw [h.idleList] at hk
    rw [hresident] at hnone
    apply (h'.lookup_none _).1
    rw [hpage, if_pos hk]
    rw [Book.resident] at hnone
    cases hpage : b.page k with
    | none => rfl
    | some page =>
      rw [hpage, Option.bind_some] at hnone
      simp [Book.released, hnone]
  · funext k
    rw [h'.contents, h.contents]
    apply (Book.load_evict hg).1 k
  · rw [h.idleList]
    apply hsweeps.core
  · rw [hsweeps.rest]

end Scheduler

namespace Watch

open Scheduler

variable {cfg : Config CLASSES} {w : Watch K P S CLASSES} {t : List (Event K P S)}

/-- In every run whose clock does not go back, the idle list holds the idle keys in the order of
the calls that last made them idle, with the times of these calls, and an eviction releases the
first of them for as long as they are ripe. -/
theorem evicts_least_recently_idled (h : Trail Step (start cfg) t w) :
  w.scheduler.idleList.Nodup ∧
  (∀ k, k ∈ w.scheduler.idleList ↔ w.scheduler.presence k = some .idle) ∧
  (∀ k ∈ w.scheduler.idleList, w.scheduler.idling k = some (w.idled k).2) ∧
  (w.scheduler.idleList.Pairwise fun j k =>
    (w.idled j).1 ≤ (w.idled k).1 ∧ (w.idled j).2 ≤ (w.idled k).2) ∧
  ∀ now out, ∃ s' pushed m, w.scheduler.evict now out = .ok (s', out ++ pushed) ∧
    w.scheduler.Evicts now s' pushed m
  := by
  have hinv := inv_of_trail h
  obtain ⟨a, -, ⟨own, free, hholds⟩, -⟩ := (run_of_trail h).account
  have hr : w.scheduler.Represents cfg a.book own free := hholds
  have hg := a.good
  have hmem : ∀ k, k ∈ w.scheduler.idleList ↔ w.scheduler.presence k = some .idle := by
    intro k
    have hiff := hg.mem .idle k
    rw [not_false_eq_true, true_and, ← hr.presence] at hiff
    rw [hr.idleList]
    apply hiff
  refine ⟨?_, hmem, ?_, hinv.order, ?_⟩
  · rw [hr.idleList]
    apply hg.nodup .idle
  · intro k hk
    apply hinv.since k ((hmem k).mp hk)
  · intro now out
    obtain ⟨m, s', hevict, hr', hspan, hsweeps, hleft⟩ :=
      hr.evictLoop_span hg w.scheduler.cfg.evictIters out
    exact ⟨s', _, m, hevict, hr.evicts hg hr' hspan hsweeps hleft⟩

/-- Of two keys that are idle, the one that has been for long enough is evicted. -/
theorem evicts_least_recently_idled_completed :
  ∃ (w : Watch ℕ ℕ ℕ 1) (t : List (Event ℕ ℕ ℕ)) (s' : Scheduler ℕ ℕ ℕ 1) (m : ℕ),
    Trail Step (start { Config.new fun _ => 1 with evictAfter := 10 }) t w ∧
    w.scheduler.idleList = [7, 8] ∧ w.scheduler.evict 13 [] = .ok (s', [(7, 50)]) ∧
    w.scheduler.Evicts 13 s' [(7, 50)] m
  := by
  have h₀ := Run.start (K := ℕ) (P := ℕ) (S := ℕ)
    { Config.new fun _ : Fin 1 => 1 with evictAfter := 10 }
  have h₁ := h₀.call (.admitItem ⟨7, 0, none, 40⟩) (by decide) rfl
  have h₂ := h₁.call (.next 0 1) trivial rfl
  have h₃ := h₂.call (.complete ⟨7, 0, .keep 50⟩ 2) (by decide) rfl
  have h₄ := h₃.call (.admitItem ⟨8, 0, none, 41⟩) (by decide) rfl
  have h₅ := h₄.call (.next 0 3) trivial rfl
  have h₆ := h₅.call (.complete ⟨8, 0, .keep 60⟩ 12) (by decide) rfl
  obtain ⟨w, htrail, hscheduler, -, -⟩ := trail_of_run h₆ (by decide)
  obtain ⟨-, -, -, -, hevict⟩ := evicts_least_recently_idled htrail
  obtain ⟨s', pushed, m, hok, hevicts⟩ := hevict 13 []
  have hpushed : pushed = [(7, 50)] := by
    have hsame := hok
    rw [hscheduler] at hsame
    cases hsame
    rfl
  subst hpushed
  refine ⟨w, _, s', m, htrail, ?_, hok, hevicts⟩
  rw [hscheduler]
  rfl

end Watch

end Grommet
