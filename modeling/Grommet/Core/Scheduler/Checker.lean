import Grommet.Core.Scheduler.Refine

/-!
# What the structural check establishes

`check_invariants` looks at each key of each ring and compares the number of ring entries with
the number of ready slots, and walks the idle list.  The walk ends, so that it meets no key
twice, and it meets as many keys as are idle, which are then all of them.  The rings are not
walked along links: a key that stands twice in its ring makes up for one that stands in none,
and the ring of an index beyond the classes takes its keys from the class that the index wraps
to.  Every scheduler that passes, reachable or not, has its ready keys once in their ring and in
no other just when neither happens.
-/

namespace Grommet

namespace Scheduler

variable {K P S : Type} {CLASSES : ℕ} [DecidableEq K] {s : Scheduler K P S CLASSES} {k : K}
  {slot : Slot K S}

/-- Every ready key occurs once in the ring of its class and in no other ring. -/
def ReadyOnce (s : Scheduler K P S CLASSES) : Prop :=
  ∀ k c, s.presence k = some (.ready c) → c.toNat < CLASSES ∧
    ∀ i : Fin CLASSES, (s.ready i).count k = if i.val = c.toNat then 1 else 0

/-- The walk of the idle list from its head ends, and meets the members of `l` in turn. -/
structure Walks (s : Scheduler K P S CLASSES) (l : List K) : Prop where
  head : l.head? = s.idleHead
  links : Follows s.nextLink none l

/-- Every idle key occurs once on the walk of the idle list. -/
def IdleOnce (s : Scheduler K P S CLASSES) : Prop :=
  ∃ l, s.Walks l ∧ ∀ k, s.presence k = some .idle → l.count k = 1

/-- No ring holds a key twice, and no ring beyond the classes of a `u8` holds one. -/
def Unrepeated (s : Scheduler K P S CLASSES) : Prop :=
  ∀ i, (s.ready i).Nodup ∧ (256 ≤ i.val → s.ready i = [])

/-! ### The single checks -/

section Passed

variable {α β : Type} {b : β}

/-- A step of a check that was passed. -/
theorem passed_bind {x : Except String α} {f : α → Except String β} (h : x >>= f = .ok b) :
  ∃ a, x = .ok a ∧ f a = .ok b
  := by
  cases x with
  | error e => cases h
  | ok a => exact ⟨a, rfl, h⟩

/-- A condition of a check that was passed. -/
theorem passed_guard {p : Prop} [Decidable p] {message : String} {f : Unit → Except String β}
    (h : (if p then Except.error message >>= f else f ()) = .ok b) :
  ¬ p ∧ f () = .ok b
  := by
  split at h
  · cases h
  · rename_i hp
    exact ⟨hp, h⟩

end Passed

theorem presence_eq_some {p : Presence} :
  s.presence k = some p ↔ ∃ slot, s.keys.lookup k = some slot ∧ slot.presence = p
  := by
  rw [presence, Option.map_eq_some_iff]

/-- The keys of a ring that passes are ready for its class. -/
theorem presence_of_checkRing {c : ClassId} {ring : List K} (h : s.checkRing c ring = .ok ())
    (hk : k ∈ ring) :
  s.presence k = some (.ready c)
  := by
  induction ring with
  | nil => cases hk
  | cons j ring ih =>
    rw [checkRing] at h
    split at h
    · rename_i slot hslot
      obtain ⟨_, ⟨⟩, h⟩ := passed_bind h
      obtain ⟨hpresence, h⟩ := passed_guard h
      obtain ⟨-, h⟩ := passed_guard h
      rcases List.mem_cons.mp hk with rfl | hk
      · exact presence_eq_some.mpr ⟨slot, hslot, not_not.mp hpresence⟩
      · exact ih h hk
    · cases h

/-- So are the keys of all rings. -/
theorem presence_of_checkRings {indices : List (Fin CLASSES)} {i : Fin CLASSES}
    (h : s.checkRings indices = .ok ()) (hi : i ∈ indices) (hk : k ∈ s.ready i) :
  s.presence k = some (.ready (UInt8.ofNat i.val))
  := by
  induction indices with
  | nil => cases hi
  | cons j indices ih =>
    rw [checkRings] at h
    obtain ⟨_, hring, h⟩ := passed_bind h
    rcases List.mem_cons.mp hi with rfl | hi
    · exact presence_of_checkRing hring hk
    · exact ih h hi

/-- A walk of the idle list that passes meets idle keys, as many as it counts, and ends. -/
theorem follows_of_checkIdle {fuel walked last : ℕ} {previous cursor final : Option K}
    (h : s.checkIdle fuel walked previous cursor = .ok (last, final)) :
  ∃ l : List K, l.head? = cursor ∧ Follows s.nextLink none l ∧
    (∀ k ∈ l, s.presence k = some .idle) ∧ last = walked + l.length
  := by
  induction fuel generalizing walked previous cursor with
  | zero => cases h
  | succ fuel ih =>
    cases cursor with
    | none =>
      cases h
      exact ⟨[], rfl, trivial, fun k hk => (List.not_mem_nil hk).elim, rfl⟩
    | some key =>
      rw [checkIdle] at h
      obtain ⟨-, h⟩ := passed_guard h
      split at h
      · rename_i slot hslot
        obtain ⟨_, ⟨⟩, h⟩ := passed_bind h
        obtain ⟨hpresence, h⟩ := passed_guard h
        obtain ⟨-, h⟩ := passed_guard h
        obtain ⟨l, hhead, hlinks, hidle, hlength⟩ := ih h
        refine ⟨key :: l, rfl, ⟨?_, hlinks⟩, ?_, ?_⟩
        · rw [nextLink, hslot, hhead, Option.or_none]
          rfl
        · intro k hk
          rcases List.mem_cons.mp hk with rfl | hk
          · exact presence_eq_some.mpr ⟨slot, hslot, not_not.mp hpresence⟩
          · exact hidle k hk
        · rw [List.length_cons, hlength]
          omega
      · cases h

/-! ### What was accepted -/

/-- What the check of a scheduler that passes has found of the rings and of the idle list. -/
structure Accepted (s : Scheduler K P S CLASSES) (l : List K) : Prop where
  rings : ∀ i, ∀ k ∈ s.ready i, s.presence k = some (.ready (UInt8.ofNat i.val))
  listed : ((List.finRange CLASSES).flatMap s.ready).length =
    s.keys.total (presenceWeight Presence.isReady)
  walks : s.Walks l
  idle : ∀ k ∈ l, s.presence k = some .idle
  walked : l.length = s.keys.total (presenceWeight (· == .idle))

theorem accepted_of_checkInvariants (h : s.checkInvariants = .ok ()) :
  ∃ l, s.Accepted l
  := by
  rw [checkInvariants] at h
  obtain ⟨-, h⟩ := passed_guard h
  obtain ⟨-, h⟩ := passed_guard h
  obtain ⟨-, h⟩ := passed_guard h
  obtain ⟨_, hrings, h⟩ := passed_bind h
  obtain ⟨hlisted, h⟩ := passed_guard h
  obtain ⟨_, -, h⟩ := passed_bind h
  obtain ⟨⟨walked, previous⟩, hwalk, h⟩ := passed_bind h
  obtain ⟨-, h⟩ := passed_guard h
  obtain ⟨-, h⟩ := passed_guard h
  have hwalked : walked = s.keys.total (presenceWeight (· == .idle)) := by
    by_contra hne
    rw [if_pos hne] at h
    cases h
  obtain ⟨l, hhead, hlinks, hidle, hlength⟩ := follows_of_checkIdle hwalk
  refine ⟨l, ?_, ?_, ⟨hhead, hlinks⟩, hidle, ?_⟩
  · intro i k hk
    exact presence_of_checkRings hrings (List.mem_finRange i) hk
  · rw [List.length_flatMap, ← Fin.sum_univ_def]
    exact not_not.mp hlisted
  · rw [← hwalked, hlength, Nat.zero_add]

namespace Accepted

variable {l : List K}

/-- The walk of the idle list meets every idle key once. -/
theorem idleOnce (h : s.Accepted l) :
  s.IdleOnce
  := by
  refine ⟨l, h.walks, ?_⟩
  intro k hk
  obtain ⟨slot, hslot, hpresence⟩ := presence_eq_some.mp hk
  apply List.count_eq_one_of_mem h.walks.links.nodup
  apply AList.mem_of_total_le (p := fun slot : Slot K S => slot.presence == .idle)
    h.walks.links.nodup _ _ hslot
  · rw [hpresence]
    rfl
  · intro j hj
    obtain ⟨slot, hslot, hpresence⟩ := presence_eq_some.mp (h.idle j hj)
    refine ⟨slot, hslot, ?_⟩
    rw [hpresence]
    rfl
  · exact Nat.le_of_eq h.walked.symm

/-- A key of a ring is ready for the class that the index of the ring wraps to. -/
theorem toNat_class {i : Fin CLASSES} {c : ClassId} (h : s.Accepted l) (hk : k ∈ s.ready i)
    (hc : s.presence k = some (.ready c)) :
  c.toNat = i.val % 256
  := by
  have hpresence := h.rings i k hk
  rw [hc] at hpresence
  cases hpresence
  exact UInt8.toNat_ofNat

theorem index_of_mem {i : Fin CLASSES} {c : ClassId} (h : s.Accepted l) (hrings : s.Unrepeated)
    (hi : k ∈ s.ready i) (hc : s.presence k = some (.ready c)) :
  i.val = c.toNat
  := by
  rw [h.toNat_class hi hc]
  symm
  apply Nat.mod_eq_of_lt
  by_contra hge
  rw [(hrings i).2 (Nat.le_of_not_lt hge)] at hi
  cases hi

/-- The rings together hold no key twice. -/
theorem nodup_rings (h : s.Accepted l) (hrings : s.Unrepeated) :
  ((List.finRange CLASSES).flatMap s.ready).Nodup
  := by
  apply List.nodup_flatMap.mpr
  refine ⟨fun i _ => (hrings i).1, ?_⟩
  apply (List.nodup_finRange CLASSES).imp
  intro i j hne k hi hj
  have hc := h.rings i k hi
  apply hne
  apply Fin.ext
  rw [h.index_of_mem hrings hi hc, h.index_of_mem hrings hj hc]

/-- A ready key stands in one of the rings, when these hold no key twice. -/
theorem mem_rings {c : ClassId} (h : s.Accepted l)
    (hnodup : ((List.finRange CLASSES).flatMap s.ready).Nodup)
    (hk : s.presence k = some (.ready c)) :
  ∃ i, k ∈ s.ready i
  := by
  obtain ⟨slot, hslot, hpresence⟩ := presence_eq_some.mp hk
  have hmem : k ∈ (List.finRange CLASSES).flatMap s.ready := by
    apply AList.mem_of_total_le (p := fun slot : Slot K S => slot.presence.isReady)
      hnodup _ _ hslot
    · rw [hpresence]
      rfl
    · intro j hj
      obtain ⟨i, -, hj⟩ := List.mem_flatMap.mp hj
      obtain ⟨slot, hslot, hpresence⟩ := presence_eq_some.mp (h.rings i j hj)
      refine ⟨slot, hslot, ?_⟩
      rw [hpresence]
      rfl
    · exact Nat.le_of_eq h.listed.symm
  obtain ⟨i, -, hi⟩ := List.mem_flatMap.mp hmem
  exact ⟨i, hi⟩

theorem readyOnce (h : s.Accepted l) (hrings : s.Unrepeated) :
  s.ReadyOnce
  := by
  intro k c hk
  obtain ⟨i, hi⟩ := h.mem_rings (h.nodup_rings hrings) hk
  have hclass := h.index_of_mem hrings hi hk
  refine ⟨?_, ?_⟩
  · rw [← hclass]
    exact i.isLt
  · intro j
    split
    · rename_i hj
      have heq : j = i := Fin.ext (hj.trans hclass.symm)
      rw [heq]
      exact List.count_eq_one_of_mem (hrings i).1 hi
    · rename_i hj
      apply List.count_eq_zero_of_not_mem
      intro hmem
      exact hj (h.index_of_mem hrings hmem hk)

theorem unrepeated (h : s.Accepted l) (honce : s.ReadyOnce) :
  s.Unrepeated
  := by
  intro i
  have hmember {k : K} (hk : k ∈ s.ready i) : i.val < 256 ∧ (s.ready i).count k = 1 := by
    have hpresence := h.rings i k hk
    obtain ⟨-, hcount⟩ := honce k _ hpresence
    have hpos := List.count_pos_iff.mpr hk
    have hone := hcount i
    rw [h.toNat_class hk hpresence] at hone
    split at hone
    · rename_i hi
      have hlt := Nat.mod_lt i.val (show 256 > 0 by decide)
      exact ⟨by omega, hone⟩
    · omega
  refine ⟨?_, ?_⟩
  · apply List.nodup_iff_count_le_one.mpr
    intro k
    by_cases hk : k ∈ s.ready i
    · exact Nat.le_of_eq (hmember hk).2
    · rw [List.count_eq_zero_of_not_mem hk]
      exact Nat.zero_le 1
  · intro hi
    apply List.eq_nil_iff_forall_not_mem.mpr
    intro k hk
    have hlt := (hmember hk).1
    omega

end Accepted

/-- A scheduler that passes the check, reachable or not, has every idle key once on its idle
list.  It has every ready key once in the ring of its class and in no other ring just when no
ring holds a key twice and no ring beyond the classes of a `u8` holds one. -/
theorem accepted_keys_once_iff (h : s.checkInvariants = .ok ()) :
  (s.ReadyOnce ∧ s.IdleOnce ↔ s.Unrepeated) ∧ s.IdleOnce
  := by
  obtain ⟨l, haccepted⟩ := accepted_of_checkInvariants h
  refine ⟨⟨?_, ?_⟩, haccepted.idleOnce⟩
  · rintro ⟨honce, -⟩
    exact haccepted.unrepeated honce
  · intro hrings
    exact ⟨haccepted.readyOnce hrings, haccepted.idleOnce⟩

/-- Two keys that were admitted stand once in the ring of their class. -/
theorem accepted_keys_once_iff_admitted :
  ∃ s₁ s₂ : Scheduler ℕ ℕ ℕ 1,
    (new (.new fun _ => 1)).admitItem ⟨1, 0, none, 40⟩ = .ok s₁ ∧
    s₁.admitItem ⟨2, 0, none, 41⟩ = .ok s₂ ∧
    s₂.checkInvariants = .ok () ∧ s₂.ReadyOnce ∧ s₂.IdleOnce
  := by
  refine ⟨_, _, rfl, rfl, rfl, ?_⟩
  refine (accepted_keys_once_iff ?_).1.mpr ?_
  · rfl
  · rw [Unrepeated]
    decide

/-- The check passes when the first of two keys stands twice in the ring and the second one
does not stand there. -/
theorem lost_key_passes :
  ∃ s₁ s₂ s₃ : Scheduler ℕ ℕ ℕ 1,
    (new (.new fun _ => 1)).admitItem ⟨1, 0, none, 40⟩ = .ok s₁ ∧
    s₁.admitItem ⟨2, 0, none, 41⟩ = .ok s₂ ∧
    s₃ = { s₂ with ready := fun _ => [1, 1] } ∧
    s₃.checkInvariants = .ok () ∧ s₃.presence 2 = some (.ready 0) ∧ 2 ∉ s₃.ready 0 ∧
    ¬ s₃.ReadyOnce
  := by
  refine ⟨_, _, _, rfl, rfl, rfl, rfl, rfl, by decide, ?_⟩
  intro honce
  obtain ⟨-, hcount⟩ := honce 2 0 rfl
  cases hcount 0

end Scheduler

end Grommet
