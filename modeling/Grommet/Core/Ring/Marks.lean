import Grommet.Core.Ring
import Grommet.Library.Laps
import Mathlib.Logic.Function.Basic

/-!
# What the stamps of a ring say

Positions are claimed, written, published, emptied and freed one after the other, and the
stamp and the value of a slot tell how far its position has come.  `Marks` ties the tail, the
head and the slots to the values in the order their positions were claimed, the number of
positions that the consumer has freed, and the position that each producer works at.
-/

open Checked

namespace Grommet.Ring

variable {ι T : Type}

/-! ### Positions in a word -/

/-- The ring encodes the laps `L`. -/
structure Inner.Fits (ring : Inner T) (L : Laps) : Prop where
  capacity : ring.capacity = L.capacity
  oneLap : ring.oneLap = L.lap
  size : L.size = wordSize
  power : ∃ k, L.lap = 2 ^ k
  length : ring.slots.length = L.capacity

variable {L : Laps} {ring ring' : Inner T} {n : ℕ}

theorem Inner.Fits.index (h : ring.Fits L) (n : ℕ) :
  ring.index (L.position n) = n % L.capacity
  := by
  obtain ⟨k, hk⟩ := h.power
  rw [Inner.index, h.oneLap, ← L.position_mod, hk, Nat.and_two_pow_sub_one_eq_mod]

theorem Inner.Fits.advance (h : ring.Fits L) (n : ℕ) :
  ring.advance (L.position n) = L.position (n + 1)
  := by
  rw [Inner.advance, h.index, h.capacity, h.oneLap, ← h.size]
  split
  · rename_i hlt
    exact (L.position_succ_of_lt hlt).symm
  · rename_i hge
    exact (L.position_succ_of_not_lt hge).symm

theorem Inner.Fits.setSlot (h : ring.Fits L) (p : ℕ) (f : Slot T → Slot T) :
  (ring.setSlot p f).Fits L
  := by
  refine ⟨h.capacity, h.oneLap, h.size, h.power, ?_⟩
  rw [Inner.setSlot, List.length_modify]
  exact h.length

theorem Inner.Fits.slot (h : ring.Fits L) {slot : Slot T} (n : ℕ) :
  ring.slot (L.position n) = .ok slot ↔ ring.slots[n % L.capacity]? = some slot
  := by
  rw [Inner.slot, h.index]
  cases ring.slots[n % L.capacity]? with
  | none =>
    constructor
    · rintro ⟨⟩
    · rintro ⟨⟩
  | some slot' =>
    constructor
    · rintro ⟨⟩
      rfl
    · rintro ⟨⟩
      rfl

/-- A new ring encodes laps of its capacity. -/
theorem bounded_fits {capacity : ℕ} (h : bounded capacity = .ok ring) :
  ∃ L : Laps, L.capacity = capacity ∧ ring.Fits L ∧ ring.tail = 0 ∧
    ring.slots = (List.range capacity).map fun index => ⟨index, none⟩
  := by
  obtain ⟨_, hpos, h⟩ := bind_eq_ok.mp h
  obtain ⟨_, hmax, h⟩ := bind_eq_ok.mp h
  rw [assert_eq_ok, decide_eq_true_eq] at hpos hmax
  cases h
  have hlog : Nat.log2 capacity < 63 := by
    apply (Nat.log2_lt (by omega)).mpr
    apply Nat.lt_of_le_of_lt hmax
    decide
  have hlap : nextPowerOfTwo (capacity + 1) = 2 ^ (Nat.log2 capacity + 1) := by
    rw [nextPowerOfTwo, if_neg (by omega), Nat.add_sub_cancel]
  have hsize : 2 ^ (Nat.log2 capacity + 1) * 2 ^ (63 - Nat.log2 capacity) = wordSize := by
    rw [← Nat.pow_add, wordSize]
    congr 1
    omega
  have htwo : 2 ≤ 2 ^ (63 - Nat.log2 capacity) := by
    apply Nat.le_self_pow
    omega
  refine ⟨⟨capacity, 2 ^ (Nat.log2 capacity + 1), 2 ^ (63 - Nat.log2 capacity), hpos,
    Nat.lt_log2_self, htwo⟩, rfl, ⟨rfl, hlap, hsize, ⟨_, rfl⟩, ?_⟩, rfl, rfl⟩
  rw [List.length_map, List.length_range]

/-- The period of the positions in terms of the ring. -/
theorem Inner.Fits.period (h : ring.Fits L) :
  ring.capacity * (wordSize / ring.oneLap) = L.period
  := by
  rw [h.capacity, h.oneLap, ← h.size, Laps.size, Nat.mul_div_cancel_left _ L.lap_pos]
  rfl

/-! ### The phases of a position -/

/-- How far a position has come. -/
inductive Phase where
  | free
  | claimed
  | written
  | published
  | emptied
  deriving DecidableEq

/-- What the slot of a position holds. -/
def content (L : Laps) (claims : List T) (n : ℕ) : Phase → Slot T
  | .free => ⟨L.position n, none⟩
  | .claimed => ⟨L.position n, none⟩
  | .written => ⟨L.position n, claims[n]?⟩
  | .published => ⟨(L.position n + 1) % wordSize, claims[n]?⟩
  | .emptied => ⟨(L.position n + 1) % wordSize, none⟩

/-- The phase of the position that a producer has claimed and not published. -/
def Push.site : Push T → Option Phase
  | writing _ _ => some .claimed
  | publishing _ => some .written
  | _ => none

/-- The word of the position that a producer works at. -/
def Push.word : Push T → Option ℕ
  | inspecting _ tail => some tail
  | claiming _ tail => some tail
  | writing _ tail => some tail
  | publishing tail => some tail
  | rereading _ tail => some tail
  | _ => none

/-- The value whose position a step of a producer claimed. -/
def Push.claimed : Push T → Push T → List T
  | claiming value _, writing _ _ => [value]
  | _, _ => []

/-- The position that a producer works at after a step, when `claims` positions are claimed
and it worked at `place` before. -/
def Push.place (claims place : ℕ) : Push T → ℕ
  | inspecting _ _ => claims
  | _ => place

/-- The number of positions that a step of the consumer frees. -/
def Pop.frees : Pop T → ℕ
  | freeing _ => 1
  | _ => 0

/-- What a call of `pop` knows of the position at the head. -/
def Pop.Knows (claims : List T) (freed : ℕ) (phase : Phase) : Pop T → Prop
  | emptying => freed < claims.length ∧ phase = .published
  | freeing value => freed < claims.length ∧ phase = .emptied ∧ value = claims[freed]?
  | _ => phase ≠ .emptied

/-- The tail, the head and the slots say how far each position has come. -/
structure Marks (L : Laps) (ring : Inner T) (head : ℕ) (pop : Pop T) (push : ι → Push T)
    (claims : List T) (freed : ℕ) (place : ι → ℕ) (phase : ℕ → Phase) : Prop where
  fits : ring.Fits L
  tail : ring.tail = L.position claims.length
  head : head = L.position freed
  le : freed ≤ claims.length
  room : claims.length ≤ freed + L.capacity
  slots : ∀ n, freed ≤ n → n < freed + L.capacity →
    ring.slots[n % L.capacity]? = some (content L claims n (phase n))
  free : ∀ n, freed ≤ n → n < freed + L.capacity → (phase n = .free ↔ claims.length ≤ n)
  word : ∀ i w, (push i).word = some w → w = L.position (place i) ∧ place i ≤ claims.length
  site : ∀ i p, (push i).site = some p →
    freed ≤ place i ∧ place i < claims.length ∧ phase (place i) = p
  value : ∀ i v w, push i = .writing v w → claims[place i]? = some v
  own : ∀ i j, (push i).site ≠ none → (push j).site ≠ none → place i = place j → i = j
  holder : ∀ n, freed ≤ n → n < claims.length → phase n = .claimed ∨ phase n = .written →
    ∃ i, (push i).site ≠ none ∧ place i = n
  emptied : ∀ n, freed ≤ n → n < freed + L.capacity → phase n = .emptied → n = freed
  pop : pop.Knows claims freed (phase freed)
  claiming : ∀ i v w, push i = .claiming v w → place i = claims.length →
    claims.length < freed + L.capacity

variable {head : ℕ} {pop : Pop T} {push : ι → Push T} {claims : List T} {freed : ℕ} {place : ι → ℕ}
  {phase : ℕ → Phase} {i : ι} {x : Push T}

/-- The stamps of a slot that is not free for the next lap. -/
theorem content_stamp_ne (h : L.size = wordSize) (claims : List T) (n : ℕ) (p : Phase) :
  (content L claims n p).stamp ≠ L.position (n + L.capacity)
  := by
  obtain ⟨hsame, hnext⟩ := L.position_add_capacity_ne n
  have hmod : (L.position n + 1) % wordSize = L.position n + 1 := by
    rw [← h]
    exact Nat.mod_eq_of_lt (L.position_add_one_lt n)
  cases p with
  | free => exact hsame.symm
  | claimed => exact hsame.symm
  | written => exact hsame.symm
  | published =>
    rw [content, hmod]
    exact hnext.symm
  | emptied =>
    rw [content, hmod]
    exact hnext.symm

/-- The stamp says that a position is published, if it has not been emptied. -/
theorem content_published (h : L.size = wordSize) {p : Phase} (hp : p ≠ .emptied) :
  (content L claims n p).stamp = (L.position n + 1) % wordSize ↔ p = .published
  := by
  have hmod : (L.position n + 1) % wordSize = L.position n + 1 := by
    rw [← h]
    exact Nat.mod_eq_of_lt (L.position_add_one_lt n)
  have hne : L.position n ≠ L.position n + 1 := by omega
  cases p with
  | emptied => exact (hp rfl).elim
  | published =>
    constructor
    · intro _
      rfl
    · intro _
      rfl
  | _ =>
    rw [content, hmod]
    constructor
    · intro h
      exact (hne h).elim
    · rintro ⟨⟩

namespace Marks

/-- A new ring is marked. -/
theorem start (hfits : ring.Fits L) (htail : ring.tail = 0)
    (hslots : ring.slots = (List.range L.capacity).map fun index => ⟨index, none⟩) :
  Marks L ring 0 (.popped none) (fun _ : ι => .pushed) [] 0 (fun _ => 0) (fun _ => .free)
  := by
  have hzero : ∀ n, n < L.capacity → L.position n = n := by
    intro n hn
    rw [Laps.position, Nat.div_eq_of_lt hn, Nat.zero_mod, Nat.zero_mul, Nat.zero_add,
      Nat.mod_eq_of_lt hn]
  refine ⟨hfits, ?_, ?_, Nat.le_refl _, Nat.zero_le _, ?_, ?_, ?_, ?_, ?_, ?_, ?_, ?_, ?_, ?_⟩
  · rw [htail]
    exact (hzero 0 L.pos).symm
  · exact (hzero 0 L.pos).symm
  · intro n _ hn
    rw [Nat.zero_add] at hn
    rw [Nat.mod_eq_of_lt hn, hslots, List.getElem?_map, List.getElem?_range hn, content, hzero n hn]
    rfl
  · intro n _ _
    constructor
    · intro _
      exact Nat.zero_le _
    · intro _
      rfl
  · rintro i w ⟨⟩
  · rintro i p ⟨⟩
  · rintro i v w ⟨⟩
  · intro i j hi
    exact (hi rfl).elim
  · intro n _ hn
    cases hn
  · rintro n _ _ ⟨⟩
  · rintro ⟨⟩
  · rintro i v w ⟨⟩

/-- A published position was claimed and belongs to no producer. -/
theorem of_published (h : Marks L ring head pop push claims freed place phase) (hle : freed ≤ n)
    (hlt : n < freed + L.capacity) (hp : phase n = .published) :
  n < claims.length
  := by
  by_contra hge
  have hfree := (h.free n hle hlt).mpr (by omega)
  rw [hp] at hfree
  cases hfree

variable [DecidableEq ι]

/-- A producer that holds no position before or after its step. -/
theorem aside (h : Marks L ring head pop push claims freed place phase) (hi : (push i).site = none)
    (hx : x.site = none) (m : ℕ) (hword : ∀ w, x.word = some w → w = L.position m ∧ m ≤ claims.length)
    (hclaiming : ∀ v w, x = .claiming v w → m = claims.length → claims.length < freed + L.capacity) :
  Marks L ring head pop (Function.update push i x) claims freed (Function.update place i m) phase
  := by
  have hself : Function.update push i x i = x := Function.update_self _ _ _
  have hplace : Function.update place i m i = m := Function.update_self _ _ _
  have hother : ∀ {j : ι}, j ≠ i → Function.update push i x j = push j ∧
      Function.update place i m j = place j := by
    intro j hj
    exact ⟨Function.update_of_ne hj _ _, Function.update_of_ne hj _ _⟩
  have hne : ∀ {j : ι}, (Function.update push i x j).site ≠ none → j ≠ i := by
    rintro j hj rfl
    rw [hself] at hj
    exact hj hx
  refine ⟨h.fits, h.tail, h.head, h.le, h.room, h.slots, h.free, ?_, ?_, ?_, ?_, ?_, h.emptied,
    h.pop, ?_⟩
  · intro j w hw
    by_cases hj : j = i
    · subst hj
      rw [hself] at hw
      rw [hplace]
      exact hword w hw
    · rw [(hother hj).1] at hw
      rw [(hother hj).2]
      exact h.word j w hw
  · intro j p hp
    have hj : j ≠ i := by
      apply hne
      rw [hp]
      rintro ⟨⟩
    rw [(hother hj).1] at hp
    rw [(hother hj).2]
    exact h.site j p hp
  · intro j v w hw
    have hj : j ≠ i := by
      rintro rfl
      rw [hself] at hw
      rw [hw] at hx
      cases hx
    rw [(hother hj).1] at hw
    rw [(hother hj).2]
    exact h.value j v w hw
  · intro j k hj hk heq
    have hji := hne hj
    have hki := hne hk
    rw [(hother hji).1] at hj
    rw [(hother hki).1] at hk
    rw [(hother hji).2, (hother hki).2] at heq
    exact h.own j k hj hk heq
  · intro n hle hlt hp
    obtain ⟨j, hj, hn⟩ := h.holder n hle hlt hp
    have hji : j ≠ i := by
      rintro rfl
      exact hj hi
    exact ⟨j, by rw [(hother hji).1]; exact hj, by rw [(hother hji).2]; exact hn⟩
  · intro j v w hw hm
    by_cases hj : j = i
    · subst hj
      rw [hself] at hw
      rw [hplace] at hm
      exact hclaiming v w hw hm
    · rw [(hother hj).1] at hw
      rw [(hother hj).2] at hm
      exact h.claiming j v w hw hm

omit [DecidableEq ι] in
/-- The slot of one position changes. -/
theorem setSlot (h : Marks L ring head pop push claims freed place phase) {f : Slot T → Slot T}
    {p : Phase} (hle : freed ≤ n) (hlt : n < freed + L.capacity)
    (hf : f (content L claims n (phase n)) = content L claims n p) (m : ℕ) (hm : freed ≤ m)
    (hm' : m < freed + L.capacity) :
  (ring.setSlot (L.position n) f).slots[m % L.capacity]? =
    some (content L claims m (Function.update phase n p m))
  := by
  rw [Inner.setSlot, h.fits.index, List.getElem?_modify, h.slots m hm hm']
  show some (if n % L.capacity = m % L.capacity then f _ else _) = _
  by_cases hmn : m = n
  · subst hmn
    rw [if_pos rfl, Function.update_self, hf]
  · have hindex : n % L.capacity ≠ m % L.capacity := by
      intro heq
      exact hmn (L.index_inj hm hm' hle hlt heq.symm)
    rw [if_neg hindex, Function.update_of_ne hmn]

/-- A producer writes or publishes the value of the position that it holds. -/
theorem progress (h : Marks L ring head pop push claims freed place phase) {q p : Phase}
    {f : Slot T → Slot T} (hi : (push i).site = some q)
    (hf : f (content L claims (place i) q) = content L claims (place i) p)
    (hp : p = .written ∧ x.site = some .written ∧ x.word = (push i).word ∨
      p = .published ∧ x.site = none ∧ x.word = none)
    (hwriting : ∀ v w, x ≠ .writing v w) (hclaiming : ∀ v w, x ≠ .claiming v w) :
  Marks L (ring.setSlot (L.position (place i)) f) head pop (Function.update push i x) claims freed
    place (Function.update phase (place i) p)
  := by
  obtain ⟨hle, hlt, hphase⟩ := h.site i q hi
  have hwindow : place i < freed + L.capacity := hlt.trans_le h.room
  have hold : q = .claimed ∨ q = .written := by
    cases hpush : push i with
    | writing _ _ =>
      rw [hpush] at hi
      cases hi
      exact Or.inl rfl
    | publishing _ =>
      rw [hpush] at hi
      cases hi
      exact Or.inr rfl
    | _ =>
      rw [hpush] at hi
      cases hi
  have hself : Function.update push i x i = x := Function.update_self _ _ _
  have hother : ∀ {j : ι}, j ≠ i → Function.update push i x j = push j := by
    intro j hj
    exact Function.update_of_ne hj _ _
  have hsite : ∀ {j : ι}, (Function.update push i x j).site ≠ none → (push j).site ≠ none := by
    intro j hj
    by_cases hji : j = i
    · subst hji
      rw [hi]
      rintro ⟨⟩
    · rw [hother hji] at hj
      exact hj
  refine ⟨h.fits.setSlot _ _, h.tail, h.head, h.le, h.room, ?_, ?_, ?_, ?_, ?_, ?_, ?_, ?_, ?_, ?_⟩
  · rw [← hphase] at hf
    exact h.setSlot hle hwindow hf
  · intro m hm hm'
    by_cases hmn : m = place i
    · subst hmn
      rw [Function.update_self]
      constructor
      · rintro rfl
        rcases hp with ⟨hp, -⟩ | ⟨hp, -⟩ <;> cases hp
      · intro hge
        omega
    · rw [Function.update_of_ne hmn]
      exact h.free m hm hm'
  · intro j w hw
    by_cases hji : j = i
    · subst hji
      rw [hself] at hw
      rcases hp with ⟨-, -, hword⟩ | ⟨-, -, hword⟩
      · rw [hword] at hw
        exact h.word j w hw
      · rw [hword] at hw
        cases hw
    · rw [hother hji] at hw
      exact h.word j w hw
  · intro j r hr
    by_cases hji : j = i
    · subst hji
      rw [hself] at hr
      rw [Function.update_self]
      refine ⟨hle, hlt, ?_⟩
      rcases hp with ⟨rfl, hsite', -⟩ | ⟨-, hsite', -⟩
      · rw [hsite'] at hr
        cases hr
        rfl
      · rw [hsite'] at hr
        cases hr
    · rw [hother hji] at hr
      obtain ⟨hle', hlt', hphase'⟩ := h.site j r hr
      refine ⟨hle', hlt', ?_⟩
      rw [Function.update_of_ne]
      · exact hphase'
      · intro heq
        apply hji
        apply h.own j i _ _ heq
        · rw [hr]
          rintro ⟨⟩
        · rw [hi]
          rintro ⟨⟩
  · intro j v w hw
    by_cases hji : j = i
    · subst hji
      rw [hself] at hw
      exact (hwriting v w hw).elim
    · rw [hother hji] at hw
      exact h.value j v w hw
  · intro j k hj hk heq
    exact h.own j k (hsite hj) (hsite hk) heq
  · intro m hm hm' hphase'
    by_cases hmn : m = place i
    · subst hmn
      rw [Function.update_self] at hphase'
      refine ⟨i, ?_, rfl⟩
      rw [hself]
      rcases hp with ⟨-, hsite', -⟩ | ⟨rfl, -⟩
      · rw [hsite']
        rintro ⟨⟩
      · rcases hphase' with hphase' | hphase' <;> cases hphase'
    · rw [Function.update_of_ne hmn] at hphase'
      obtain ⟨j, hj, hn⟩ := h.holder m hm hm' hphase'
      have hji : j ≠ i := by
        rintro rfl
        exact hmn hn.symm
      exact ⟨j, by rw [hother hji]; exact hj, hn⟩
  · intro m hm hm' hphase'
    by_cases hmn : m = place i
    · subst hmn
      rw [Function.update_self] at hphase'
      subst hphase'
      rcases hp with ⟨hp, -⟩ | ⟨hp, -⟩ <;> cases hp
    · rw [Function.update_of_ne hmn] at hphase'
      exact h.emptied m hm hm' hphase'
  · have hknows := h.pop
    by_cases hfreed : freed = place i
    · rw [hfreed, Function.update_self]
      rw [hfreed, hphase] at hknows
      cases pop with
      | emptying =>
        obtain ⟨-, rfl⟩ := hknows
        rcases hold with hold | hold <;> cases hold
      | freeing value =>
        obtain ⟨-, rfl, -⟩ := hknows
        rcases hold with hold | hold <;> cases hold
      | _ =>
        rcases hp with ⟨rfl, -⟩ | ⟨rfl, -⟩ <;> rintro ⟨⟩
    · rw [Function.update_of_ne hfreed]
      exact hknows
  · intro j v w hw hm
    by_cases hji : j = i
    · subst hji
      rw [hself] at hw
      exact (hclaiming v w hw).elim
    · rw [hother hji] at hw
      exact h.claiming j v w hw hm

/-- A producer claims the position at the tail. -/
theorem claim (h : Marks L ring head pop push claims freed place phase) {v : T}
    (hi : push i = .claiming v (L.position (place i))) (hplace : place i = claims.length) :
  Marks L { ring with tail := ring.advance (L.position (place i)) } head pop
    (Function.update push i (.writing v (L.position (place i)))) (claims ++ [v]) freed place
    (Function.update phase (place i) .claimed)
  := by
  have hroom := h.claiming i v _ hi hplace
  have hself : ∀ {x : Push T}, Function.update push i x i = x := Function.update_self _ _ _
  have hother : ∀ {j : ι} {x : Push T}, j ≠ i → Function.update push i x j = push j := by
    intro j x hj
    exact Function.update_of_ne hj _ _
  have hlength : (claims ++ [v]).length = claims.length + 1 := List.length_append
  have hget : ∀ m, m < claims.length → (claims ++ [v])[m]? = claims[m]? := by
    intro m hm
    exact List.getElem?_append_left hm
  have hne : ∀ {j : ι}, (push j).site ≠ none → place j ≠ place i := by
    intro j hj heq
    obtain ⟨p, hp⟩ := Option.ne_none_iff_exists'.mp hj
    have hlt := (h.site j p hp).2.1
    omega
  have hle := h.le
  refine ⟨⟨h.fits.capacity, h.fits.oneLap, h.fits.size, h.fits.power, h.fits.length⟩, ?_, h.head,
    by omega, by omega, ?_, ?_, ?_, ?_, ?_, ?_, ?_, ?_, ?_, ?_⟩
  · rw [hlength, ← hplace]
    exact h.fits.advance _
  · intro m hm hm'
    have hslot := h.slots m hm hm'
    by_cases hmn : m = place i
    · subst hmn
      rw [(h.free (place i) hm hm').mpr hplace.ge] at hslot
      rw [Function.update_self]
      exact hslot
    · rw [Function.update_of_ne hmn]
      by_cases hlt : m < claims.length
      · rw [show content L (claims ++ [v]) m (phase m) = content L claims m (phase m) by
          cases phase m <;> simp only [content, hget m hlt]]
        exact hslot
      · rw [(h.free m hm hm').mpr (by omega)] at hslot ⊢
        exact hslot
  · intro m hm hm'
    by_cases hmn : m = place i
    · subst hmn
      rw [Function.update_self, hlength]
      constructor
      · rintro ⟨⟩
      · intro hge
        omega
    · rw [Function.update_of_ne hmn, hlength, h.free m hm hm']
      omega
  · intro j w hw
    rw [hlength]
    by_cases hji : j = i
    · subst hji
      rw [hself] at hw
      cases hw
      exact ⟨rfl, by omega⟩
    · rw [hother hji] at hw
      obtain ⟨hword, hle'⟩ := h.word j w hw
      exact ⟨hword, by omega⟩
  · intro j p hp
    rw [hlength]
    by_cases hji : j = i
    · subst hji
      rw [hself] at hp
      cases hp
      rw [Function.update_self]
      exact ⟨by omega, by omega, rfl⟩
    · rw [hother hji] at hp
      obtain ⟨hle', hlt', hphase'⟩ := h.site j p hp
      rw [Function.update_of_ne (hne (by rw [hp]; rintro ⟨⟩))]
      exact ⟨hle', by omega, hphase'⟩
  · intro j v' w hw
    by_cases hji : j = i
    · subst hji
      rw [hself] at hw
      cases hw
      rw [hplace, List.getElem?_append_right (Nat.le_refl _), Nat.sub_self]
      rfl
    · rw [hother hji] at hw
      have hlt := (h.site j .claimed (by rw [hw]; rfl)).2.1
      rw [hget _ hlt]
      exact h.value j v' w hw
  · intro j k hj hk heq
    by_cases hji : j = i
    · by_cases hki : k = i
      · rw [hji, hki]
      · rw [hother hki] at hk
        rw [hji] at heq
        exact (hne hk heq.symm).elim
    · rw [hother hji] at hj
      by_cases hki : k = i
      · rw [hki] at heq
        exact (hne hj heq).elim
      · rw [hother hki] at hk
        exact h.own j k hj hk heq
  · intro m hm hm' hphase'
    by_cases hmn : m = place i
    · refine ⟨i, ?_, hmn.symm⟩
      rw [hself]
      rintro ⟨⟩
    · rw [Function.update_of_ne hmn] at hphase'
      obtain ⟨j, hj, hn⟩ := h.holder m hm (by omega) hphase'
      have hji : j ≠ i := by
        rintro rfl
        exact hmn hn.symm
      exact ⟨j, by rw [hother hji]; exact hj, hn⟩
  · intro m hm hm' hphase'
    by_cases hmn : m = place i
    · subst hmn
      rw [Function.update_self] at hphase'
      cases hphase'
    · rw [Function.update_of_ne hmn] at hphase'
      exact h.emptied m hm hm' hphase'
  · have hknows := h.pop
    by_cases hfreed : freed = place i
    · rw [hfreed, Function.update_self]
      cases pop with
      | emptying =>
        have hlt := hknows.1
        omega
      | freeing value =>
        have hlt := hknows.1
        omega
      | _ => rintro ⟨⟩
    · rw [Function.update_of_ne hfreed]
      cases pop with
      | emptying => exact ⟨by have := hknows.1; omega, hknows.2⟩
      | freeing value =>
        obtain ⟨hlt, hemptied, hvalue⟩ := hknows
        exact ⟨by omega, hemptied, by rw [hget _ hlt]; exact hvalue⟩
      | _ => exact hknows
  · intro j v' w hw hm
    by_cases hji : j = i
    · subst hji
      rw [hself] at hw
      cases hw
    · rw [hother hji] at hw
      have hle' := (h.word j w (by rw [hw]; rfl)).2
      omega

/-- A producer that has read the tail looks at the position there. -/
theorem reread (h : Marks L ring head pop push claims freed place phase) (hi : (push i).site = none)
    (v : T) :
  Marks L ring head pop (Function.update push i (.inspecting v ring.tail)) claims freed
    (Function.update place i claims.length) phase
  := by
  apply h.aside hi rfl
  · rintro w ⟨⟩
    exact ⟨h.tail, Nat.le_refl _⟩
  · rintro v w ⟨⟩

/-- A producer moves on at the position that it works at. -/
theorem stay (h : Marks L ring head pop push claims freed place phase) (hi : (push i).site = none)
    (hx : x.site = none) (hword : x.word = none ∨ x.word = (push i).word)
    (hclaiming : ∀ v w, x = .claiming v w → place i = claims.length →
      claims.length < freed + L.capacity) :
  Marks L ring head pop (Function.update push i x) claims freed (Function.update place i (place i))
    phase
  := by
  apply h.aside hi hx _ _ hclaiming
  intro w hw
  rcases hword with hnone | hsame
  · rw [hnone] at hw
    cases hw
  · rw [hsame] at hw
    exact h.word i w hw

omit [DecidableEq ι] in
/-- An exchange that succeeds before the words have started over claims the position that the
producer has read. -/
theorem place_of_claim {spurious : Bool} {v : T} {w : ℕ}
    (h : Marks L ring head pop push claims freed place phase) (hi : push i = .claiming v w)
    (hstep : (Push.claiming v w).step ring spurious = .ok (ring', .writing v w))
    (hwrap : claims.length < place i + L.period) :
  place i = claims.length
  := by
  obtain ⟨hw, hle⟩ := h.word i w (by rw [hi]; rfl)
  rw [Push.step] at hstep
  split at hstep
  · rename_i hexchange
    apply L.position_inj _ hle hwrap
    rw [← hw, ← hexchange.1, h.tail]
  · cases hstep

/-- A step of a producer that does not wait for the words to start over. -/
theorem pushStep {spurious : Bool} (h : Marks L ring head pop push claims freed place phase)
    (hstep : (push i).step ring spurious = .ok (ring', x))
    (hwrap : ∀ v w, push i = .claiming v w → claims.length < place i + L.period) :
  ∃ phase', Marks L ring' head pop (Function.update push i x) (claims ++ (push i).claimed x) freed
    (Function.update place i (x.place claims.length (place i))) phase'
  := by
  have hnil : ∀ l : List T, l ++ [] = l := List.append_nil
  cases hi : push i with
  | reading v =>
    rw [hi, Push.step] at hstep
    cases hstep
    refine ⟨phase, ?_⟩
    rw [Push.claimed, hnil]
    · exact h.reread (by rw [hi]; rfl) v
    · rintro _ _ _ _ ⟨⟩
  | inspecting v w =>
    have hsite : (push i).site = none := by
      rw [hi]
      rfl
    obtain ⟨hw, hle⟩ := h.word i w (by rw [hi]; rfl)
    subst hw
    rw [hi, Push.step, bind_eq_ok] at hstep
    obtain ⟨slot, hslot, hstep⟩ := hstep
    split at hstep
    · rename_i hstamp
      cases hstep
      refine ⟨phase, ?_⟩
      rw [Push.claimed, hnil]
      · apply h.stay hsite rfl (Or.inr (by rw [hi]; rfl))
        intro _ _ _ hplace
        by_contra hfull
        have hroom := h.room
        have hfreed : place i = freed + L.capacity := by omega
        have hpos := L.pos
        have hcontent := h.slots freed (Nat.le_refl _) (by omega)
        rw [h.fits.slot, hfreed, Nat.add_mod_right, hcontent, Option.some_inj] at hslot
        rw [hfreed, ← hslot] at hstamp
        exact content_stamp_ne h.fits.size claims freed _ hstamp
      · rintro _ _ _ _ ⟨⟩
    · split at hstep
      · cases hstep
        refine ⟨phase, ?_⟩
        rw [Push.claimed, hnil]
        · apply h.stay hsite rfl (Or.inl rfl)
          rintro _ _ ⟨⟩
        · rintro _ _ _ _ ⟨⟩
      · cases hstep
        refine ⟨phase, ?_⟩
        rw [Push.claimed, hnil]
        · apply h.stay hsite rfl (Or.inr (by rw [hi]; rfl))
          rintro _ _ ⟨⟩
        · rintro _ _ _ _ ⟨⟩
  | claiming v w =>
    obtain ⟨hw, hle⟩ := h.word i w (by rw [hi]; rfl)
    subst hw
    rw [hi, Push.step] at hstep
    split at hstep
    · rename_i hexchange
      have hplace : place i = claims.length := by
        apply L.position_inj _ hle (hwrap v _ hi)
        rw [← h.tail, hexchange.1]
      cases hstep
      refine ⟨Function.update phase (place i) .claimed, ?_⟩
      rw [Push.place, Function.update_eq_self]
      · exact h.claim hi hplace
      · rintro _ _ ⟨⟩
    · cases hstep
      refine ⟨phase, ?_⟩
      rw [Push.claimed, hnil]
      · exact h.reread (by rw [hi]; rfl) v
      · rintro _ _ _ _ _ ⟨⟩
  | writing v w =>
    have hvalue := h.value i v w hi
    obtain ⟨hw, -⟩ := h.word i w (by rw [hi]; rfl)
    subst hw
    rw [hi, Push.step] at hstep
    cases hstep
    refine ⟨Function.update phase (place i) .written, ?_⟩
    rw [Push.claimed, hnil, Push.place, Function.update_eq_self]
    · apply h.progress (q := .claimed) (by rw [hi]; rfl)
      · simp only [content, hvalue]
      · exact Or.inl ⟨rfl, rfl, by rw [hi]; rfl⟩
      · rintro _ _ ⟨⟩
      · rintro _ _ ⟨⟩
    · rintro _ _ ⟨⟩
    · rintro _ _ _ _ ⟨⟩
  | publishing w =>
    obtain ⟨hw, -⟩ := h.word i w (by rw [hi]; rfl)
    subst hw
    rw [hi, Push.step] at hstep
    cases hstep
    refine ⟨Function.update phase (place i) .published, ?_⟩
    rw [Push.claimed, hnil, Push.place, Function.update_eq_self]
    · apply h.progress (q := .written) (by rw [hi]; rfl)
      · rfl
      · exact Or.inr ⟨rfl, rfl, rfl⟩
      · rintro _ _ ⟨⟩
      · rintro _ _ ⟨⟩
    · rintro _ _ ⟨⟩
    · rintro _ _ _ _ ⟨⟩
  | rereading v w =>
    have hsite : (push i).site = none := by
      rw [hi]
      rfl
    rw [hi, Push.step] at hstep
    split at hstep
    · cases hstep
      refine ⟨phase, ?_⟩
      rw [Push.claimed, hnil]
      · apply h.stay hsite rfl (Or.inl rfl)
        rintro _ _ ⟨⟩
      · rintro _ _ _ _ ⟨⟩
    · cases hstep
      refine ⟨phase, ?_⟩
      rw [Push.claimed, hnil]
      · exact h.reread hsite v
      · rintro _ _ _ _ ⟨⟩
  | pushed =>
    rw [hi, Push.step] at hstep
    cases hstep
    refine ⟨phase, ?_⟩
    rw [Push.claimed, hnil]
    · apply h.stay (by rw [hi]; rfl) rfl (Or.inl rfl)
      rintro _ _ ⟨⟩
    · rintro _ _ _ _ ⟨⟩
  | refused v =>
    rw [hi, Push.step] at hstep
    cases hstep
    refine ⟨phase, ?_⟩
    rw [Push.claimed, hnil]
    · apply h.stay (by rw [hi]; rfl) rfl (Or.inl rfl)
      rintro _ _ ⟨⟩
    · rintro _ _ _ _ ⟨⟩

omit [DecidableEq ι] in
/-- The consumer changes what it knows of the head. -/
theorem look {pop' : Pop T} (h : Marks L ring head pop push claims freed place phase)
    (hpop : pop'.Knows claims freed (phase freed)) :
  Marks L ring head pop' push claims freed place phase
  := ⟨h.fits, h.tail, h.head, h.le, h.room, h.slots, h.free, h.word, h.site, h.value, h.own,
    h.holder, h.emptied, hpop, h.claiming⟩

omit [DecidableEq ι] in
/-- The slot at the head. -/
theorem headSlot (h : Marks L ring head pop push claims freed place phase) {slot : Slot T}
    (hslot : ring.slot head = .ok slot) :
  slot = content L claims freed (phase freed)
  := by
  have hpos := L.pos
  rw [h.head, h.fits.slot, h.slots freed (Nat.le_refl _) (by omega), Option.some_inj] at hslot
  exact hslot.symm

omit [DecidableEq ι] in
/-- No producer holds a position that the consumer has found published. -/
theorem site_ne (h : Marks L ring head pop push claims freed place phase)
    (hphase : phase freed = .published ∨ phase freed = .emptied) {p : Phase}
    (hp : (push i).site = some p) :
  place i ≠ freed
  := by
  intro heq
  have hsite := (h.site i p hp).2.2
  rw [heq] at hsite
  have hkind : p = .claimed ∨ p = .written := by
    cases hi : push i with
    | writing _ _ =>
      rw [hi] at hp
      cases hp
      exact Or.inl rfl
    | publishing _ =>
      rw [hi] at hp
      cases hp
      exact Or.inr rfl
    | _ =>
      rw [hi] at hp
      cases hp
  rw [hsite] at hphase
  rcases hkind with rfl | rfl <;> rcases hphase with hphase | hphase <;> cases hphase

omit [DecidableEq ι] in
/-- The consumer takes the value at the head. -/
theorem empty (h : Marks L ring head .emptying push claims freed place phase) :
  Marks L (ring.setSlot head fun slot => { slot with value := none }) head (.freeing claims[freed]?)
    push claims freed place (Function.update phase freed .emptied)
  := by
  obtain ⟨hlt, hphase⟩ := h.pop
  have hpos := L.pos
  have hself : Function.update phase freed .emptied freed = .emptied := Function.update_self _ _ _
  rw [h.head]
  refine ⟨h.fits.setSlot _ _, h.tail, rfl, h.le, h.room, ?_, ?_, h.word, ?_, h.value, h.own, ?_, ?_,
    ⟨hlt, hself, rfl⟩, h.claiming⟩
  · apply h.setSlot (Nat.le_refl _) (by omega)
    rw [hphase]
    rfl
  · intro m hm hm'
    by_cases hmn : m = freed
    · subst hmn
      rw [hself]
      constructor
      · rintro ⟨⟩
      · intro hge
        omega
    · rw [Function.update_of_ne hmn]
      exact h.free m hm hm'
  · intro i p hp
    rw [Function.update_of_ne (h.site_ne (Or.inl hphase) hp)]
    exact h.site i p hp
  · intro m hm hm' hphase'
    have hmn : m ≠ freed := by
      rintro rfl
      rw [hself] at hphase'
      rcases hphase' with hphase' | hphase' <;> cases hphase'
    rw [Function.update_of_ne hmn] at hphase'
    exact h.holder m hm hm' hphase'
  · intro m hm hm' hphase'
    by_contra hmn
    rw [Function.update_of_ne hmn] at hphase'
    exact hmn (h.emptied m hm hm' hphase')

omit [DecidableEq ι] in
/-- The consumer frees the slot at the head for the next lap. -/
theorem advance {value : Option T}
    (h : Marks L ring head (.freeing value) push claims freed place phase) :
  Marks L (ring.setSlot head fun slot => { slot with stamp := (head + ring.oneLap) % wordSize })
    (ring.advance head) (.popped value) push claims (freed + 1) place
    (Function.update phase (freed + L.capacity) .free)
  := by
  obtain ⟨hlt, hphase, -⟩ := h.pop
  have hpos := L.pos
  have hroom := h.room
  have hstamp : (L.position freed + ring.oneLap) % wordSize = L.position (freed + L.capacity) := by
    rw [h.fits.oneLap, ← h.fits.size, L.position_add_capacity]
  have hsite : ∀ {i : ι} {p : Phase}, (push i).site = some p → freed + 1 ≤ place i := by
    intro i p hp
    have hne := h.site_ne (Or.inr hphase) hp
    have hle := (h.site i p hp).1
    omega
  have hbelow : ∀ {m : ℕ}, m ≠ freed + L.capacity →
      Function.update phase (freed + L.capacity) .free m = phase m := by
    intro m hm
    exact Function.update_of_ne hm _ _
  rw [h.head, hstamp]
  refine ⟨h.fits.setSlot _ _, h.tail, h.fits.advance _, hlt, by omega, ?_, ?_, h.word, ?_, h.value,
    h.own, ?_, ?_, ?_, ?_⟩
  · intro m hm hm'
    rw [Inner.setSlot, h.fits.index, List.getElem?_modify]
    by_cases hmn : m = freed + L.capacity
    · subst hmn
      rw [Function.update_self, Nat.add_mod_right, h.slots freed (Nat.le_refl _) (by omega), hphase]
      show some (if freed % L.capacity = freed % L.capacity then _ else _) = _
      rw [if_pos rfl]
      rfl
    · have hindex : freed % L.capacity ≠ m % L.capacity := by
        intro heq
        have := L.index_inj (a := freed) (Nat.le_refl _) (by omega) (by omega) (by omega) heq
        omega
      rw [hbelow hmn, h.slots m (by omega) (by omega)]
      show some (if freed % L.capacity = m % L.capacity then _ else _) = _
      rw [if_neg hindex]
  · intro m hm hm'
    by_cases hmn : m = freed + L.capacity
    · subst hmn
      rw [Function.update_self]
      constructor
      · intro _
        exact hroom
      · intro _
        rfl
    · rw [hbelow hmn]
      exact h.free m (by omega) (by omega)
  · intro i p hp
    obtain ⟨-, hlt', hphase'⟩ := h.site i p hp
    refine ⟨hsite hp, hlt', ?_⟩
    rw [hbelow (by omega)]
    exact hphase'
  · intro m hm hm' hphase'
    rw [hbelow (by omega)] at hphase'
    exact h.holder m (by omega) hm' hphase'
  · intro m hm hm' hphase'
    by_cases hmn : m = freed + L.capacity
    · subst hmn
      rw [Function.update_self] at hphase'
      cases hphase'
    · rw [hbelow hmn] at hphase'
      have := h.emptied m (by omega) (by omega) hphase'
      omega
  · intro hemptied
    by_cases hmn : freed + 1 = freed + L.capacity
    · rw [hmn, Function.update_self] at hemptied
      cases hemptied
    · rw [hbelow hmn] at hemptied
      have := h.emptied (freed + 1) (by omega) (by omega) hemptied
      omega
  · intro i v w hw hm
    have := h.claiming i v w hw hm
    omega

omit [DecidableEq ι] in
/-- A step of the consumer. -/
theorem popStep {head' : ℕ} {pop' : Pop T} (h : Marks L ring head pop push claims freed place phase)
    (hstep : pop.step ring head = .ok (ring', head', pop')) :
  ∃ phase', Marks L ring' head' pop' push claims (freed + pop.frees) place phase'
  := by
  cases pop with
  | looking =>
    rw [Pop.step, bind_eq_ok] at hstep
    obtain ⟨slot, hslot, hstep⟩ := hstep
    have hcontent := h.headSlot hslot
    refine ⟨phase, ?_⟩
    split at hstep
    · rename_i hstamp
      cases hstep
      rw [hcontent, h.head, content_published h.fits.size h.pop] at hstamp
      have hpos := L.pos
      exact h.look ⟨h.of_published (Nat.le_refl _) (by omega) hstamp, hstamp⟩
    · cases hstep
      exact h.look h.pop
  | emptying =>
    rw [Pop.step, bind_eq_ok] at hstep
    obtain ⟨slot, hslot, hstep⟩ := hstep
    have hcontent := h.headSlot hslot
    rw [h.pop.2] at hcontent
    cases hstep
    rw [hcontent]
    exact ⟨_, h.empty⟩
  | freeing value =>
    rw [Pop.step] at hstep
    cases hstep
    exact ⟨_, h.advance⟩
  | popped value =>
    rw [Pop.step] at hstep
    cases hstep
    exact ⟨phase, h⟩

omit [DecidableEq ι] in
/-- When the consumer finds nothing, all claimed positions were freed or a producer has yet to
publish the one at the head. -/
theorem nothing {head' : ℕ} (h : Marks L ring head .looking push claims freed place phase)
    (hstep : (Pop.looking : Pop T).step ring head = .ok (ring', head', .popped none)) :
  freed = claims.length ∨ ∃ i, (push i).site ≠ none
  := by
  rw [Pop.step, bind_eq_ok] at hstep
  obtain ⟨slot, hslot, hstep⟩ := hstep
  have hcontent := h.headSlot hslot
  have hpos := L.pos
  have hle := h.le
  by_cases hall : freed = claims.length
  · exact Or.inl hall
  · right
    split at hstep
    · cases hstep
    · rename_i hstamp
      rw [hcontent, h.head, content_published h.fits.size h.pop] at hstamp
      have hphase : phase freed = .claimed ∨ phase freed = .written := by
        cases hp : phase freed with
        | free =>
          have := (h.free freed (Nat.le_refl _) (by omega)).mp hp
          omega
        | claimed => exact Or.inl rfl
        | written => exact Or.inr rfl
        | published => exact (hstamp hp).elim
        | emptied => exact (h.pop hp).elim
      obtain ⟨i, hi, -⟩ := h.holder freed (Nat.le_refl _) (by omega) hphase
      exact ⟨i, hi⟩

omit [DecidableEq ι] in
/-- When all claimed positions were freed, no slot holds a value. -/
theorem vacant (h : Marks L ring head pop push claims freed place phase)
    (hall : freed = claims.length) {slot : Slot T} (hslot : slot ∈ ring.slots) :
  slot.value = none
  := by
  obtain ⟨k, hk⟩ := List.getElem?_of_mem hslot
  obtain ⟨hlt, -⟩ := List.getElem?_eq_some_iff.mp hk
  rw [h.fits.length] at hlt
  obtain ⟨n, hle, hn, rfl⟩ := L.exists_index freed hlt
  have hfree := (h.free n hle hn).mpr (by omega)
  rw [h.slots n hle hn, hfree] at hk
  cases hk
  rfl

end Marks

end Grommet.Ring
