import Grommet.Core.Ring.Record
import Grommet.Library.Trail

/-!
# The ring loses, duplicates and reorders nothing

Any number of producers call `try_push` and one consumer calls `pop`, in any interleaving of
their steps.

A compare-exchange that compares words takes a tail that has gone through all words since it
was read for the tail that was read.  The runs considered are those in which no producer is
overtaken by a whole period of positions between its read and its exchange.
-/

open Checked

namespace Grommet.Ring

variable {ι T : Type}

/-- A ring, its producers and its consumer, and what is recorded of their calls. -/
structure System (ι T : Type) where
  ring : Inner T
  /-- The next position that the consumer reads. -/
  head : ℕ
  /-- The call of `pop` in progress. -/
  pop : Option (Pop T)
  /-- The call of `try_push` that each producer is in. -/
  push : ι → Option (Push T)
  /-- The values of the calls of `try_push`, in the order the calls began. -/
  offered : List T
  /-- The number of the last call of each producer. -/
  call : ι → ℕ
  /-- The number of positions that were claimed when each producer last read the tail. -/
  place : ι → ℕ
  /-- The calls that claimed a position, with their values, in the order of the positions. -/
  claims : List (ℕ × T)
  /-- The values that were popped, in order. -/
  pops : List T
  /-- The calls that returned `Ok`. -/
  accepted : List ℕ
  /-- The calls that returned `Err`, with the values that they handed back. -/
  refused : List (ℕ × T)

namespace System

def start (ring : Inner T) : System ι T where
  ring := ring
  head := 0
  pop := none
  push := fun _ => none
  offered := []
  call := fun _ => 0
  place := fun _ => 0
  claims := []
  pops := []
  accepted := []
  refused := []

end System

inductive Event (ι T : Type) where
  /-- A producer calls `try_push`. -/
  | offer (i : ι) (value : T)
  | push (i : ι)
  /-- The consumer calls `pop`. -/
  | take
  | pop

variable [DecidableEq ι]

/-- One step of a producer or of the consumer. -/
inductive Step (s : System ι T) : Event ι T → System ι T → Prop
  | offer {i : ι} {v : T} : s.push i = none →
      Step s (.offer i v) { s with
        push := Function.update s.push i (some (.reading v))
        offered := s.offered ++ [v]
        call := Function.update s.call i s.offered.length }
  | push {i : ι} {p p' : Push T} {ring : Inner T} (spurious : Bool) : s.push i = some p →
      p.step s.ring spurious = .ok (ring, p') →
      Step s (.push i) { s with
        ring := ring
        push := Function.update s.push i p'.rest
        place := Function.update s.place i (p'.place s.claims.length (s.place i))
        claims := s.claims ++ (p.claimed p').map fun value => (s.call i, value)
        accepted := s.accepted ++ if p'.isPushed then [s.call i] else []
        refused := s.refused ++ p'.handedBack.toList.map fun value => (s.call i, value) }
  | take : s.pop = none → Step s .take { s with pop := some .looking }
  | pop {p p' : Pop T} {ring : Inner T} {head : ℕ} : s.pop = some p →
      p.step s.ring s.head = .ok (ring, head, p') →
      Step s .pop { s with
        ring := ring
        head := head
        pop := p'.rest
        pops := s.pops ++ p'.result.toList }

/-- An exchange comes before the words have started over since the tail was read. -/
def System.Fresh (s : System ι T) : Event ι T → Prop
  | .push i => ∀ v w, s.push i = some (.claiming v w) →
      s.claims.length < s.place i + s.ring.capacity * (wordSize / s.ring.oneLap)
  | _ => True

/-- The slot whose value the next step of a producer accesses. -/
def Push.accesses (ring : Inner T) : Push T → Option ℕ
  | writing _ tail => some (ring.index tail)
  | _ => none

/-- The slot whose value the next step of the consumer accesses. -/
def Pop.accesses (ring : Inner T) (head : ℕ) : Pop T → Option ℕ
  | emptying => some (ring.index head)
  | _ => none

/-- The value of the position is in its slot, or the consumer is about to return it. -/
def System.Keeps (s : System ι T) (n : ℕ) (value : T) : Prop :=
  (∃ slot, s.ring.slots[n % s.ring.capacity]? = some slot ∧ slot.value = some value) ∨
    n = s.pops.length ∧ s.pop = some (.freeing (some value))

/-- Nothing is lost, duplicated or reordered, and no value is accessed by two threads. -/
structure System.Intact (s : System ι T) : Prop where
  /-- The values popped are the first ones in the order their positions were claimed. -/
  inOrder : s.pops <+: s.claims.map Prod.snd
  /-- No call claims two positions, and each claims a position for its own value. -/
  once : (s.claims.map Prod.fst).Nodup ∧ ∀ c ∈ s.claims, s.offered[c.1]? = some c.2
  /-- A call that returned `Ok` has claimed a position, and its value was popped from there or
  is still kept. -/
  accepted : ∀ c ∈ s.accepted, ∃ n v, s.claims[n]? = some (c, v) ∧
    (n < s.pops.length ∨ s.Keeps n v)
  /-- A call that returned `Err` has handed back its own value and claimed no position. -/
  refused : ∀ c ∈ s.refused, s.offered[c.1]? = some c.2 ∧ c.1 ∉ s.claims.map Prod.fst
  /-- No two producers are about to access the value of one slot. -/
  producers : ∀ i j p q k, s.push i = some p → s.push j = some q →
    p.accesses s.ring = some k → q.accesses s.ring = some k → i = j
  /-- The consumer is not about to access the value of a slot that a producer accesses. -/
  consumer : ∀ i p q k, s.push i = some p → s.pop = some q →
    p.accesses s.ring = some k → q.accesses s.ring s.head ≠ some k

/-! ### What every step keeps -/

/-- The ring and the calls in progress agree with what is recorded. -/
def Inv (L : Laps) (s : System ι T) : Prop :=
  Recorded L s.ring s.head (s.pop.getD (.popped none)) s.push s.call s.place s.offered s.claims
    s.accepted s.refused s.pops

variable {s s' : System ι T} {L : Laps} {ring : Inner T}

/-- Every step keeps the calls and the slots in agreement. -/
theorem Inv.step {e : Event ι T} (h : Inv L s) (hstep : Step s e s') (hfresh : s.Fresh e) :
  Inv L s'
  := by
  cases hstep with
  | @offer i v hi => exact h.offer v hi
  | @push i p p' ring spurious hi hstep =>
    apply h.pushStep hi hstep
    rintro v w rfl
    obtain ⟨phase, hmarks⟩ := h.marked
    rw [← hmarks.fits.period]
    exact hfresh v w hi
  | take hpop =>
    rw [Inv, hpop] at h
    exact h.look
  | @pop q q' ring head hq hstep =>
    rw [Inv, hq] at h
    exact h.popStep hstep

/-! ### Runs -/

omit [DecidableEq ι] in
/-- The value of a call that returned `Ok` was popped or is kept. -/
theorem Inv.keeps (h : Inv L s) {c n : ℕ} {v : T} (hc : c ∈ s.accepted)
    (hn : s.claims[n]? = some (c, v)) :
  n < s.pops.length ∨ s.Keeps n v
  := by
  obtain ⟨phase, hmarks⟩ := h.marked
  by_cases hlt : n < s.pops.length
  · exact Or.inl hlt
  · right
    have hle : s.pops.length ≤ n := Nat.le_of_not_lt hlt
    have hvalue : (s.claims.map Prod.snd)[n]? = some v := by
      rw [List.getElem?_map, hn]
      rfl
    obtain ⟨hclaimed, -⟩ := List.getElem?_eq_some_iff.mp hvalue
    have hwindow : n < s.pops.length + L.capacity := Nat.lt_of_lt_of_le hclaimed hmarks.room
    have hslot := hmarks.slots n hle hwindow
    rw [← hmarks.fits.capacity] at hslot
    cases hphase : phase n with
    | free =>
      have := (hmarks.free n hle hwindow).mp hphase
      omega
    | published =>
      rw [hphase] at hslot
      exact Or.inl ⟨_, hslot, hvalue⟩
    | emptied =>
      right
      have hfreed := hmarks.emptied n hle hwindow hphase
      subst hfreed
      refine ⟨rfl, ?_⟩
      have hknows := hmarks.pop
      rw [hphase] at hknows
      cases hpop : s.pop with
      | none =>
        rw [hpop] at hknows
        exact (hknows rfl).elim
      | some q =>
        rw [hpop] at hknows
        cases q with
        | emptying => cases hknows.2
        | freeing value => rw [hknows.2.2, hvalue]
        | _ => exact (hknows rfl).elim
    | _ =>
      -- a position that is not published belongs to a call that has not returned
      obtain ⟨i, hi, rfl⟩ := hmarks.holder n hle hclaimed (by rw [hphase]; simp)
      cases hpush : s.push i with
      | none =>
        rw [hpush] at hi
        exact (hi rfl).elim
      | some p =>
        rw [hpush] at hi
        have hcall := h.tally.site i p hpush hi
        rw [List.getElem?_map, hn] at hcall
        cases hcall
        exact ((h.tally.begun i p hpush).2.1 hc).elim

/-- In every run in which no producer is overtaken by a whole period of positions, the ring
loses, duplicates and reorders nothing, and no value is accessed by two threads at once. -/
theorem ring_keeps_order {capacity : ℕ} {t : List (Event ι T)} (hring : bounded capacity = .ok ring)
    (hrun : Trail (fun s e s' => Step s e s' ∧ s.Fresh e) (System.start ring) t s) :
  s.Intact
  := by
  obtain ⟨L, rfl, hfits, htail, hslots⟩ := bounded_fits hring
  have hinv : Inv L s := by
    apply hrun.invariant (fun _ s => Inv L s) (Recorded.start hfits htail hslots)
    intro _ s₁ e s₂ _ hinv hstep
    exact hinv.step hstep.1 hstep.2
  obtain ⟨phase, hmarks⟩ := hinv.marked
  have haccess : ∀ {i : ι} {p : Push T} {k : ℕ}, s.push i = some p → p.accesses s.ring = some k →
      ((s.push i).getD .pushed).site = some .claimed ∧ k = s.place i % L.capacity := by
    intro i p k hp hk
    cases p with
    | writing v w =>
      have hgetD : (s.push i).getD .pushed = .writing v w := by
        rw [hp]
        rfl
      obtain ⟨hw, -⟩ := hmarks.word i w (by rw [hgetD]; rfl)
      rw [hgetD]
      refine ⟨rfl, ?_⟩
      rw [Push.accesses, Option.some_inj, hw, hmarks.fits.index] at hk
      exact hk.symm
    | _ => cases hk
  have hsite : ∀ {i : ι}, ((s.push i).getD .pushed).site = some .claimed →
      s.pops.length ≤ s.place i ∧ s.place i < s.pops.length + L.capacity := by
    intro i hi
    obtain ⟨hle, hlt, -⟩ := hmarks.site i .claimed hi
    exact ⟨hle, Nat.lt_of_lt_of_le hlt hmarks.room⟩
  refine ⟨hinv.inOrder, ⟨hinv.tally.nodup, hinv.tally.offers⟩, ?_, hinv.tally.handed, ?_, ?_⟩
  · intro c hc
    obtain ⟨⟨c', v⟩, hmem, rfl⟩ := List.mem_map.mp (hinv.tally.claimed c hc)
    obtain ⟨n, hn⟩ := List.getElem?_of_mem hmem
    exact ⟨n, v, hn, hinv.keeps hc hn⟩
  · intro i j p q k hp hq hi hj
    obtain ⟨hsi, hki⟩ := haccess hp hi
    obtain ⟨hsj, hkj⟩ := haccess hq hj
    obtain ⟨hlei, hlti⟩ := hsite hsi
    obtain ⟨hlej, hltj⟩ := hsite hsj
    apply hmarks.own i j
    · rw [hsi]
      rintro ⟨⟩
    · rw [hsj]
      rintro ⟨⟩
    · exact L.index_inj hlei hlti hlej hltj (hki.symm.trans hkj)
  · intro i p q k hp hq hi hj
    obtain ⟨hsi, hki⟩ := haccess hp hi
    obtain ⟨hlei, hlti⟩ := hsite hsi
    have hpos := L.pos
    cases q with
    | emptying =>
      have hknows := hmarks.pop
      rw [hq] at hknows
      rw [Pop.accesses, Option.some_inj, hmarks.head, hmarks.fits.index] at hj
      have heq := L.index_inj (a := s.pops.length) (Nat.le_refl _) (by omega) hlei hlti
        (hj.trans hki)
      exact hmarks.site_ne (Or.inl hknows.2) hsi heq.symm
    | _ => cases hj

/-- Two producers race for a position, the later one publishes first, and a pop finds nothing
before the earlier one publishes; both values are popped in the order of their positions, and a
third one takes the slot of the first a lap later. -/
theorem ring_keeps_order_popped :
  ∃ (ring : Inner ℕ) (t : List (Event Bool ℕ)) (s : System Bool ℕ),
    bounded 2 = .ok ring ∧
    Trail (fun s e s' => Step s e s' ∧ s.Fresh e) (System.start ring) t s ∧
    s.accepted = [1, 0, 2] ∧ s.claims = [(0, 5), (1, 6), (2, 7)] ∧ s.pops = [5, 6] ∧ s.Intact
  := by
  have hring : bounded 2 = .ok (⟨0, [⟨0, none⟩, ⟨1, none⟩], 2, 4⟩ : Inner ℕ) := rfl
  have hoffer : Trail (fun s e s' => Step s e s' ∧ s.Fresh e)
      (System.start (⟨0, [⟨0, none⟩, ⟨1, none⟩], 2, 4⟩ : Inner ℕ) : System Bool ℕ) _ _ :=
    Trail.nil.snoc ⟨.offer (i := true) (v := 5) rfl, trivial⟩
  have hother := hoffer.snoc ⟨.offer (i := false) (v := 6) rfl, trivial⟩
  have hread := hother.snoc ⟨.push (i := true) false rfl rfl, by rintro v w ⟨⟩⟩
  have hreadToo := hread.snoc ⟨.push (i := false) false rfl rfl, by rintro v w ⟨⟩⟩
  have hinspect := hreadToo.snoc ⟨.push (i := true) false rfl rfl, by rintro v w ⟨⟩⟩
  have hinspectToo := hinspect.snoc ⟨.push (i := false) false rfl rfl, by rintro v w ⟨⟩⟩
  have hclaim := hinspectToo.snoc ⟨.push (i := true) false rfl rfl,
    fun _ _ _ => show 0 < 0 + 2 * (wordSize / 4) by decide⟩
  have hlose := hclaim.snoc ⟨.push (i := false) false rfl rfl,
    fun _ _ _ => show 1 < 0 + 2 * (wordSize / 4) by decide⟩
  have hretry := hlose.snoc ⟨.push (i := false) false rfl rfl, by rintro v w ⟨⟩⟩
  have hclaimNext := hretry.snoc ⟨.push (i := false) false rfl rfl,
    fun _ _ _ => show 1 < 1 + 2 * (wordSize / 4) by decide⟩
  have hwriteNext := hclaimNext.snoc ⟨.push (i := false) false rfl rfl, by rintro v w ⟨⟩⟩
  have hpublishNext := hwriteNext.snoc ⟨.push (i := false) false rfl rfl, by rintro v w ⟨⟩⟩
  have htake := hpublishNext.snoc ⟨.take rfl, trivial⟩
  have hnothing := htake.snoc ⟨.pop rfl rfl, trivial⟩
  have hwrite := hnothing.snoc ⟨.push (i := true) false rfl rfl, by rintro v w ⟨⟩⟩
  have hpublish := hwrite.snoc ⟨.push (i := true) false rfl rfl, by rintro v w ⟨⟩⟩
  have hpop := (((hpublish.snoc ⟨.take rfl, trivial⟩).snoc ⟨.pop rfl rfl, trivial⟩).snoc
    ⟨.pop rfl rfl, trivial⟩).snoc ⟨.pop rfl rfl, trivial⟩
  have hpopNext := (((hpop.snoc ⟨.take rfl, trivial⟩).snoc ⟨.pop rfl rfl, trivial⟩).snoc
    ⟨.pop rfl rfl, trivial⟩).snoc ⟨.pop rfl rfl, trivial⟩
  have hofferLast := hpopNext.snoc ⟨.offer (i := true) (v := 7) rfl, trivial⟩
  have hreadLast := hofferLast.snoc ⟨.push (i := true) false rfl rfl, by rintro v w ⟨⟩⟩
  have hinspectLast := hreadLast.snoc ⟨.push (i := true) false rfl rfl, by rintro v w ⟨⟩⟩
  have hclaimLast := hinspectLast.snoc ⟨.push (i := true) false rfl rfl,
    fun _ _ _ => show 2 < 2 + 2 * (wordSize / 4) by decide⟩
  have hwriteLast := hclaimLast.snoc ⟨.push (i := true) false rfl rfl, by rintro v w ⟨⟩⟩
  have hpublishLast := hwriteLast.snoc ⟨.push (i := true) false rfl rfl, by rintro v w ⟨⟩⟩
  exact ⟨_, _, _, hring, hpublishLast, rfl, rfl, rfl, ring_keeps_order hring hpublishLast⟩

end Grommet.Ring
