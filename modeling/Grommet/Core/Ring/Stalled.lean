import Grommet.Core.Ring.Fullness

/-!
# A producer that is stalled for almost all positions

A producer reads the tail of a new ring and is stalled.  Another one pushes values that are
popped one by one, so that the ring never holds more than one, until all positions but one
less than a lap were claimed.  The slot of the first position then holds the stamp of the last
lap before the words start over, which is the lap before the first, and the stalled producer
reports a full ring.
-/

open Checked

namespace Grommet.Ring

/-- The first producer has read the tail of a new ring and is stalled, the other one and the
consumer are anywhere in their calls, `n` positions are claimed and `m` are freed. -/
structure Amid (L : Laps) (n m k : ℕ) (p : Option (Push ℕ)) (q : Option (Pop ℕ))
    (s : System Bool ℕ) : Prop where
  inv : Inv L s
  pop : s.pop = q
  push : s.push false = p
  place : s.place false = k
  stalled : s.push true = some (.inspecting 7 0)
  stay : s.place true = 0
  call : s.call true = 0
  claims : s.claims.length = n
  pops : s.pops.length = m

/-- The states of a run in which the ring holds one value at most. -/
def Sparse (t : List (System Bool ℕ)) : Prop :=
  ∀ s ∈ t, s.claims.length ≤ s.pops.length + 1

variable {L : Laps} {n m k : ℕ} {p p' : Push ℕ} {q q' : Pop ℕ} {s s' : System Bool ℕ}
  {t t' : List (System Bool ℕ)} {ring : Inner ℕ}

/-- A run that leaves the ring with one value at most. -/
def Leads (L : Laps) (s : System Bool ℕ) (n m k : ℕ) (p : Option (Push ℕ)) (q : Option (Pop ℕ)) :
    Prop :=
  ∃ t s', Trail (Visits System.Awake) s t s' ∧ Sparse t ∧ Amid L n m k p q s'

namespace Amid

theorem visit {e : Event Bool ℕ} {p q : Option _} (hstep : Step s e s') (hawake : s.Awake e)
    (hsparse : n ≤ m + 1) (h : Amid L n m k p q s') :
  Leads L s n m k p q
  := by
  refine ⟨[s'], s', Trail.nil.snoc ⟨rfl, e, hstep, hawake⟩, ?_, h⟩
  intro s₁ hs₁
  rw [List.mem_singleton.mp hs₁, h.claims, h.pops]
  exact hsparse

/-- The other producer calls `try_push`. -/
theorem offer (h : Amid L n m k none none s) (hsparse : n ≤ m + 1) :
  Leads L s n m k (some (.reading 0)) none
  := by
  have hstep : Step s (.offer false 0) _ := .offer h.push
  have hinv := h.inv.step hstep trivial
  apply visit hstep trivial hsparse
  exact ⟨hinv, h.pop, rfl, h.place, h.stalled, h.stay, h.call, h.claims, h.pops⟩

/-- A step of its call. -/
theorem advance {q : Option (Pop ℕ)} (h : Amid L n m k (some p) q s)
    (hstep : p.step s.ring false = .ok (ring, p'))
    (hawake : ∀ w, p.word = some w → n < k + L.period)
    (hsparse : n + (p.claimed p').length ≤ m + 1) :
  Leads L s (n + (p.claimed p').length) m (p'.place n k) p'.rest q
  := by
  obtain ⟨phase, hmarks⟩ := h.inv.marked
  have hpush : Step s (.push false) _ := .push false h.push hstep
  have hawake' : s.Awake (.push false) := by
    intro p₁ w hp₁ hw
    rw [h.push] at hp₁
    cases hp₁
    rw [h.claims, h.place, Inner.period, hmarks.fits.period]
    exact hawake w hw
  have hinv := h.inv.step hpush (fresh_of_awake hawake')
  apply visit hpush hawake' hsparse
  refine ⟨hinv, h.pop, rfl, ?_, h.stalled, h.stay, h.call, ?_, h.pops⟩
  · rw [← h.claims, ← h.place]
    rfl
  · rw [List.length_append, List.length_map, h.claims]

/-- A step of the consumer. -/
theorem consume {p : Option (Push ℕ)} {head : ℕ} (h : Amid L n m k p (some q) s)
    (hstep : q.step s.ring s.head = .ok (ring, head, q')) (hsparse : n ≤ m + 1) :
  Leads L s n (m + q'.result.toList.length) k p q'.rest
  := by
  have hpop : Step s .pop _ := .pop h.pop hstep
  have hinv := h.inv.step hpop trivial
  apply visit hpop trivial (by omega)
  refine ⟨hinv, rfl, h.push, h.place, h.stalled, h.stay, h.call, h.claims, ?_⟩
  rw [List.length_append, h.pops]

end Amid

theorem Leads.trans {p q : Option _} {n' m' k' : ℕ} {p' q' : Option _}
    (h : Leads L s n m k p q)
    (hnext : ∀ s', Amid L n m k p q s' → Leads L s' n' m' k' p' q') :
  Leads L s n' m' k' p' q'
  := by
  obtain ⟨t, s', hrun, hsparse, hamid⟩ := h
  obtain ⟨t', s'', hrun', hsparse', hamid'⟩ := hnext s' hamid
  refine ⟨t ++ t', s'', hrun.trans hrun', ?_, hamid'⟩
  intro s₁ hs₁
  rcases List.mem_append.mp hs₁ with hs₁ | hs₁
  · exact hsparse s₁ hs₁
  · exact hsparse' s₁ hs₁

namespace Amid

/-- The word that the other producer works at. -/
theorem word {q : Option (Pop ℕ)} {w : ℕ} (h : Amid L n m k (some p) q s) (hw : p.word = some w) :
  w = L.position k
  := by
  obtain ⟨phase, hmarks⟩ := h.inv.marked
  have hgetD : ((s.push false).getD .pushed).word = some w := by
    rw [h.push]
    exact hw
  rw [← h.place]
  exact (hmarks.word false w hgetD).1

/-- The other producer pushes a value. -/
theorem pushed (h : Amid L n n k none none s) :
  Leads L s (n + 1) n n none none
  := by
  have hperiod : 1 < L.period := by
    have htwo := L.two
    have hle := Nat.mul_le_mul L.pos htwo
    rw [Laps.period]
    omega
  apply (h.offer (by omega)).trans
  intro s₁ h₁
  apply (h₁.advance rfl (by rintro w ⟨⟩) (Nat.le_succ n)).trans
  intro s₂ h₂
  have hw : s₁.ring.tail = L.position n := h₂.word rfl
  rw [hw] at h₂
  have hslot : s₂.ring.slot (L.position n) = .ok ⟨L.position n, none⟩ := by
    obtain ⟨phase, hmarks⟩ := h₂.inv.marked
    have hclaims : (s₂.claims.map Prod.snd).length = n := by
      rw [List.length_map]
      exact h₂.claims
    have hpops : s₂.pops.length = n := h₂.pops
    have hcapacity := L.pos
    rw [hmarks.fits.slot, hmarks.slots n (by omega) (by omega),
      (hmarks.free n (by omega) (by omega)).mpr (by omega)]
    rfl
  have hinspect : (Push.inspecting 0 (L.position n)).step s₂.ring false =
      .ok (s₂.ring, .claiming 0 (L.position n)) := by
    rw [Push.step, hslot]
    exact if_pos rfl
  apply (h₂.advance hinspect (fun _ _ => show n < n + L.period by omega) (Nat.le_succ n)).trans
  intro s₃ h₃
  have hclaim : (Push.claiming 0 (L.position n)).step s₃.ring false =
      .ok ({ s₃.ring with tail := s₃.ring.advance (L.position n) },
        .writing 0 (L.position n)) := by
    obtain ⟨phase, hmarks⟩ := h₃.inv.marked
    have htail : s₃.ring.tail = L.position n := by
      rw [hmarks.tail, List.length_map]
      exact congrArg L.position h₃.claims
    rw [Push.step]
    exact if_pos ⟨htail, rfl⟩
  apply (h₃.advance hclaim (fun _ _ => show n < n + L.period by omega) (Nat.le_refl _)).trans
  intro s₄ h₄
  apply (h₄.advance rfl (fun _ _ => show n + 1 < n + L.period by omega) (Nat.le_refl _)).trans
  intro s₅ h₅
  exact h₅.advance rfl (fun _ _ => show n + 1 < n + L.period by omega) (Nat.le_refl _)

/-- The slot at the head. -/
theorem headSlot {p : Option (Push ℕ)} {q : Option (Pop ℕ)} (h : Amid L n m k p q s) :
  ∃ phase, Marks L s.ring s.head (q.getD (.popped none)) (fun i => (s.push i).getD .pushed)
    (s.claims.map Prod.snd) m s.place phase ∧
    s.ring.slot s.head = .ok (content L (s.claims.map Prod.snd) m (phase m))
  := by
  obtain ⟨phase, hmarks⟩ := h.inv.marked
  rw [h.pop, h.pops] at hmarks
  have hcapacity := L.pos
  refine ⟨phase, hmarks, ?_⟩
  rw [hmarks.head, hmarks.fits.slot]
  exact hmarks.slots m (Nat.le_refl _) (by omega)

/-- The position at the head is published when no producer holds one and the consumer has not
taken its value. -/
theorem published {pop : Pop ℕ} {phase : ℕ → Phase} (hlt : m < n)
    (hclaims : s.claims.length = n) (hpush : s.push false = none)
    (hstalled : s.push true = some (.inspecting 7 0))
    (hmarks : Marks L s.ring s.head pop (fun i => (s.push i).getD .pushed)
      (s.claims.map Prod.snd) m s.place phase) (hphase : phase m ≠ .emptied) :
  phase m = .published
  := by
  have hlength : (s.claims.map Prod.snd).length = n := by
    rw [List.length_map, hclaims]
  have hcapacity := L.pos
  have hsite (i : Bool) : ((s.push i).getD .pushed).site = none := by
    cases i with
    | false =>
      rw [hpush]
      rfl
    | true =>
      rw [hstalled]
      rfl
  have hheld (hphase : phase m = .claimed ∨ phase m = .written) : False := by
    obtain ⟨i, hi, -⟩ := hmarks.holder m (Nat.le_refl _) (by omega) hphase
    exact hi (hsite i)
  cases hp : phase m with
  | free =>
    have hfree := (hmarks.free m (Nat.le_refl _) (by omega)).mp hp
    omega
  | claimed => exact (hheld (Or.inl hp)).elim
  | written => exact (hheld (Or.inr hp)).elim
  | published => rfl
  | emptied => exact (hphase hp).elim

/-- The consumer pops a value. -/
theorem popped (h : Amid L (n + 1) n k none none s) :
  Leads L s (n + 1) (n + 1) k none none
  := by
  have htake : Step s .take _ := .take h.pop
  have hlooking : Amid L (n + 1) n k none (some .looking) { s with pop := some .looking } :=
    ⟨h.inv.step htake trivial, rfl, h.push, h.place, h.stalled, h.stay, h.call, h.claims, h.pops⟩
  apply (visit htake trivial (Nat.le_refl _) hlooking).trans
  intro s₁ h₁
  have hlook : (Pop.looking : Pop ℕ).step s₁.ring s₁.head = .ok (s₁.ring, s₁.head, .emptying) := by
    obtain ⟨phase, hmarks, hslot⟩ := h₁.headSlot
    have hphase := published (Nat.lt_succ_self n) h₁.claims h₁.push h₁.stalled hmarks hmarks.pop
    rw [Pop.step, hslot, hphase, hmarks.head]
    exact if_pos rfl
  apply (h₁.consume hlook (Nat.le_refl _)).trans
  intro s₂ h₂
  obtain ⟨phase, -, hslot⟩ := h₂.headSlot
  have hempty : (Pop.emptying : Pop ℕ).step s₂.ring s₂.head = .ok
      (s₂.ring.setSlot s₂.head fun slot => { slot with value := none }, s₂.head,
        .freeing (content L (s₂.claims.map Prod.snd) n (phase n)).value) := by
    rw [Pop.step, hslot]
    rfl
  apply (h₂.consume hempty (Nat.le_refl _)).trans
  intro s₃ h₃
  obtain ⟨phase', hmarks, -⟩ := h₃.headSlot
  obtain ⟨hlt, -, hvalue⟩ := hmarks.pop
  have hsome : (content L (s₂.claims.map Prod.snd) n (phase n)).value =
      some ((s₃.claims.map Prod.snd).get ⟨n, hlt⟩) := by
    rw [hvalue]
    exact List.getElem?_eq_getElem hlt
  rw [hsome] at h₃
  exact h₃.consume rfl (Nat.le_refl _)

/-- Any number of values are pushed and popped one by one. -/
theorem cycles (h : Amid L 0 0 k none none s) (n : ℕ) :
  ∃ k, Leads L s n n k none none
  := by
  induction n with
  | zero => exact ⟨k, [], s, .nil, fun s hs => (List.not_mem_nil hs).elim, h⟩
  | succ n ih =>
    obtain ⟨k, hleads⟩ := ih
    refine ⟨n, hleads.trans ?_⟩
    intro s₁ h₁
    apply h₁.pushed.trans
    intro s₂ h₂
    exact h₂.popped

/-- The stalled producer finds the stamp of the last lap before the words start over. -/
theorem refuses (h : Amid L (n + 1) n k none none s) (hn : n + L.capacity = L.period) :
  (Push.inspecting 7 0).step s.ring false = .ok (s.ring, .refused 7)
  := by
  obtain ⟨phase, hmarks, hslot⟩ := h.headSlot
  have hphase := published (Nat.lt_succ_self n) h.claims h.push h.stalled hmarks hmarks.pop
  have hstart : L.position 0 = 0 := by
    rw [Laps.position, Nat.zero_div, Nat.zero_mod, Nat.zero_mul, Nat.zero_mod]
  have hend : L.position (n + L.capacity) = 0 := by
    rw [hn, Laps.position, Laps.period, Nat.mul_div_cancel_left _ L.pos, Nat.mod_self,
      Nat.zero_mul, Nat.mul_mod_right]
  have hindex : n % L.capacity = 0 % L.capacity := by
    rw [← Nat.add_mod_right, hn, Laps.period, Nat.mul_mod_right, Nat.zero_mod]
  have hmod : (L.position n + 1) % wordSize = L.position n + 1 := by
    rw [← hmarks.fits.size]
    exact Nat.mod_eq_of_lt (L.position_add_one_lt n)
  have hfirst : s.ring.slot 0 = .ok (content L (s.claims.map Prod.snd) n .published) := by
    rw [hmarks.head, hmarks.fits.slot, hindex, hphase] at hslot
    rw [← hstart, hmarks.fits.slot]
    exact hslot
  have hlap : (L.position n + 1 + s.ring.oneLap) % wordSize = (0 + 1) % wordSize := by
    rw [hmarks.fits.oneLap, ← hmarks.fits.size, L.position_add_one_add_lap, hend]
    have hlt := L.position_add_one_lt n
    exact (Nat.mod_eq_of_lt (by omega)).symm
  rw [Push.step, hfirst, ok_bind, content]
  simp only
  rw [hmod, if_neg (Nat.succ_ne_zero _), if_pos hlap]

end Amid

/-- Every such run of a new ring keeps the invariant. -/
theorem Inv.visits (hfits : ring.Fits L) (htail : ring.tail = 0)
    (hslots : ring.slots = (List.range L.capacity).map fun index => ⟨index, none⟩)
    (hrun : Trail (Visits System.Awake) (System.start ring) t s) :
  Inv L s
  := by
  apply hrun.invariant (fun _ s => Inv L s) (Recorded.start hfits htail hslots)
  rintro _ s₁ s₂ s₃ - hinv ⟨rfl, e, hstep, hawake⟩
  exact hinv.step hstep (fresh_of_awake hawake)

/-- A ring of two: the stalled producer reports a full ring when all positions but one were
claimed since it read the tail, and the ring never held more than one value. -/
theorem stalled_producer_refused :
  ∃ (ring : Inner ℕ) (t : List (System Bool ℕ)) (s : System Bool ℕ), bounded 2 = .ok ring ∧
    Trail (Visits System.Awake) (System.start ring) t s ∧
    ∃ c ∈ s.refused, ¬ Within 2 t c.1
  := by
  have hring : bounded 2 = .ok (⟨0, [⟨0, none⟩, ⟨1, none⟩], 2, 4⟩ : Inner ℕ) := rfl
  obtain ⟨L, hcapacity, hfits, htail, hslots⟩ := bounded_fits hring
  have hslots' : [⟨0, none⟩, ⟨1, none⟩] =
      (List.range L.capacity).map fun index => (⟨index, none⟩ : Slot ℕ) := by
    rw [hcapacity]
    exact hslots
  have hoffer : Trail (Visits System.Awake)
      (System.start (⟨0, [⟨0, none⟩, ⟨1, none⟩], 2, 4⟩ : Inner ℕ) : System Bool ℕ) _ _ :=
    Trail.nil.snoc ⟨rfl, _, .offer (i := true) (v := 7) rfl, trivial⟩
  have hread := hoffer.snoc ⟨rfl, _, .push (i := true) false rfl rfl, by rintro p w ⟨⟩ ⟨⟩⟩
  have hinv := Inv.visits hfits htail hslots' hread
  have hstart : Amid L 0 0 0 none none _ := ⟨hinv, rfl, rfl, rfl, rfl, rfl, rfl, rfl, rfl⟩
  have hperiod : L.period - 2 + L.capacity = L.period := by
    have hle := Nat.mul_le_mul_left L.capacity L.two
    rw [Laps.period]
    omega
  obtain ⟨k, hcycles⟩ := hstart.cycles (L.period - 2)
  obtain ⟨t, s, hrun, hsparse, hamid⟩ := hcycles.trans fun _ h => h.pushed
  have hrefuse : Step s (.push true) _ := .push false hamid.stalled (hamid.refuses hperiod)
  have hawake : s.Awake (.push true) := by
    obtain ⟨phase, hmarks⟩ := hamid.inv.marked
    intro p w hp hw
    rw [hamid.claims, hamid.stay, Inner.period, hmarks.fits.period]
    omega
  have hall := (hread.trans hrun).snoc ⟨rfl, _, hrefuse, hawake⟩
  refine ⟨_, _, _, hring, hall, (0, 7), ?_, ?_⟩
  · rw [← hamid.call]
    exact List.mem_append_right _ List.mem_cons_self
  · rintro ⟨s₁, hs₁, -, hfull⟩
    rcases List.mem_append.mp hs₁ with hs₁ | hs₁
    · rcases List.mem_append.mp hs₁ with hs₁ | hs₁
      · rcases List.mem_append.mp hs₁ with hs₁ | hs₁
        · rw [List.mem_singleton.mp hs₁] at hfull
          cases hfull
        · rw [List.mem_singleton.mp hs₁] at hfull
          cases hfull
      · have hle := hsparse s₁ hs₁
        omega
    · rw [List.mem_singleton.mp hs₁] at hfull
      simp only [Push.claimed, List.map_nil, List.append_nil] at hfull
      have hclaims := hamid.claims
      have hpops := hamid.pops
      omega

end Grommet.Ring
