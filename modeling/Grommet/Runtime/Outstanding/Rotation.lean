import Grommet.Library.Circle
import Grommet.Runtime.Outstanding.Slots

/-!
# The rotation of a harvest

A harvest visits the slots in circular order from its cursor.  It takes the summary words in
turns, the first one last again for the words before the cursor, and splits the word of the
cursor in the same way.  So a slot has one place in a rotation: its own number, or that number
beyond the numbers that the summary words can address if it stands before the cursor.

What a harvest still awaits, at whatever level of the bitmap it stands, it awaits at places
beyond the ones it has visited.
-/

namespace Grommet.Outstanding

/-- How many turns a rotation takes before it wraps. -/
def ReadySet.turns (r : ReadySet) : ℕ := max 1 r.summaries

/-- The turn of the rotation to which the words after the current one belong. -/
def Next.turn (turns : ℕ) : Next → ℕ
  | .single => 0
  | .rotate step => step
  | .wrap => turns
  | .last => turns

namespace Pass

/-- Where the rotation comes to a word in a turn. -/
def wordPlace (p : Pass) (turn word : ℕ) : ℕ := (p.startWord / 64 + turn) * 64 + word % 64

/-- A summary word is the one of a turn. -/
def Meets (p : Pass) (turns turn summary : ℕ) : Prop :=
  summary < turns ∧
    (summary = p.startWord / 64 + turn ∨ summary + turns = p.startWord / 64 + turn)

/-- What a guard holds in a turn of a rotation that starts at a slot. -/
structure Placed (p : Pass) (start turns turn : ℕ) : Prop where
  start : p.startWord * 64 + p.startBit = start
  startBit : p.startBit < 64
  startWord : p.startWord < 64 * turns
  le : turn ≤ turns
  summary : ∀ b, p.guard.summary.getLsbD b = true → p.Meets turns turn p.guard.summaryIndex ∧
    p.startWord < (p.startWord / 64 + turn) * 64 + b ∧
    (p.startWord / 64 + turn) * 64 + b < p.startWord + 64 * turns
  deferredSummary : ∀ b, p.guard.deferredSummary.getLsbD b = true →
    p.guard.deferredSummaryIndex = p.startWord / 64 ∧ b < p.startWord % 64 ∧ turn < turns
  deferred : ∀ b, p.guard.deferredBits.getLsbD b = true →
    p.guard.deferredWord = p.startWord ∧ b < p.startBit

/-- A word is the one that a guard comes to before the rest of its summary word. -/
structure AtWord (p : Pass) (turns turn word : ℕ) : Prop where
  meets : p.Meets turns turn (word / 64)
  rest : ∀ b, p.guard.summary.getLsbD b = true → word % 64 < b

/-- A harvest has held back the slot at a place, or its word, or comes to its summary word in a
later turn; `ready` and `announced` tell whether the bit of the slot is in its word, and the
bit of that word in the summary. -/
def Awaits (p : Pass) (turns turn : ℕ) (ready announced : Prop) (x : ℕ) : Prop :=
  (x / 64 = p.startWord + 64 * turns ∧ p.guard.deferredBits.getLsbD (x % 64) = true) ∨
    (ready ∧ ((x / 4096 = p.startWord / 64 + turn ∧
        p.guard.summary.getLsbD (x / 64 % 64) = true) ∨
      (x / 4096 = p.startWord / 64 + turns ∧
        p.guard.deferredSummary.getLsbD (x / 64 % 64) = true) ∨
      (announced ∧ p.startWord / 64 + turn < x / 4096 ∧ x / 4096 < p.startWord / 64 + turns)))

end Pass

/-- Where a harvest stands in its rotation. -/
def Phase.Placed (start turns : ℕ) : Phase → Prop
  | .taking pass => pass.Placed start turns 0 ∧ turns = 1 ∧ pass.startWord = 0
  | .takingSummary pass 0 => pass.Placed start turns 0
  | .takingSummary pass (step + 1) => pass.Placed start turns step ∧ step + 1 < turns
  | .takingStart pass => pass.Placed start turns 0
  | .takingWord pass word next =>
      pass.Placed start turns (next.turn turns) ∧ pass.AtWord turns (next.turn turns) word ∧
      pass.startWord < pass.wordPlace (next.turn turns) word ∧
      pass.wordPlace (next.turn turns) word < pass.startWord + 64 * turns ∧
      (next = .wrap ∨ ∃ step < turns, next = .rotate step)
  | .polling pass next =>
      pass.Placed start turns (next.turn turns) ∧
      (∀ b, pass.guard.currentBits.getLsbD b = true →
        pass.AtWord turns (next.turn turns) (pass.guard.currentWord) ∧
        start ≤ pass.wordPlace (next.turn turns) pass.guard.currentWord * 64 + b ∧
        pass.wordPlace (next.turn turns) pass.guard.currentWord * 64 + b < start + 4096 * turns ∧
        (next ≠ .last → pass.wordPlace (next.turn turns) pass.guard.currentWord <
          pass.startWord + 64 * turns)) ∧
      (next = .single → turns = 1) ∧ (∀ step, next = .rotate step → step < turns)
  | _ => True

/-- A harvest still comes to the slot at a place. -/
def Phase.Awaits (turns : ℕ) (ready announced : Prop) (x : ℕ) : Phase → Prop
  | .taking pass =>
      (ready ∧ (x / 64 = pass.startWord ∨ x / 64 = pass.startWord + 64 * turns)) ∨
      pass.Awaits turns 0 ready announced x
  | .takingSummary _ 0 => ready ∧ announced
  | .takingSummary pass (step + 1) => pass.Awaits turns step ready announced x
  | .takingStart pass =>
      (ready ∧ (x / 64 = pass.startWord ∨ x / 64 = pass.startWord + 64 * turns)) ∨
      pass.Awaits turns 0 ready announced x
  | .takingWord pass word next =>
      (ready ∧ x / 64 = pass.wordPlace (next.turn turns) word) ∨
      pass.Awaits turns (next.turn turns) ready announced x
  | .polling pass next =>
      (x / 64 = pass.wordPlace (next.turn turns) pass.guard.currentWord ∧
        pass.guard.currentBits.getLsbD (x % 64) = true) ∨
      pass.Awaits turns (next.turn turns) ready announced x
  | _ => False

section Passes

variable {p : Pass} {g : Guard} {start turns turn step n word x : ℕ} {next : Next}
  {ready announced : Prop}

/-- The lowest bit of a word. -/
theorem trailingZeros_spec {bits : Word} (h : bits ≠ 0#64) :
  bits.getLsbD (trailingZeros bits) = true ∧ trailingZeros bits < 64 ∧
    ∀ b, bits.getLsbD b = true → trailingZeros bits ≤ b
  := by
  have hset := BitVec.getLsbD_true_ctz_of_ne_zero h
  refine ⟨hset, BitVec.lt_of_getLsbD hset, ?_⟩
  intro b hb
  by_contra hlt
  have hfalse := BitVec.getLsbD_false_of_lt_ctz (x := bits) (i := b) (Nat.lt_of_not_le hlt)
  rw [hb] at hfalse
  cases hfalse

theorem nextAnnounced_spec (h : p.guard.nextAnnounced = some (word, g)) :
  p.guard.summary ≠ 0#64 ∧
    word = p.guard.summaryIndex * 64 + trailingZeros p.guard.summary ∧
    g = { p.guard with summary := p.guard.summary &&& (p.guard.summary - 1#64) }
  := by
  rw [Guard.nextAnnounced] at h
  split at h
  · cases h
  · rename_i hne
    cases h
    exact ⟨hne, rfl, rfl⟩

/-- The next announced word of a turn. -/
theorem Pass.Placed.nextAnnounced (h : p.Placed start turns turn)
    (hnext : p.guard.nextAnnounced = some (word, g)) :
  (p.setGuard g).Placed start turns turn ∧ (p.setGuard g).AtWord turns turn word ∧
    p.startWord < p.wordPlace turn word ∧ p.wordPlace turn word < p.startWord + 64 * turns
  := by
  obtain ⟨hne, rfl, rfl⟩ := nextAnnounced_spec hnext
  obtain ⟨hset, hlt, hlow⟩ := trailingZeros_spec hne
  obtain ⟨hmeets, hlower, hupper⟩ := h.summary _ hset
  have hdiv : (p.guard.summaryIndex * 64 + trailingZeros p.guard.summary) / 64 =
      p.guard.summaryIndex := by omega
  have hmod : (p.guard.summaryIndex * 64 + trailingZeros p.guard.summary) % 64 =
      trailingZeros p.guard.summary := by omega
  refine ⟨⟨h.start, h.startBit, h.startWord, h.le, ?_, h.deferredSummary, h.deferred⟩, ⟨?_, ?_⟩,
    ?_, ?_⟩
  · intro b hb
    exact h.summary b (BitVec.getLsbD_and_sub_one_iff.mp hb).1
  · rw [hdiv]
    exact hmeets
  · intro b hb
    obtain ⟨hbit, hother⟩ := BitVec.getLsbD_and_sub_one_iff.mp hb
    rw [hmod]
    exact lt_of_le_of_ne (hlow b hbit) (Ne.symm hother)
  · rw [Pass.wordPlace, hmod]
    exact hlower
  · rw [Pass.wordPlace, hmod]
    exact hupper

/-- A harvest that comes to the next announced word awaits the same slots. -/
theorem Pass.awaits_nextAnnounced (hnext : p.guard.nextAnnounced = some (word, g)) :
  p.Awaits turns turn ready announced x ↔
    (ready ∧ x / 64 = p.wordPlace turn word) ∨
      (p.setGuard g).Awaits turns turn ready announced x
  := by
  obtain ⟨hne, rfl, rfl⟩ := nextAnnounced_spec hnext
  obtain ⟨hset, hlt, -⟩ := trailingZeros_spec hne
  have hmod : (p.guard.summaryIndex * 64 + trailingZeros p.guard.summary) % 64 =
      trailingZeros p.guard.summary := by omega
  have hbits : (x / 4096 = p.startWord / 64 + turn ∧
      p.guard.summary.getLsbD (x / 64 % 64) = true) ↔
      (x / 64 = (p.startWord / 64 + turn) * 64 + trailingZeros p.guard.summary ∨
        (x / 4096 = p.startWord / 64 + turn ∧
          (p.guard.summary &&& (p.guard.summary - 1#64)).getLsbD (x / 64 % 64) = true)) := by
    rw [BitVec.getLsbD_and_sub_one_iff]
    constructor
    · rintro ⟨hdiv, hbit⟩
      by_cases heq : x / 64 % 64 = p.guard.summary.ctz.toNat
      · left
        rw [trailingZeros]
        omega
      · exact Or.inr ⟨hdiv, hbit, heq⟩
    · rintro (heq | ⟨hdiv, hbit, -⟩)
      · have hlow : x / 64 % 64 = trailingZeros p.guard.summary := by omega
        rw [hlow]
        exact ⟨by omega, hset⟩
      · exact ⟨hdiv, hbit⟩
  rw [Pass.Awaits, Pass.wordPlace, hmod, hbits]
  constructor
  · rintro (hdeferred | ⟨hready, (hword | hrest) | hlater⟩)
    · exact Or.inr (Or.inl hdeferred)
    · exact Or.inl ⟨hready, hword⟩
    · exact Or.inr (Or.inr ⟨hready, Or.inl hrest⟩)
    · exact Or.inr (Or.inr ⟨hready, Or.inr hlater⟩)
  · rintro (⟨hready, hword⟩ | hdeferred | ⟨hready, hrest | hlater⟩)
    · exact Or.inr ⟨hready, Or.inl (Or.inl hword)⟩
    · exact Or.inl hdeferred
    · exact Or.inr ⟨hready, Or.inl (Or.inr hrest)⟩
    · exact Or.inr ⟨hready, Or.inr hlater⟩

/-- Without announcements in hand the turn does not matter. -/
theorem Pass.Placed.retime {turn' : ℕ} (h : p.Placed start turns turn)
    (hsummary : p.guard.summary = 0#64) (hdeferred : p.guard.deferredSummary = 0#64)
    (hle : turn' ≤ turns) :
  p.Placed start turns turn'
  := by
  refine ⟨h.start, h.startBit, h.startWord, hle, ?_, ?_, h.deferred⟩
  · intro b hb
    rw [hsummary, BitVec.getLsbD_zero] at hb
    cases hb
  · intro b hb
    rw [hdeferred, BitVec.getLsbD_zero] at hb
    cases hb

/-- The bits before the cursor in its own word come last. -/
theorem Pass.Placed.activateDeferred (h : p.Placed start turns turns)
    (hsummary : p.guard.summary = 0#64) :
  (Phase.polling (p.setGuard p.guard.activateDeferred) .last).Placed start turns
  := by
  have hdiv := h.startWord
  refine ⟨⟨h.start, h.startBit, h.startWord, le_rfl, h.summary, h.deferredSummary, ?_⟩, ?_,
    Next.noConfusion, fun _ => Next.noConfusion⟩
  · intro b hb
    cases (BitVec.getLsbD_zero (w := 64) (i := b)).symm.trans hb
  · intro b hb
    obtain ⟨hword, hlt⟩ := h.deferred b hb
    have hstart := h.start
    have hstartBit := h.startBit
    have hplace : (p.setGuard p.guard.activateDeferred).wordPlace turns p.guard.deferredWord =
        p.startWord + 64 * turns := by
      rw [hword, Pass.wordPlace]
      show (p.startWord / 64 + turns) * 64 + p.startWord % 64 = _
      omega
    refine ⟨⟨⟨?_, ?_⟩, ?_⟩, ?_, ?_, fun hne => absurd rfl hne⟩
    · show p.guard.deferredWord / 64 < turns
      rw [hword]
      omega
    · right
      show p.guard.deferredWord / 64 + turns = p.startWord / 64 + turns
      rw [hword]
    · intro b' hb'
      cases (BitVec.getLsbD_zero (w := 64) (i := b')).symm.trans
        ((congrArg (fun word => BitVec.getLsbD word b') hsummary).symm.trans hb')
    · show start ≤ (p.setGuard p.guard.activateDeferred).wordPlace turns p.guard.deferredWord * 64 + b
      rw [hplace]
      omega
    · show (p.setGuard p.guard.activateDeferred).wordPlace turns p.guard.deferredWord * 64 + b < _
      rw [hplace]
      omega

theorem Pass.Placed.awaits_activateDeferred (h : p.Placed start turns turns)
    (hsummary : p.guard.summary = 0#64) (hdeferred : p.guard.deferredSummary = 0#64) :
  (Phase.polling (p.setGuard p.guard.activateDeferred) .last).Awaits turns ready announced x ↔
    p.Awaits turns turns ready announced x
  := by
  have hplace : p.guard.deferredBits.getLsbD (x % 64) = true →
      (p.startWord / 64 + turns) * 64 + p.guard.deferredWord % 64 = p.startWord + 64 * turns := by
    intro hb
    rw [(h.deferred _ hb).1]
    omega
  rw [Phase.Awaits, Pass.Awaits, Pass.Awaits]
  simp only [Pass.setGuard, Guard.activateDeferred, Pass.wordPlace, Next.turn, hsummary, hdeferred,
    BitVec.getLsbD_zero, Bool.false_eq_true, and_false, false_or]
  constructor
  · rintro (⟨hx, hb⟩ | hlater)
    · exact Or.inl ⟨hx.trans (hplace hb), hb⟩
    · exact Or.inr hlater
  · rintro (⟨hx, hb⟩ | hlater)
    · exact Or.inl ⟨hx.trans (hplace hb).symm, hb⟩
    · exact Or.inr hlater

theorem Pass.Placed.wrapUp (h : p.Placed start turns turns) :
  p.wrapUp.Placed start turns
  := by
  rw [Pass.wrapUp]
  cases hnext : p.guard.nextAnnounced with
  | none => exact h.activateDeferred (summary_eq_zero hnext)
  | some found =>
    obtain ⟨hplaced, hword, hlower, hupper⟩ := h.nextAnnounced hnext
    exact ⟨hplaced, hword, hlower, hupper, Or.inl rfl⟩

theorem Pass.Placed.awaits_wrapUp (h : p.Placed start turns turns)
    (hdeferred : p.guard.deferredSummary = 0#64) :
  p.wrapUp.Awaits turns ready announced x ↔ p.Awaits turns turns ready announced x
  := by
  rw [Pass.wrapUp]
  cases hnext : p.guard.nextAnnounced with
  | none => exact h.awaits_activateDeferred (summary_eq_zero hnext) hdeferred
  | some found => exact (Pass.awaits_nextAnnounced hnext).symm

/-- The words before the cursor in its own summary word come behind the other summary words. -/
theorem Pass.Placed.activateDeferredSummary (h : p.Placed start turns turn) :
  (p.setGuard p.guard.activateDeferredSummary).Placed start turns turns
  := by
  have hword := h.startWord
  refine ⟨h.start, h.startBit, h.startWord, le_rfl, ?_, ?_, h.deferred⟩
  · intro b hb
    obtain ⟨hindex, hlt, -⟩ := h.deferredSummary b hb
    refine ⟨⟨?_, ?_⟩, ?_, ?_⟩
    · show p.guard.deferredSummaryIndex < turns
      omega
    · right
      show p.guard.deferredSummaryIndex + turns = p.startWord / 64 + turns
      omega
    · show p.startWord < (p.startWord / 64 + turns) * 64 + b
      omega
    · show (p.startWord / 64 + turns) * 64 + b < p.startWord + 64 * turns
      omega
  · intro b hb
    cases (BitVec.getLsbD_zero (w := 64) (i := b)).symm.trans hb

theorem Pass.awaits_activateDeferredSummary (hsummary : p.guard.summary = 0#64)
    (hlast : turns ≤ turn + 1) :
  (p.setGuard p.guard.activateDeferredSummary).Awaits turns turns ready announced x ↔
    p.Awaits turns turn ready announced x
  := by
  have hpast : ¬ (p.startWord / 64 + turns < x / 4096 ∧ x / 4096 < p.startWord / 64 + turns) := by
    omega
  have hpast' : ¬ (p.startWord / 64 + turn < x / 4096 ∧ x / 4096 < p.startWord / 64 + turns) := by
    omega
  rw [Pass.Awaits, Pass.Awaits]
  simp only [Pass.setGuard, Guard.activateDeferredSummary, hsummary, hpast, hpast',
    BitVec.getLsbD_zero, Bool.false_eq_true, and_false, false_or, or_false]

theorem Pass.awaits_retime (hsummary : p.guard.summary = 0#64)
    (hdeferred : p.guard.deferredSummary = 0#64) (hlast : turns ≤ turn + 1) :
  p.Awaits turns turns ready announced x ↔ p.Awaits turns turn ready announced x
  := by
  have hpast : ¬ (p.startWord / 64 + turns < x / 4096 ∧ x / 4096 < p.startWord / 64 + turns) := by
    omega
  have hpast' : ¬ (p.startWord / 64 + turn < x / 4096 ∧ x / 4096 < p.startWord / 64 + turns) := by
    omega
  rw [Pass.Awaits, Pass.Awaits]
  simp only [hsummary, hdeferred, hpast, hpast', BitVec.getLsbD_zero, Bool.false_eq_true, and_false,
    or_false]

/-- The harvest goes on in its rotation. -/
theorem Pass.Placed.resume (h : p.Placed start turns (next.turn turns)) (hfits : p.guard.Fits next)
    (hturns : turns = max 1 n) (hrotate : ∀ step, next = .rotate step → step < turns) :
  (p.resume n next).Placed start turns
  := by
  cases next with
  | single => exact (h.retime hfits.1 hfits.2 le_rfl).activateDeferred hfits.1
  | rotate step =>
    rw [Pass.resume]
    cases hnext : p.guard.nextAnnounced with
    | none =>
      simp only
      split
      · exact ⟨h, by omega⟩
      · exact h.activateDeferredSummary.wrapUp
    | some found =>
      obtain ⟨hplaced, hword, hlower, hupper⟩ := h.nextAnnounced hnext
      exact ⟨hplaced, hword, hlower, hupper, Or.inr ⟨step, hrotate step rfl, rfl⟩⟩
  | wrap => exact h.wrapUp
  | last => trivial

/-- The harvest goes on and awaits the same slots. -/
theorem Pass.Placed.awaits_resume (h : p.Placed start turns (next.turn turns))
    (hfits : p.guard.Fits next) (hturns : turns = max 1 n) (hsingle : next = .single → turns = 1)
    (hrotate : ∀ step, next = .rotate step → step < turns)
    (hlast : next = .last → p.guard.deferredBits = 0#64) :
  (p.resume n next).Awaits turns ready announced x ↔
    p.Awaits turns (next.turn turns) ready announced x
  := by
  cases next with
  | single =>
    have hone : turns = 1 := hsingle rfl
    refine ((h.retime hfits.1 hfits.2 le_rfl).awaits_activateDeferred hfits.1 hfits.2).trans ?_
    exact Pass.awaits_retime hfits.1 hfits.2 (show turns ≤ 0 + 1 by omega)
  | rotate step =>
    rw [Pass.resume]
    cases hnext : p.guard.nextAnnounced with
    | none =>
      simp only
      split
      · exact Iff.rfl
      · rw [h.activateDeferredSummary.awaits_wrapUp rfl]
        exact Pass.awaits_activateDeferredSummary (summary_eq_zero hnext)
          (show turns ≤ step + 1 by omega)
    | some found => exact (Pass.awaits_nextAnnounced hnext).symm
  | wrap => exact h.awaits_wrapUp hfits
  | last =>
    refine iff_of_false id ?_
    rw [Pass.Awaits]
    simp only [hfits.1, hfits.2, hlast rfl, BitVec.getLsbD_zero, Bool.false_eq_true, and_false,
      false_or, not_and]
    rintro - - hlower hupper
    exact absurd hupper (Nat.not_lt.mpr hlower.le)

theorem rotate_lt (hstep : step < turns) :
  ∀ step', Next.rotate step = .rotate step' → step' < turns
  := by
  rintro step' heq
  cases heq
  exact hstep

/-- The harvest goes on in the middle of its rotation. -/
theorem Pass.Placed.rotate (h : p.Placed start turns step) (hturns : turns = max 1 n)
    (hstep : step < turns) :
  (p.resume n (.rotate step)).Placed start turns
  := Pass.Placed.resume (show p.Placed start turns ((Next.rotate step).turn turns) from h) trivial
    hturns (rotate_lt hstep)

theorem Pass.Placed.awaits_rotate (h : p.Placed start turns step) (hturns : turns = max 1 n)
    (hstep : step < turns) :
  (p.resume n (.rotate step)).Awaits turns ready announced x ↔ p.Awaits turns step ready announced x
  := Pass.Placed.awaits_resume (show p.Placed start turns ((Next.rotate step).turn turns) from h)
    trivial hturns (fun heq => nomatch heq) (rotate_lt hstep) fun heq => nomatch heq

/-! ### Visits -/

/-- Where the rotation comes to the lowest bit of the current word. -/
def Pass.here (p : Pass) (turns : ℕ) (next : Next) : ℕ :=
  p.wordPlace (next.turn turns) p.guard.currentWord * 64 + trailingZeros p.guard.currentBits

theorem index_lt (hplaced : (Phase.polling p next).Placed start turns)
    (hbits : p.guard.currentBits ≠ 0#64) :
  p.index < 4096 * turns
  := by
  obtain ⟨hset, hlt, -⟩ := trailingZeros_spec hbits
  obtain ⟨hword, -⟩ := hplaced.2.1 _ hset
  have hindex := hword.meets.1
  rw [Pass.index, WORD_BITS]
  omega

theorem place_index (hplaced : (Phase.polling p next).Placed start turns)
    (hbits : p.guard.currentBits ≠ 0#64) :
  Circle.place start (4096 * turns) p.index = p.here turns next
  := by
  obtain ⟨hset, hlt, -⟩ := trailingZeros_spec hbits
  obtain ⟨hword, hle, hupper, -⟩ := hplaced.2.1 _ hset
  obtain ⟨-, hmeets⟩ := hword.meets
  apply Circle.place_eq hle hupper
  rw [Pass.index, Pass.wordPlace, WORD_BITS]
  omega

theorem awaits_here (hbits : p.guard.currentBits ≠ 0#64) :
  (Phase.polling p next).Awaits turns ready announced (p.here turns next)
  := by
  obtain ⟨hset, hlt, -⟩ := trailingZeros_spec hbits
  have hdiv : p.here turns next / 64 = p.wordPlace (next.turn turns) p.guard.currentWord := by
    rw [Pass.here]
    omega
  have hmod : p.here turns next % 64 = trailingZeros p.guard.currentBits := by
    rw [Pass.here]
    omega
  refine Or.inl ⟨hdiv, ?_⟩
  rw [hmod]
  exact hset

/-- What is held back comes behind the current word. -/
theorem here_lt_later (hplaced : (Phase.polling p next).Placed start turns)
    (hblank : (Phase.polling p next).Blank) (hbits : p.guard.currentBits ≠ 0#64)
    (h : p.Awaits turns (next.turn turns) ready announced x) :
  p.here turns next < x
  := by
  obtain ⟨hset, hlt, -⟩ := trailingZeros_spec hbits
  obtain ⟨hword, -, -, hupper⟩ := hplaced.2.1 _ hset
  have hturn : p.wordPlace (next.turn turns) p.guard.currentWord / 64 =
      p.startWord / 64 + next.turn turns := by
    rw [Pass.wordPlace]
    omega
  have hmod : p.wordPlace (next.turn turns) p.guard.currentWord % 64 =
      p.guard.currentWord % 64 := by
    rw [Pass.wordPlace]
    omega
  rw [Pass.here]
  rcases h with ⟨hx, hbit⟩ | ⟨-, ⟨hx, hbit⟩ | ⟨hx, hbit⟩ | ⟨-, hlower, -⟩⟩
  · have hne : next ≠ .last := by
      intro heq
      rw [hblank heq, BitVec.getLsbD_zero] at hbit
      cases hbit
    have hbelow := hupper hne
    omega
  · have hrest := hword.rest _ hbit
    omega
  · obtain ⟨-, -, hlater⟩ := hplaced.1.deferredSummary _ hbit
    omega
  · omega

/-- The lowest bit of the current word comes before everything else. -/
theorem here_le (hplaced : (Phase.polling p next).Placed start turns)
    (hblank : (Phase.polling p next).Blank) (hbits : p.guard.currentBits ≠ 0#64)
    (h : (Phase.polling p next).Awaits turns ready announced x) :
  p.here turns next ≤ x
  := by
  rcases h with ⟨hx, hbit⟩ | hlater
  · have hle := (trailingZeros_spec hbits).2.2 _ hbit
    rw [Pass.here]
    omega
  · exact (here_lt_later hplaced hblank hbits hlater).le

theorem visited_bit (b : ℕ) :
  p.visited.guard.currentBits.getLsbD b = true ↔
    p.guard.currentBits.getLsbD b = true ∧ b ≠ trailingZeros p.guard.currentBits
  := by
  show (p.guard.currentBits &&& ~~~(1#64 <<< trailingZeros p.guard.currentBits)).getLsbD b = true ↔ _
  by_cases hb : b < 64
  · rw [BitVec.getLsbD_clear hb, Bool.and_eq_true, Bool.not_eq_true', decide_eq_false_iff_not]
  · rw [BitVec.getLsbD_of_ge _ _ (Nat.le_of_not_lt hb), BitVec.getLsbD_of_ge _ _ (Nat.le_of_not_lt hb)]
    simp

theorem visited_placed (report : Harvest) (h : (Phase.polling p next).Placed start turns) :
  (Phase.polling { p.visited with report := report } next).Placed start turns
  := by
  obtain ⟨⟨hstart, hstartBit, hstartWord, hle, hsummary, hdeferredSummary, hdeferred⟩, hcurrent,
    hnext⟩ := h
  refine ⟨⟨hstart, hstartBit, hstartWord, hle, hsummary, hdeferredSummary, hdeferred⟩, ?_, hnext⟩
  intro b hb
  obtain ⟨⟨hmeets, hrest⟩, hwindow⟩ := hcurrent b ((visited_bit b).mp hb).1
  exact ⟨⟨hmeets, hrest⟩, hwindow⟩

/-- After a visit everything else is still awaited. -/
theorem visited_awaits :
  (Phase.polling p.visited next).Awaits turns ready announced x →
    (Phase.polling p next).Awaits turns ready announced x
  := by
  rintro (⟨hx, hbit⟩ | hlater)
  · exact Or.inl ⟨hx, ((visited_bit _).mp hbit).1⟩
  · exact Or.inr hlater

theorem awaits_visited (h : (Phase.polling p next).Awaits turns ready announced x)
    (hne : x ≠ p.here turns next) :
  (Phase.polling p.visited next).Awaits turns ready announced x
  := by
  rcases h with ⟨hx, hbit⟩ | hlater
  · refine Or.inl ⟨hx, (visited_bit _).mpr ⟨hbit, ?_⟩⟩
    intro heq
    apply hne
    rw [Pass.here]
    omega
  · exact Or.inr hlater

/-- After a visit everything that is awaited lies behind. -/
theorem here_lt (hplaced : (Phase.polling p next).Placed start turns)
    (hblank : (Phase.polling p next).Blank) (hbits : p.guard.currentBits ≠ 0#64)
    (h : (Phase.polling p.visited next).Awaits turns ready announced x) :
  p.here turns next < x
  := by
  rcases h with ⟨hx, hbit⟩ | hlater
  · obtain ⟨hold, hne⟩ := (visited_bit _).mp hbit
    have hle := (trailingZeros_spec hbits).2.2 _ hold
    rw [Pass.here]
    change x / 64 = p.wordPlace (next.turn turns) p.guard.currentWord at hx
    omega
  · exact here_lt_later hplaced hblank hbits hlater

end Passes

/-! ### Taking words and summary words -/

theorem slots_le (r : ReadySet) :
  r.slots ≤ 64 * r.wordCount ∧ r.wordCount ≤ 64 * r.turns ∧ r.slots ≤ 4096 * r.turns
  := by
  have hwords : r.slots ≤ 64 * r.wordCount := by
    rw [ReadySet.wordCount, divCeil, WORD_BITS]
    omega
  have hturns : r.wordCount ≤ 64 * r.turns := by
    rw [ReadySet.turns, ReadySet.summaries]
    split
    · rw [divCeil, WORD_BITS]
      omega
    · omega
  omega

theorem turns_congr {r r' : ReadySet} (h : r'.slots = r.slots) :
  r'.turns = r.turns
  := by
  rw [ReadySet.turns, ReadySet.turns, ReadySet.summaries, ReadySet.summaries, ReadySet.wordCount,
    ReadySet.wordCount, h]

section Takes

variable {r : ReadySet} {p : Pass} {start turns step word i x : ℕ} {bits : Word} {next : Next}

theorem low_bit {k b : ℕ} :
  (bits &&& lowMask k).getLsbD b = true ↔ bits.getLsbD b = true ∧ b < k
  := by
  by_cases hb : b < 64
  · rw [BitVec.getLsbD_and, getLsbD_lowMask hb, Bool.and_eq_true, decide_eq_true_eq]
  · rw [BitVec.getLsbD_of_ge _ _ (Nat.le_of_not_lt hb), BitVec.getLsbD_of_ge _ _ (Nat.le_of_not_lt hb)]
    simp

theorem high_bit {k b : ℕ} :
  (bits &&& ~~~lowMask k).getLsbD b = true ↔ bits.getLsbD b = true ∧ k ≤ b
  := by
  by_cases hb : b < 64
  · rw [BitVec.getLsbD_and, BitVec.getLsbD_not, getLsbD_lowMask hb]
    simp [hb]
  · rw [BitVec.getLsbD_of_ge _ _ (Nat.le_of_not_lt hb), BitVec.getLsbD_of_ge _ _ (Nat.le_of_not_lt hb)]
    simp

/-- A word split at the cursor. -/
def Pass.splitAt (p : Pass) (word : ℕ) (bits : Word) : Pass :=
  p.setGuard ((p.guard.setDeferred word (bits &&& lowMask p.startBit)).setCurrent word
    (bits &&& ~~~lowMask p.startBit))

theorem Pass.Placed.splitAt (h : p.Placed start turns 0)
    (hnext : (next = .single ∧ turns = 1) ∨ next = .rotate 0) :
  (Phase.polling (p.splitAt p.startWord bits) next).Placed start turns
  := by
  have hstart := h.start
  have hstartBit := h.startBit
  have hstartWord := h.startWord
  have hturn : next.turn turns = 0 := by
    rcases hnext with ⟨rfl, -⟩ | rfl <;> rfl
  have hplace : (p.splitAt p.startWord bits).wordPlace 0 p.startWord = p.startWord := by
    show (p.startWord / 64 + 0) * 64 + p.startWord % 64 = p.startWord
    omega
  rw [Phase.Placed, hturn]
  refine ⟨⟨h.start, h.startBit, h.startWord, h.le, h.summary, h.deferredSummary, ?_⟩, ?_, ?_, ?_⟩
  · intro b hb
    exact ⟨rfl, (low_bit.mp hb).2⟩
  · intro b hb
    have hge := (high_bit.mp hb).2
    have hlt := BitVec.lt_of_getLsbD hb
    show Pass.AtWord _ turns 0 p.startWord ∧ _ ≤ Pass.wordPlace _ 0 p.startWord * 64 + b ∧
      Pass.wordPlace _ 0 p.startWord * 64 + b < _ ∧ (_ → Pass.wordPlace _ 0 p.startWord < _)
    rw [hplace]
    refine ⟨⟨⟨?_, Or.inl rfl⟩, ?_⟩, ?_, ?_, ?_⟩
    · show p.startWord / 64 < turns
      omega
    · intro b' hb'
      obtain ⟨-, hlower, -⟩ := h.summary b' hb'
      omega
    · omega
    · omega
    · intro _
      show p.startWord < p.startWord + 64 * turns
      omega
  · rintro rfl
    rcases hnext with ⟨-, hone⟩ | heq
    · exact hone
    · cases heq
  · rintro step rfl
    rcases hnext with ⟨heq, -⟩ | heq
    · cases heq
    · cases heq
      omega

/-- The slots of a word are those at the place of the word. -/
theorem word_iff {turn : ℕ} (h : p.Placed start turns turn)
    (hmeets : p.Meets turns turn (word / 64)) (hlower : p.startWord < p.wordPlace turn word)
    (hupper : p.wordPlace turn word < p.startWord + 64 * turns) (hi : i < 4096 * turns) :
  i / 64 = word ↔ Circle.place start (4096 * turns) i / 64 = p.wordPlace turn word
  := by
  have hstart := h.start
  have hstartBit := h.startBit
  have hstartWord := h.startWord
  obtain ⟨hle, hlt, hx⟩ := Circle.place_spec (c := start) hi (by omega)
  obtain ⟨hindex, hmeets⟩ := hmeets
  rw [Pass.wordPlace] at hlower hupper ⊢
  omega

theorem startWord_iff {turn : ℕ} (h : p.Placed start turns turn) (hi : i < 4096 * turns) :
  i / 64 = p.startWord ↔ Circle.place start (4096 * turns) i / 64 = p.startWord ∨
    Circle.place start (4096 * turns) i / 64 = p.startWord + 64 * turns
  := by
  have hstart := h.start
  have hstartBit := h.startBit
  have hstartWord := h.startWord
  obtain ⟨hle, hlt, hx⟩ := Circle.place_spec (c := start) hi (by omega)
  omega

theorem place_mod (hi : i < 4096 * turns) (hstart : start < 4096 * turns) :
  Circle.place start (4096 * turns) i % 64 = i % 64
  := by
  obtain ⟨-, -, hx⟩ := Circle.place_spec hi hstart
  omega

theorem takeWord_placed (h : (Phase.takingWord p word next).Placed start turns) :
  (Phase.polling (p.setGuard (p.guard.setCurrent word bits)) next).Placed start turns
  := by
  obtain ⟨hplaced, hword, hlower, hupper, hnext⟩ := h
  have hstart := hplaced.start
  have hstartBit := hplaced.startBit
  refine ⟨⟨hplaced.start, hplaced.startBit, hplaced.startWord, hplaced.le, hplaced.summary,
    hplaced.deferredSummary, hplaced.deferred⟩, ?_, ?_, ?_⟩
  · intro b hb
    have hlt := BitVec.lt_of_getLsbD hb
    show Pass.AtWord _ _ _ word ∧ start ≤ p.wordPlace (next.turn turns) word * 64 + b ∧
      p.wordPlace (next.turn turns) word * 64 + b < start + 4096 * turns ∧
      (_ → p.wordPlace (next.turn turns) word < p.startWord + 64 * turns)
    exact ⟨⟨hword.meets, hword.rest⟩, by omega, by omega, fun _ => hupper⟩
  · rintro rfl
    rcases hnext with heq | ⟨step, -, heq⟩ <;> cases heq
  · rintro step rfl
    rcases hnext with heq | ⟨step', hlt, heq⟩
    · cases heq
    · cases heq
      exact hlt

section Evidence

variable {ready ready' announced : Prop}

/-- A harvest that takes a word awaits the slots whose bits it takes. -/
theorem takeWord_awaits (h : (Phase.takingWord p word next).Placed start turns)
    (hi : i < 4096 * turns) (hstart : start < 4096 * turns)
    (htake : i / 64 = word → ready → bits.getLsbD (i % 64) = true)
    (hkeep : i / 64 ≠ word → ready → ready')
    (hawaits : (Phase.takingWord p word next).Awaits turns ready announced
      (Circle.place start (4096 * turns) i)) :
  (Phase.polling (p.setGuard (p.guard.setCurrent word bits)) next).Awaits turns ready' announced
    (Circle.place start (4096 * turns) i)
  := by
  obtain ⟨hplaced, hword, hlower, hupper, -⟩ := h
  have hiff := word_iff hplaced hword.meets hlower hupper hi
  have htaken : i / 64 = word → ready →
      (Phase.polling (p.setGuard (p.guard.setCurrent word bits)) next).Awaits turns ready' announced
        (Circle.place start (4096 * turns) i) := by
    intro heq hready
    refine Or.inl ⟨hiff.mp heq, ?_⟩
    rw [place_mod hi hstart]
    exact htake heq hready
  rcases hawaits with ⟨hready, hx⟩ | hdeferred | ⟨hready, hlater⟩
  · exact htaken (hiff.mpr hx) hready
  · exact Or.inr (Or.inl hdeferred)
  · by_cases heq : i / 64 = word
    · exact htaken heq hready
    · exact Or.inr (Or.inr ⟨hkeep heq hready, hlater⟩)

/-- A harvest that splits a word at the cursor awaits the slots whose bits it takes. -/
theorem splitAt_awaits (h : p.Placed start turns 0) (hblank : p.guard.deferredBits = 0#64)
    (hnext : next = .single ∨ next = .rotate 0) (hi : i < 4096 * turns)
    (hstart : start < 4096 * turns)
    (htake : i / 64 = p.startWord → ready → bits.getLsbD (i % 64) = true)
    (hkeep : i / 64 ≠ p.startWord → ready → ready')
    (hawaits : (ready ∧ i / 64 = p.startWord) ∨
      p.Awaits turns 0 ready announced (Circle.place start (4096 * turns) i)) :
  (Phase.polling (p.splitAt p.startWord bits) next).Awaits turns ready' announced
    (Circle.place start (4096 * turns) i)
  := by
  have hturn : next.turn turns = 0 := by
    rcases hnext with rfl | rfl <;> rfl
  have hbounds := h.start
  have hmod := place_mod hi hstart
  obtain ⟨hle, hlt, -⟩ := Circle.place_spec hi hstart
  have hiff := startWord_iff h hi
  have hplace : (p.splitAt p.startWord bits).wordPlace 0 p.startWord = p.startWord := by
    show (p.startWord / 64 + 0) * 64 + p.startWord % 64 = p.startWord
    omega
  rw [Phase.Awaits, hturn]
  by_cases hkey : i / 64 = p.startWord ∧ ready
  · have hbit := htake hkey.1 hkey.2
    rw [← hmod] at hbit
    rcases hiff.mp hkey.1 with hx | hx
    · exact Or.inl ⟨hx.trans hplace.symm, high_bit.mpr ⟨hbit, by omega⟩⟩
    · exact Or.inr (Or.inl ⟨hx, low_bit.mpr ⟨hbit, by omega⟩⟩)
  · rcases hawaits with ⟨hready, heq⟩ | ⟨-, hbit⟩ | ⟨hready, hlater⟩
    · exact absurd ⟨heq, hready⟩ hkey
    · rw [hblank, BitVec.getLsbD_zero] at hbit
      cases hbit
    · exact Or.inr (Or.inr ⟨hkeep (fun heq => hkey ⟨heq, hready⟩) hready, hlater⟩)

end Evidence

/-- The summary word of the cursor, split at the word of the cursor. -/
def Pass.splitSummary (p : Pass) (before behind : Word) : Pass :=
  p.setGuard ((p.guard.deferSummary (p.startWord / 64) before).setSummary (p.startWord / 64) behind)

theorem Pass.Placed.splitSummary {before behind : Word} (h : p.Placed start turns 0)
    (hbefore : ∀ b, before.getLsbD b = true → b < p.startWord % 64)
    (hbehind : ∀ b, behind.getLsbD b = true → p.startWord % 64 < b) :
  (p.splitSummary before behind).Placed start turns 0
  := by
  have hstartWord := h.startWord
  refine ⟨h.start, h.startBit, h.startWord, h.le, ?_, ?_, h.deferred⟩
  · intro b hb
    have hlt := BitVec.lt_of_getLsbD hb
    have hgt := hbehind b hb
    refine ⟨⟨?_, Or.inl rfl⟩, ?_, ?_⟩
    · show p.startWord / 64 < turns
      omega
    · show p.startWord < (p.startWord / 64 + 0) * 64 + b
      omega
    · show (p.startWord / 64 + 0) * 64 + b < p.startWord + 64 * turns
      omega
  · intro b hb
    exact ⟨rfl, hbefore b hb, by omega⟩

/-- The harvest awaits the slots that the first summary word announces: in the word of the cursor,
behind it, or before it; and the slots that the other summary words announce. -/
theorem splitSummary_awaits {ready announced : Prop} {before behind : Word}
    (h : p.Placed start turns 0) (hi : i < 4096 * turns) (hready : ready)
    (hbefore : i / 4096 = p.startWord / 64 → i / 64 % 64 < p.startWord % 64 →
      before.getLsbD (i / 64 % 64) = true)
    (hbehind : i / 4096 = p.startWord / 64 → p.startWord % 64 < i / 64 % 64 →
      behind.getLsbD (i / 64 % 64) = true)
    (hother : i / 4096 ≠ p.startWord / 64 → announced) :
  i / 64 = p.startWord ∨ (p.splitSummary before behind).Awaits turns 0 ready announced
    (Circle.place start (4096 * turns) i)
  := by
  have hstart := h.start
  have hstartBit := h.startBit
  have hstartWord := h.startWord
  obtain ⟨hle, hlt, hx⟩ := Circle.place_spec (c := start) hi (by omega)
  have hword : Circle.place start (4096 * turns) i / 64 % 64 = i / 64 % 64 := by omega
  by_cases hown : i / 4096 = p.startWord / 64
  · rcases Nat.lt_trichotomy (i / 64 % 64) (p.startWord % 64) with hlow | heq | hhigh
    · right
      refine Or.inr ⟨hready, Or.inr (Or.inl ⟨?_, ?_⟩)⟩
      · show Circle.place start (4096 * turns) i / 4096 = p.startWord / 64 + turns
        omega
      · rw [hword]
        exact hbefore hown hlow
    · left
      omega
    · right
      refine Or.inr ⟨hready, Or.inl ⟨?_, ?_⟩⟩
      · show Circle.place start (4096 * turns) i / 4096 = p.startWord / 64 + 0
        omega
      · rw [hword]
        exact hbehind hown hhigh
  · right
    refine Or.inr ⟨hready, Or.inr (Or.inr ⟨hother hown, ?_, ?_⟩)⟩
    · show p.startWord / 64 + 0 < Circle.place start (4096 * turns) i / 4096
      omega
    · show Circle.place start (4096 * turns) i / 4096 < p.startWord / 64 + turns
      omega

/-- The summary word of a later turn. -/
theorem Pass.Placed.takeSummary {summary : ℕ} (h : p.Placed start turns step) (bits : Word)
    (hstep : step + 1 < turns) (hmeets : p.Meets turns (step + 1) summary) :
  (p.setGuard (p.guard.setSummary summary bits)).Placed start turns (step + 1)
  := by
  refine ⟨h.start, h.startBit, h.startWord, hstep.le, ?_, ?_, h.deferred⟩
  · intro b hb
    have hlt := BitVec.lt_of_getLsbD hb
    refine ⟨hmeets, ?_, ?_⟩
    · show p.startWord < (p.startWord / 64 + (step + 1)) * 64 + b
      omega
    · show (p.startWord / 64 + (step + 1)) * 64 + b < p.startWord + 64 * turns
      omega
  · intro b hb
    obtain ⟨hindex, hlt, -⟩ := h.deferredSummary b hb
    exact ⟨hindex, hlt, hstep⟩

theorem takeSummary_awaits {ready announced announced' : Prop} {summary : ℕ} {bits : Word}
    (h : p.Placed start turns step) (hmeets : p.Meets turns (step + 1) summary)
    (hsummary : p.guard.summary = 0#64) (hi : i < 4096 * turns)
    (htake : i / 4096 = summary → announced → bits.getLsbD (i / 64 % 64) = true)
    (hkeep : i / 4096 ≠ summary → announced → announced')
    (hawaits : p.Awaits turns step ready announced (Circle.place start (4096 * turns) i)) :
  (p.setGuard (p.guard.setSummary summary bits)).Awaits turns (step + 1) ready announced'
    (Circle.place start (4096 * turns) i)
  := by
  have hstart := h.start
  have hstartBit := h.startBit
  have hstartWord := h.startWord
  obtain ⟨hle, hlt, hx⟩ := Circle.place_spec (c := start) hi (by omega)
  have hword : Circle.place start (4096 * turns) i / 64 % 64 = i / 64 % 64 := by omega
  obtain ⟨hindex, hmeets⟩ := hmeets
  rcases hawaits with hdeferred | ⟨hready, ⟨-, hbit⟩ | hbefore | ⟨hannounced, hlower, hupper⟩⟩
  · exact Or.inl hdeferred
  · rw [hsummary, BitVec.getLsbD_zero] at hbit
    cases hbit
  · exact Or.inr ⟨hready, Or.inr (Or.inl hbefore)⟩
  · by_cases hturn : i / 4096 = summary
    · refine Or.inr ⟨hready, Or.inl ⟨?_, ?_⟩⟩
      · show Circle.place start (4096 * turns) i / 4096 = p.startWord / 64 + (step + 1)
        omega
      · rw [hword]
        exact htake hturn hannounced
    · refine Or.inr ⟨hready, Or.inr (Or.inr ⟨hkeep hturn hannounced, ?_, hupper⟩)⟩
      show p.startWord / 64 + (step + 1) < Circle.place start (4096 * turns) i / 4096
      omega

/-- What a harvest awaits behind a later summary word it awaited before. -/
theorem takeSummary_pends {summary : ℕ} {bits : Word} (hstep : step + 1 < turns)
    (h : (p.setGuard (p.guard.setSummary summary bits)).Awaits turns (step + 1) True True x) :
  p.Awaits turns step True True x
  := by
  rcases h with hdeferred | ⟨-, ⟨hx, -⟩ | hbefore | ⟨-, hlower, hupper⟩⟩
  · exact Or.inl hdeferred
  · change x / 4096 = p.startWord / 64 + (step + 1) at hx
    exact Or.inr ⟨trivial, Or.inr (Or.inr ⟨trivial, by omega, by omega⟩)⟩
  · exact Or.inr ⟨trivial, Or.inr (Or.inl hbefore)⟩
  · change p.startWord / 64 + (step + 1) < x / 4096 at hlower
    exact Or.inr ⟨trivial, Or.inr (Or.inr ⟨trivial, by omega, hupper⟩)⟩

theorem takeWord_pends
    (h : (Phase.polling (p.setGuard (p.guard.setCurrent word bits)) next).Awaits turns True True x) :
  (Phase.takingWord p word next).Awaits turns True True x
  := by
  rcases h with ⟨hx, -⟩ | hlater
  · exact Or.inl ⟨trivial, hx⟩
  · exact Or.inr hlater

theorem splitAt_pends (hnext : next = .single ∨ next = .rotate 0)
    (h : (Phase.polling (p.splitAt p.startWord bits) next).Awaits turns True True x) :
  (Phase.takingStart p).Awaits turns True True x
  := by
  have hturn : next.turn turns = 0 := by
    rcases hnext with rfl | rfl <;> rfl
  rw [Phase.Awaits, hturn] at h
  rcases h with ⟨hx, -⟩ | ⟨hx, -⟩ | hlater
  · change x / 64 = (p.startWord / 64 + 0) * 64 + p.startWord % 64 at hx
    exact Or.inl ⟨trivial, Or.inl (by omega)⟩
  · exact Or.inl ⟨trivial, Or.inr hx⟩
  · exact Or.inr (Or.inr hlater)

end Takes

end Grommet.Outstanding
