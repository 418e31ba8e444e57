import Grommet.Runtime.Router.Model

/-!
# Deferred announcements

The bits of the words are a set of shards below five hundred and twelve.  Deferring a shard
below that bound inserts it; announcing tells every shard of the set, and no other, and leaves
the set empty.
-/

open Checked Program

namespace Grommet.Router

/-- The operations that end a run. -/
def Op.halts {K I W : Type} : Op K I W → Bool
  | .dropped => true
  | .panicked _ => true
  | _ => false

variable {K I W α : Type} {r : Router} {t : List (Event K I W)}

/-! ### Shards -/

theorem place_bounds {n : ℕ} {p : Placement} (h : place n = .ok p) :
  1 ≤ n ∧ n ≤ 65536
  := by
  rw [place] at h
  obtain ⟨_, hpos, h⟩ := bind_eq_ok.mp h
  obtain ⟨_, hmax, -⟩ := bind_eq_ok.mp h
  have hnonzero := assert_eq_ok.mp hpos
  have hle := assert_eq_ok.mp hmax
  rw [decide_eq_true_eq] at hnonzero hle
  omega

/-- Every key is owned by one of the shards. -/
theorem owned [ShardKey K] (r : Router) (key : K) :
  ∃ shard < r.shards, r.placement.shardIndex key = .ok shard
  := by
  obtain ⟨hpos, hmax⟩ := place_bounds r.placed
  obtain ⟨k, hplace, -, hk⟩ := place_eq hpos hmax
  have heq : table r.shards k = r.placement := Except.ok.inj (hplace.symm.trans r.placed)
  refine ⟨(mix (ShardKey.shardHash key)).toNat % 2 ^ k % r.shards, Nat.mod_lt _ hpos, ?_⟩
  rw [← heq, Placement.shardIndex]
  exact shardOf_eq hpos hmax hk

theorem mailbox_of_lt {shard : ℕ} (h : shard < r.shards) :
  (r.mailbox shard : Submission K I W ℕ) = pure shard
  := by
  rw [mailbox, if_pos h, lift]

namespace Deferred

variable {d d' : Deferred} {shard i : ℕ} {w : Fin DEFERRED_WORDS}

/-- A shard holds an unannounced push. -/
def holds (d : Deferred) (shard : ℕ) : Bool :=
  if h : shard / 64 < DEFERRED_WORDS then (d.words ⟨shard / 64, h⟩).getLsbD (shard % 64) else false

/-- The shards of the words are among those of the router, and none is there unless `any`
tells so. -/
structure Sound (r : Router) (d : Deferred) : Prop where
  inside : ∀ shard, d.holds shard = true → shard < r.shards
  any : ∀ shard, d.holds shard = true → d.any = true

theorem holds_word (w : Fin DEFERRED_WORDS) (hi : i < 64) :
  d.holds (w * 64 + i) = (d.words w).getLsbD i
  := by
  have hword : (w * 64 + i) / 64 = w := by omega
  have hbit : (w * 64 + i) % 64 = i := by omega
  rw [holds, dif_pos (lt_of_eq_of_lt hword w.isLt), hbit]
  congr 2
  exact Fin.ext hword

theorem holds_of_zero (h : ∀ w, d.words w = 0) (shard : ℕ) :
  d.holds shard = false
  := by
  rw [holds]
  split
  · rw [h]
    exact BitVec.getLsbD_zero
  · rfl

theorem holds_default (shard : ℕ) :
  holds default shard = false
  := holds_of_zero (fun _ => rfl) shard

theorem sound_of_none (h : ∀ shard, d.holds shard = false) :
  Sound r d
  := by
  constructor
  · intro shard hshard
    cases (h shard).symm.trans hshard
  · intro shard hshard
    cases (h shard).symm.trans hshard

/-- A shard beyond those that are tracked is not noted. -/
theorem defer_of_le (h : DEFERRED_SHARDS ≤ shard) :
  d.defer shard = (false, d)
  := by
  rw [defer, dif_neg (by omega)]

theorem defer_of_lt (h : shard < DEFERRED_SHARDS) :
  (d.defer shard).1 = true
  := by
  rw [defer, dif_pos h]

theorem holds_defer (h : shard < DEFERRED_SHARDS) :
  (d.defer shard).2.holds i = (d.holds i || decide (i = shard))
  := by
  rw [defer, dif_pos h, holds, holds]
  by_cases hi : i / 64 < DEFERRED_WORDS
  · rw [dif_pos hi, dif_pos hi]
    by_cases hword : i / 64 = shard / 64
    · have heq : (⟨i / 64, hi⟩ : Fin DEFERRED_WORDS) = word shard h := Fin.ext hword
      have hsame : i % 64 = shard % 64 ↔ i = shard := by omega
      simp only
      rw [heq, Function.update_self, BitVec.getLsbD_set (Nat.mod_lt _ (by decide)),
        decide_eq_decide.mpr hsame]
    · have hne : i ≠ shard := fun heq => hword (heq ▸ rfl)
      have hother : (⟨i / 64, hi⟩ : Fin DEFERRED_WORDS) ≠ word shard h :=
        fun heq => hword (congrArg Fin.val heq)
      simp only
      rw [Function.update_of_ne hother, decide_eq_false hne, Bool.or_false]
  · have hne : i ≠ shard := by
      rw [DEFERRED_SHARDS] at h
      omega
    rw [dif_neg hi, dif_neg hi, decide_eq_false hne, Bool.or_false]

theorem Sound.defer (hd : Sound r d) (h : shard < DEFERRED_SHARDS) (hshard : shard < r.shards) :
  Sound r (d.defer shard).2
  := by
  constructor
  · intro i hi
    rw [holds_defer h, Bool.or_eq_true, decide_eq_true_eq] at hi
    rcases hi with hi | rfl
    · exact hd.inside i hi
    · exact hshard
  · intro i hi
    rw [Deferred.defer, dif_pos h]

/-! ### Announcing -/

/-- The events announce to shards of a set, and to each of them. -/
structure Announces (p : ℕ → Prop) (t : List (Event K I W)) : Prop where
  only : ∀ e ∈ t, ∃ shard, p shard ∧ e = ⟨.announce shard, ()⟩
  all : ∀ shard, p shard → ⟨.announce shard, ()⟩ ∈ t

theorem announceBits_returns {word : ℕ} {set : BitVec 64}
    (hinside : ∀ i, set.getLsbD i = true → word * 64 + i < r.shards) :
  Returns Op.halts (announceBits r word set : Submission K I W Unit) fun t _ =>
    Announces (fun shard => ∃ i, set.getLsbD i = true ∧ shard = word * 64 + i) t
  := by
  induction set using announceBits.induct with
  | case1 =>
    rw [announceBits, dif_pos rfl]
    refine returns_pure ⟨fun e he => (List.not_mem_nil he).elim, ?_⟩
    rintro shard ⟨i, hi, -⟩
    exact Bool.noConfusion ((BitVec.getLsbD_zero (w := 64)).symm.trans hi)
  | case2 set hset ih =>
    have hfirst := BitVec.getLsbD_true_ctz_of_ne_zero hset
    have hrest {i : ℕ} := BitVec.getLsbD_and_sub_one_iff (m := set) (i := i)
    rw [announceBits, dif_neg hset, mailbox_of_lt (hinside _ hfirst), pure_bind']
    apply returns_ask_bind rfl
    intro answer
    apply (ih fun i hi => hinside i (hrest.mp hi).1).mono
    rintro t - ⟨honly, hall⟩
    constructor
    · intro e he
      rcases List.mem_cons.mp he with rfl | he
      · exact ⟨_, ⟨_, hfirst, rfl⟩, rfl⟩
      · obtain ⟨shard, ⟨i, hi, rfl⟩, rfl⟩ := honly e he
        exact ⟨_, ⟨i, (hrest.mp hi).1, rfl⟩, rfl⟩
    · rintro shard ⟨i, hi, rfl⟩
      by_cases heq : i = set.ctz.toNat
      · rw [heq]
        exact List.mem_cons_self
      · exact List.mem_cons_of_mem _ (hall _ ⟨i, hrest.mpr ⟨hi, heq⟩, rfl⟩)

theorem Announces.append {p q : ℕ → Prop} {t₁ t₂ : List (Event K I W)} (h₁ : Announces p t₁)
    (h₂ : Announces q t₂) :
  Announces (fun shard => p shard ∨ q shard) (t₁ ++ t₂)
  := by
  constructor
  · intro e he
    rcases List.mem_append.mp he with he | he
    · obtain ⟨shard, hp, rfl⟩ := h₁.only e he
      exact ⟨shard, Or.inl hp, rfl⟩
    · obtain ⟨shard, hq, rfl⟩ := h₂.only e he
      exact ⟨shard, Or.inr hq, rfl⟩
  · rintro shard (hp | hq)
    · exact List.mem_append_left _ (h₁.all shard hp)
    · exact List.mem_append_right _ (h₂.all shard hq)

theorem Announces.congr {p q : ℕ → Prop} (h : Announces p t) (heq : ∀ shard, p shard ↔ q shard) :
  Announces q t
  := by
  constructor
  · intro e he
    obtain ⟨shard, hp, rfl⟩ := h.only e he
    exact ⟨shard, (heq shard).mp hp, rfl⟩
  · intro shard hq
    exact h.all shard ((heq shard).mpr hq)

theorem announceWord_returns
    (hinside : ∀ i, (d.words w).getLsbD i = true → w * 64 + i < r.shards) :
  Returns Op.halts (announceWord r d w : Submission K I W Deferred) fun t d' =>
    d' = { d with words := Function.update d.words w 0 } ∧
    Announces (fun shard => ∃ i, (d.words w).getLsbD i = true ∧ shard = w * 64 + i) t
  := by
  apply (announceBits_returns hinside).bind
  intro _ t h
  apply returns_pure
  rw [List.append_nil]
  exact ⟨rfl, h⟩

/-- A word that was forgotten holds no shard. -/
theorem inside_update (hinside : ∀ w i, (d.words w).getLsbD i = true → w * 64 + i < r.shards)
    (v : Fin DEFERRED_WORDS) (i : ℕ) (hi : (Function.update d.words w 0 v).getLsbD i = true) :
  v * 64 + i < r.shards
  := by
  by_cases hv : v = w
  · subst hv
    rw [Function.update_self] at hi
    exact Bool.noConfusion ((BitVec.getLsbD_zero (w := 64)).symm.trans hi)
  · rw [Function.update_of_ne hv] at hi
    exact hinside v i hi

/-- The loop over the words: it announces to the shards of those that are left. -/
theorem announceWords_returns {ws : List (Fin DEFERRED_WORDS)} (hws : ws.Nodup)
    (hinside : ∀ w i, (d.words w).getLsbD i = true → w * 64 + i < r.shards) :
  Returns Op.halts (ws.foldlM (announceWord r) d : Submission K I W Deferred) fun t d' =>
    (∀ w, d'.words w = if w ∈ ws then 0 else d.words w) ∧
    Announces (fun shard => ∃ w ∈ ws, ∃ i, (d.words w).getLsbD i = true ∧ shard = w * 64 + i) t
  := by
  induction ws generalizing d with
  | nil =>
    refine returns_pure ⟨fun w => rfl, fun e he => (List.not_mem_nil he).elim, ?_⟩
    rintro shard ⟨w, hw, -⟩
    exact (List.not_mem_nil hw).elim
  | cons w ws ih =>
    obtain ⟨hw, hws⟩ := List.nodup_cons.mp hws
    rw [List.foldlM_cons]
    apply (announceWord_returns (hinside w)).bind
    rintro _ t₁ ⟨rfl, hfirst⟩
    have hother {v : Fin DEFERRED_WORDS} (hv : v ∈ ws) :
        ({ d with words := Function.update d.words w 0 } : Deferred).words v = d.words v := by
      apply Function.update_of_ne
      rintro rfl
      exact hw hv
    apply (ih hws (inside_update hinside)).mono
    rintro t₂ d' ⟨hwords, hrest⟩
    constructor
    · intro v
      rw [hwords v]
      by_cases hv : v = w
      · subst hv
        simp
      · simp [hv]
    · apply (hfirst.append hrest).congr
      intro shard
      constructor
      · rintro (⟨i, hi, heq⟩ | ⟨v, hv, i, hi, heq⟩)
        · exact ⟨w, List.mem_cons_self, i, hi, heq⟩
        · rw [hother hv] at hi
          exact ⟨v, List.mem_cons_of_mem _ hv, i, hi, heq⟩
      · rintro ⟨v, hv, i, hi, heq⟩
        rcases List.mem_cons.mp hv with rfl | hv
        · exact Or.inl ⟨i, hi, heq⟩
        · rw [← hother hv] at hi
          exact Or.inr ⟨v, hv, i, hi, heq⟩

/-- A bit of a word is a shard that holds an unannounced push. -/
theorem holds_iff :
  d.holds shard = true ↔ ∃ w, ∃ i, (d.words w).getLsbD i = true ∧ shard = w * 64 + i
  := by
  constructor
  · intro h
    rw [holds] at h
    split at h
    · rename_i hword
      exact ⟨⟨shard / 64, hword⟩, shard % 64, h, (Nat.div_add_mod' shard 64).symm⟩
    · cases h
  · rintro ⟨w, i, hi, rfl⟩
    rw [holds_word w (BitVec.lt_of_getLsbD hi), hi]

/-- Announcing tells every shard that holds a deferred push, and no other, and forgets them. -/
theorem announce_returns (hd : Sound r d) :
  Returns Op.halts (d.announce r : Submission K I W Deferred) fun t d' =>
    (∀ shard, d'.holds shard = false) ∧ Announces (fun shard => d.holds shard = true) t
  := by
  rw [announce]
  split
  · have hinside (w : Fin DEFERRED_WORDS) (i : ℕ) (hi : (d.words w).getLsbD i = true) :
        w * 64 + i < r.shards :=
      hd.inside _ (holds_iff.mpr ⟨w, i, hi, rfl⟩)
    apply (announceWords_returns (List.nodup_finRange _) hinside).bind
    rintro d' t ⟨hwords, h⟩
    apply returns_pure
    rw [List.append_nil]
    constructor
    · apply holds_of_zero
      intro w
      rw [hwords w, if_pos (List.mem_finRange w)]
    · apply h.congr
      intro shard
      rw [holds_iff]
      simp only [List.mem_finRange, true_and]
  · rename_i hany
    have hnone (shard : ℕ) : ¬ d.holds shard = true := fun h => hany (hd.any shard h)
    refine returns_pure ⟨fun shard => Bool.eq_false_of_not_eq_true (hnone shard), ?_, ?_⟩
    · exact fun e he => (List.not_mem_nil he).elim
    · exact fun shard h => (hnone shard h).elim

end Deferred

end Grommet.Router
