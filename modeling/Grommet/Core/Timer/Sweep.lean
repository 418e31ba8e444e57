import Grommet.Core.Timer.Pool
import Mathlib.Data.List.Perm.Subperm

/-!
# Cascading and firing

When the cursor reaches an event, the entries of the slots under it are filed again, highest
level first, and the entries of the lowest slot under it fire.  What this does to one entry
does not depend on the others: cascading maps `Core.swept` over the slab, firing maps
`Core.expired`.
-/

open Checked

namespace Grommet.Timer

variable {T : Type} {w w' : Wheel T} {c : Core T} {i : ℕ} {lists : ℕ × ℕ → List ℕ}
  {chain free : List ℕ}

/-- The entry filed again under its deadline. -/
def Core.replaced (cursor : ℕ) (c : Core T) : Core T :=
  c.moved c.deadline (place cursor c.deadline)

/-- Whether the entry holds a timer in the slot under the cursor of a level. -/
def Core.Under (cursor level : ℕ) (c : Core T) : Prop :=
  c.token.isSome ∧ c.position = (level, digit level cursor)

instance (cursor level : ℕ) (c : Core T) : Decidable (c.Under cursor level) :=
  inferInstanceAs (Decidable (_ ∧ _))

/-- The entry after the slot under the cursor of one level was filed again. -/
def Core.settled (cursor : ℕ) (c : Core T) (level : ℕ) : Core T :=
  if c.Under cursor level then c.replaced cursor else c

/-- The levels from the given one down to the second lowest. -/
def downFrom : ℕ → List ℕ
  | 0 => []
  | n + 1 => (n + 1) :: downFrom n

/-- The entry after a cascade. -/
def Core.swept (cursor : ℕ) (c : Core T) : Core T :=
  (downFrom (LEVELS - 1)).foldl (Core.settled cursor) c

/-- The entry can be filed at the cursor. -/
def Core.Fits (cursor : ℕ) (c : Core T) : Prop :=
  c.deadline ≤ MAX_TICK ∧ c.deadline ≤ cursor + MAX_DELAY_TICKS

/-- Every timer of the wheel has a property. -/
def Wheel.Each (w : Wheel T) (P : Core T → Prop) : Prop :=
  ∀ c ∈ w.cores, c.token.isSome → P c

/-- An index of the slab stands on a list at most once. -/
theorem length_le_of_nodup (hnodup : chain.Nodup) (hmem : ∀ i ∈ chain, i < w.entries.length) :
  chain.length ≤ w.entries.length
  := by
  have hsub : chain ⊆ List.range w.entries.length := by
    intro i hi
    rw [List.mem_range]
    apply hmem i hi
  have hle := (hnodup.subperm hsub).length_le
  rwa [List.length_range] at hle

/-- The loose entries of a chain are filed again. -/
theorem Links.refile {fuel index : ℕ} (h : Links w lists chain free)
    (hchain : Follows w.next none chain) (hcursor : w.cursor ≤ MAX_TICK)
    (hfits : ∀ i ∈ chain, ∀ c, w.cores[i]? = some c → c.Fits w.cursor)
    (hfuel : chain.length < fuel) (hindex : ofSentinel NIL index = chain.head?) :
  ∃ w' lists', Wheel.refile fuel w index = .ok w' ∧ Links w' lists' [] free ∧
    w'.cursor = w.cursor ∧ w'.wheelId = w.wheelId ∧
    ∀ j, w'.cores[j]? =
      if j ∈ chain then w.cores[j]?.map (Core.replaced w.cursor) else w.cores[j]?
  := by
  induction chain generalizing w lists fuel index with
  | nil =>
    cases fuel with
    | zero => simp at hfuel
    | succ fuel =>
      rw [List.head?_nil, ofSentinel_eq_none_iff] at hindex
      refine ⟨w, lists, ?_, h, rfl, rfl, ?_⟩
      · rw [Wheel.refile, if_pos hindex]
      · intro j
        simp
  | cons i chain ih =>
    cases fuel with
    | zero => simp at hfuel
    | succ fuel =>
      rw [List.head?_cons, ofSentinel_eq_some_iff] at hindex
      obtain ⟨rfl, hnil⟩ := hindex
      obtain ⟨c, hc, -⟩ := h.loose_live index (by simp)
      obtain ⟨e, -, hentry, hcore, hnext, -⟩ := exists_entry hc
      obtain ⟨hd, hfit⟩ := hfits index (by simp) c hc
      obtain ⟨w₁, hfile, hlinks, hcores, hframe, hcursor₁, hid₁, -⟩ :=
        h.file hc hcursor hd hfit rfl
      have hnot := (List.nodup_cons.mp h.loose_nodup).1
      have hlt := (List.getElem?_eq_some_iff.mp hc).1
      have hne : ∀ j ∈ chain, index ≠ j := by
        rintro j hj rfl
        apply hnot hj
      rw [← hcursor₁] at hcursor
      obtain ⟨w', lists', hrefile, hlinks', hcursor', hid', hcores'⟩ := ih hlinks
        (hchain.2.congr fun x hx => hframe x (Ne.symm (hne x hx))) hcursor
        (by
          intro j hj cj hcj
          rw [hcores, List.getElem?_set_ne (hne j hj)] at hcj
          rw [hcursor₁]
          apply hfits j (by simp [hj]) cj hcj)
        (by simpa using hfuel)
        (by rw [hnext, hchain.1, Option.or_none])
      refine ⟨w', lists', ?_, hlinks', hcursor'.trans hcursor₁, hid'.trans hid₁, ?_⟩
      · have hdeadline : e.deadline = c.deadline := by
          rw [← hcore]
          rfl
        rw [Wheel.refile, if_neg hnil, hentry, ok_bind, hdeadline, hfile, ok_bind, hrefile]
      · intro j
        rw [hcores', hcursor₁, hcores]
        by_cases hj : index = j
        · subst hj
          rw [if_neg hnot, if_pos (by simp), List.getElem?_set_self hlt, hc, Option.map_some]
          rfl
        · rw [List.getElem?_set_ne hj]
          simp [Ne.symm hj]

/-- A slot that was taken has enough room in the slab for a walk through its entries. -/
theorem Links.length_lt (h : Links w lists chain free) :
  chain.length < w.entries.length + 1
  := by
  apply Nat.lt_succ_of_le
  apply length_le_of_nodup h.loose_nodup
  intro i hi
  obtain ⟨c, hc, -⟩ := h.loose_live i hi
  have hlt := (List.getElem?_eq_some_iff.mp hc).1
  rwa [Wheel.cores, List.length_map] at hlt

/-- The entries of the slot under the cursor of a level are filed again. -/
theorem Links.cascadeLevel {level : ℕ} (h : Links w lists [] free) (hlevel : level < LEVELS)
    (hcursor : w.cursor ≤ MAX_TICK)
    (hfits : w.Each (Core.Fits w.cursor)) :
  ∃ w' lists', w.cascadeLevel level = .ok w' ∧ Links w' lists' [] free ∧
    w'.cursor = w.cursor ∧ w'.wheelId = w.wheelId ∧
    w'.cores = w.cores.map fun c => c.settled w.cursor level
  := by
  have hrange : (level, digit level w.cursor).1 < LEVELS ∧ (level, digit level w.cursor).2 < SLOTS :=
    ⟨hlevel, digit_lt level w.cursor⟩
  have hunder : ∀ i c, w.cores[i]? = some c →
      (c.Under w.cursor level ↔ i ∈ lists (level, digit level w.cursor)) := by
    intro i c hc
    rw [h.filed, Core.Under, hc]
    simp
  have hiff : w.isOccupied level (digit level w.cursor) = true ↔
      lists (level, digit level w.cursor) ≠ [] := by
    rw [isOccupied_iff hrange.2, h.occupied]
  by_cases hempty : lists (level, digit level w.cursor) = []
  · refine ⟨w, lists, ?_, h, rfl, rfl, ?_⟩
    · simp only [Wheel.cascadeLevel, shiftRight_and_slotMask]
      rw [if_neg]
      rw [hiff]
      simp [hempty]
    · apply List.ext_getElem?
      intro j
      rw [List.getElem?_map]
      cases hc : w.cores[j]? with
      | none => rfl
      | some c =>
        rw [Option.map_some, Core.settled, if_neg]
        rw [hunder j c hc, hempty]
        simp
  · obtain ⟨w₁, index, htake, hindex, hlinks₁, hchain, hcores₁, hcursor₁, hid₁⟩ := h.take hrange
    rw [← hcursor₁] at hcursor
    obtain ⟨w', lists', hrefile, hlinks', hcursor', hid', hcores'⟩ := hlinks₁.refile hchain hcursor
      (by
        intro i hi c hc
        rw [hcores₁] at hc
        obtain ⟨-, c', hc', htoken, -⟩ := (h.filed _ i).mp hi
        rw [hc, Option.some_inj] at hc'
        rw [hcursor₁]
        apply hfits c (List.mem_of_getElem? hc) (hc' ▸ htoken))
      hlinks₁.length_lt hindex
    refine ⟨w', lists', ?_, hlinks', hcursor'.trans hcursor₁, hid'.trans hid₁, ?_⟩
    · simp only [Wheel.cascadeLevel, shiftRight_and_slotMask]
      rw [if_pos (hiff.mpr hempty), htake, ok_bind]
      exact hrefile
    · apply List.ext_getElem?
      intro j
      rw [hcores', hcores₁, hcursor₁, List.getElem?_map]
      cases hc : w.cores[j]? with
      | none => simp
      | some c =>
        simp only [Option.map_some, Core.settled, hunder j c hc]
        split <;> rfl

/-- The deadline and the token of an entry do not change when it is filed again. -/
theorem Core.settled_content (c : Core T) (cursor k : ℕ) :
  (c.settled cursor k).deadline = c.deadline ∧ (c.settled cursor k).token = c.token ∧
    (c.settled cursor k).generation = c.generation
  := by
  rw [Core.settled]
  split
  · exact ⟨rfl, rfl, rfl⟩
  · exact ⟨rfl, rfl, rfl⟩

/-- A cascade through some levels. -/
theorem Links.cascade_levels (levels : List ℕ) (h : Links w lists [] free)
    (hlevels : ∀ k ∈ levels, k < LEVELS) (hcursor : w.cursor ≤ MAX_TICK)
    (hfits : w.Each (Core.Fits w.cursor)) :
  ∃ w' lists', levels.foldlM Wheel.cascadeLevel w = .ok w' ∧ Links w' lists' [] free ∧
    w'.cursor = w.cursor ∧ w'.wheelId = w.wheelId ∧
    w'.cores = w.cores.map fun c => levels.foldl (Core.settled w.cursor) c
  := by
  induction levels generalizing w lists with
  | nil => exact ⟨w, lists, rfl, h, rfl, rfl, by simp⟩
  | cons k levels ih =>
    obtain ⟨w₁, lists₁, hlevel, h₁, hcursor₁, hid₁, hcores₁⟩ :=
      h.cascadeLevel (hlevels k (by simp)) hcursor hfits
    rw [← hcursor₁] at hcursor
    obtain ⟨w', lists', hrest, h', hcursor', hid', hcores'⟩ := ih h₁
      (fun j hj => hlevels j (by simp [hj])) hcursor
      (by
        intro c hc htoken
        rw [hcores₁, List.mem_map] at hc
        obtain ⟨c, hc, rfl⟩ := hc
        obtain ⟨hdeadline, htoken', -⟩ := c.settled_content w.cursor k
        rw [htoken'] at htoken
        rw [Core.Fits, hdeadline, hcursor₁]
        apply hfits c hc htoken)
    refine ⟨w', lists', ?_, h', hcursor'.trans hcursor₁, hid'.trans hid₁, ?_⟩
    · rw [List.foldlM_cons, hlevel, ok_bind, hrest]
    · rw [hcores', hcores₁, hcursor₁, List.map_map]
      rfl

/-- A cascade files every entry again that is under the cursor. -/
theorem Links.cascade (h : Links w lists [] free) (hcursor : w.cursor ≤ MAX_TICK)
    (hfits : w.Each (Core.Fits w.cursor)) :
  ∃ w' lists', w.cascade = .ok w' ∧ Links w' lists' [] free ∧
    w'.cursor = w.cursor ∧ w'.wheelId = w.wheelId ∧
    w'.cores = w.cores.map (Core.swept w.cursor)
  := by
  apply h.cascade_levels (downFrom (LEVELS - 1)) _ hcursor hfits
  decide

/-! ### Firing -/

/-- The token of a slab position. -/
def Wheel.token (w : Wheel T) (i : ℕ) : Option T := w.cores[i]?.bind Core.token

/-- The loose entries of a chain fire. -/
theorem Links.fireLoop {fuel index : ℕ} (h : Links w lists chain free)
    (hchain : Follows w.next none chain)
    (hdue : ∀ i ∈ chain, ∀ c, w.cores[i]? = some c → c.deadline ≤ w.cursor)
    (hfuel : chain.length < fuel) (hindex : ofSentinel NIL index = chain.head?) :
  ∃ w' tokens free', Wheel.fireLoop fuel w index = .ok (w', tokens) ∧ Links w' lists [] free' ∧
    w'.cursor = w.cursor ∧ w'.wheelId = w.wheelId ∧
    (∀ j, w'.cores[j]? = if j ∈ chain then w.cores[j]?.map Core.released else w.cores[j]?) ∧
    tokens.map some = chain.map w.token
  := by
  induction chain generalizing w fuel index free with
  | nil =>
    cases fuel with
    | zero => simp at hfuel
    | succ fuel =>
      rw [List.head?_nil, ofSentinel_eq_none_iff] at hindex
      refine ⟨w, [], free, ?_, h, rfl, rfl, ?_, rfl⟩
      · rw [Wheel.fireLoop, if_pos hindex]
      · intro j
        simp
  | cons i chain ih =>
    cases fuel with
    | zero => simp at hfuel
    | succ fuel =>
      rw [List.head?_cons, ofSentinel_eq_some_iff] at hindex
      obtain ⟨rfl, hnil⟩ := hindex
      obtain ⟨c, hc, -⟩ := h.loose_live index (by simp)
      obtain ⟨e, -, hentry, hcore, hnext, -⟩ := exists_entry hc
      obtain ⟨w₁, t, free₁, hdischarge, hlinks, htoken, hcores, hframe, hcursor₁, hid₁, -, -⟩ :=
        h.discharge hc "a filed entry always holds a token"
      have hnot := (List.nodup_cons.mp h.loose_nodup).1
      have hlt := (List.getElem?_eq_some_iff.mp hc).1
      have hne : ∀ j ∈ chain, index ≠ j := by
        rintro j hj rfl
        apply hnot hj
      obtain ⟨w', tokens, free', hloop, hlinks', hcursor', hid', hcores', htokens⟩ := ih hlinks
        (hchain.2.congr fun x hx => hframe x (Ne.symm (hne x hx)))
        (by
          intro j hj cj hcj
          rw [hcores, List.getElem?_set_ne (hne j hj)] at hcj
          rw [hcursor₁]
          apply hdue j (by simp [hj]) cj hcj)
        (by simpa using hfuel)
        (by rw [hnext, hchain.1, Option.or_none])
      refine ⟨w', t :: tokens, free', ?_, hlinks', hcursor'.trans hcursor₁, hid'.trans hid₁, ?_, ?_⟩
      · have hpast : e.deadline ≤ w.cursor := by
          have hdeadline := hdue index (by simp) c hc
          rw [← hcore] at hdeadline
          exact hdeadline
        rw [Wheel.fireLoop, if_neg hnil, hentry, ok_bind, assert_of (by simpa using hpast), ok_bind,
          hdischarge, ok_bind]
        simp only
        rw [hloop, ok_bind]
      · intro j
        rw [hcores', hcores]
        by_cases hj : index = j
        · subst hj
          rw [if_neg hnot, if_pos (by simp), List.getElem?_set_self hlt, hc, Option.map_some]
        · rw [List.getElem?_set_ne hj]
          simp [Ne.symm hj]
      · rw [List.map_cons, List.map_cons, htokens, Wheel.token, hc, Option.bind_some, htoken]
        congr 1
        apply List.map_congr_left
        intro j hj
        rw [Wheel.token, Wheel.token, hcores, List.getElem?_set_ne (hne j hj)]

/-- Whether the entry holds a timer that is due at a tick. -/
def Core.Due (tick : ℕ) (c : Core T) : Prop :=
  c.token.isSome ∧ c.deadline ≤ tick

instance (tick : ℕ) (c : Core T) : Decidable (c.Due tick) :=
  inferInstanceAs (Decidable (_ ∧ _))

/-- The entry after the timers due at a tick fired. -/
def Core.expired (tick : ℕ) (c : Core T) : Core T :=
  if c.Due tick then c.released else c

/-- The timers of the indices `fired` are those that are due at a tick, and `tokens` are
their tokens. -/
structure Fires (w : Wheel T) (tick : ℕ) (fired : List ℕ) (tokens : List T) : Prop where
  nodup : fired.Nodup
  mem_iff : ∀ i, i ∈ fired ↔ ∃ c, w.cores[i]? = some c ∧ c.Due tick
  tokens_eq : tokens.map some = fired.map w.token

/-- All timers of the wheel are filed. -/
def Core.FiledAt (cursor : ℕ) (c : Core T) : Prop :=
  Filed cursor c.deadline c.level c.slot

/-- When every timer is filed, those that are due fire. -/
theorem Links.fire (h : Links w lists [] free) (hfiled : w.Each (Core.FiledAt w.cursor)) :
  ∃ w' tokens fired free', w.fire = .ok (w', tokens) ∧ (∃ lists', Links w' lists' [] free') ∧
    w'.cursor = w.cursor ∧ w'.wheelId = w.wheelId ∧
    w'.cores = w.cores.map (Core.expired w.cursor) ∧ Fires w w.cursor fired tokens
  := by
  have hrange : ((0, w.cursor % SLOTS) : ℕ × ℕ).1 < LEVELS ∧
      ((0, w.cursor % SLOTS) : ℕ × ℕ).2 < SLOTS :=
    ⟨show 0 < LEVELS by decide, Nat.mod_lt _ (by decide)⟩
  have hdue : ∀ i c, w.cores[i]? = some c → (c.Due w.cursor ↔ i ∈ lists (0, w.cursor % SLOTS)) := by
    intro i c hc
    rw [h.filed, Core.Due, hc]
    simp only [List.not_mem_nil, not_false_eq_true, true_and, Option.some_inj, exists_eq_left']
    apply and_congr_right
    intro htoken
    rw [← (hfiled c (List.mem_of_getElem? hc) htoken).due_iff, Core.position, Prod.mk.injEq]
  have hfires : ∀ tokens : List T, tokens.map some = (lists (0, w.cursor % SLOTS)).map w.token →
      Fires w w.cursor (lists (0, w.cursor % SLOTS)) tokens := by
    intro tokens htokens
    refine ⟨h.buckets.nodup _, ?_, htokens⟩
    intro i
    constructor
    · intro hi
      obtain ⟨-, c, hc, -⟩ := (h.filed _ i).mp hi
      exact ⟨c, hc, (hdue i c hc).mpr hi⟩
    · rintro ⟨c, hc, hduec⟩
      apply (hdue i c hc).mp hduec
  have hiff : w.isOccupied 0 (w.cursor % SLOTS) = true ↔ lists (0, w.cursor % SLOTS) ≠ [] := by
    rw [isOccupied_iff hrange.2, h.occupied]
  by_cases hempty : lists (0, w.cursor % SLOTS) = []
  · refine ⟨w, [], _, free, ?_, ⟨lists, h⟩, rfl, rfl, ?_, hfires [] (by simp [hempty])⟩
    · simp only [Wheel.fire, and_slotMask]
      rw [if_neg]
      rw [hiff]
      simp [hempty]
    · apply List.ext_getElem?
      intro j
      rw [List.getElem?_map]
      cases hc : w.cores[j]? with
      | none => rfl
      | some c =>
        rw [Option.map_some, Core.expired, if_neg]
        rw [hdue j c hc, hempty]
        simp
  · obtain ⟨w₁, index, htake, hindex, hlinks₁, hchain, hcores₁, hcursor₁, hid₁⟩ := h.take hrange
    obtain ⟨w', tokens, free', hloop, hlinks', hcursor', hid', hcores', htokens⟩ :=
      hlinks₁.fireLoop hchain
      (by
        intro i hi c hc
        rw [hcores₁] at hc
        rw [hcursor₁]
        exact ((hdue i c hc).mpr hi).2)
      hlinks₁.length_lt hindex
    have htoken : w₁.token = w.token := by
      funext i
      rw [Wheel.token, hcores₁, Wheel.token]
    rw [htoken] at htokens
    refine ⟨w', tokens, _, free', ?_, ⟨_, hlinks'⟩, hcursor'.trans hcursor₁, hid'.trans hid₁, ?_,
      hfires tokens htokens⟩
    · simp only [Wheel.fire, and_slotMask]
      rw [if_pos (hiff.mpr hempty), htake, ok_bind]
      exact hloop
    · apply List.ext_getElem?
      intro j
      rw [hcores', hcores₁, List.getElem?_map]
      cases hc : w.cores[j]? with
      | none => simp
      | some c =>
        simp only [Option.map_some, Core.expired, hdue j c hc]
        split <;> rfl

end Grommet.Timer
