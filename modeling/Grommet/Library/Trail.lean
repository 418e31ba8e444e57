import Mathlib.Data.List.Induction

/-!
# Trails of a labelled transition relation

`Trail step s t s'` says that the transitions labelled `t` lead from `s` to `s'`, in that
order.  A trail grows at its end, so that a property of the trail so far and the state it
led to is proved by what holds at the start and by what one more transition keeps.
-/

universe u v w

variable {σ : Type u} {ε : Type v} {τ : Type w}

/-- The transitions labelled by the list lead from `s` to the last state. -/
inductive Trail (step : σ → ε → σ → Prop) (s : σ) : List ε → σ → Prop
  | nil : Trail step s [] s
  | snoc {t : List ε} {s₁ s₂ : σ} {e : ε} :
      Trail step s t s₁ → step s₁ e s₂ → Trail step s (t ++ [e]) s₂

namespace Trail

variable {step : σ → ε → σ → Prop} {step' : τ → ε → τ → Prop} {s s₁ s₂ : σ} {t t₁ t₂ : List ε}
  {e : ε}

theorem eq_of_nil (h : Trail step s [] s₁) :
  s₁ = s
  := by
  generalize ht : ([] : List ε) = t at h
  cases h with
  | nil => rfl
  | snoc _ _ => simp at ht

/-- The last transition of a trail. -/
theorem last (h : Trail step s (t ++ [e]) s₂) :
  ∃ s₁, Trail step s t s₁ ∧ step s₁ e s₂
  := by
  generalize ht : t ++ [e] = t' at h
  cases h with
  | nil => simp at ht
  | snoc htrail hstep =>
    obtain ⟨rfl, he⟩ := List.append_inj' ht rfl
    rw [List.cons_eq_cons] at he
    obtain ⟨rfl, -⟩ := he
    exact ⟨_, htrail, hstep⟩

theorem trans (h₁ : Trail step s t₁ s₁) (h₂ : Trail step s₁ t₂ s₂) :
  Trail step s (t₁ ++ t₂) s₂
  := by
  induction h₂ with
  | nil =>
    rw [List.append_nil]
    apply h₁
  | snoc _ hstep ih =>
    rw [← List.append_assoc]
    apply snoc ih hstep

/-- A trail after a transition. -/
theorem cons (hstep : step s e s₁) (h : Trail step s₁ t s₂) :
  Trail step s (e :: t) s₂
  := trans (snoc (t := []) nil hstep) h

/-- A trail splits where its labels do. -/
theorem split (h : Trail step s (t₁ ++ t₂) s₂) :
  ∃ s₁, Trail step s t₁ s₁ ∧ Trail step s₁ t₂ s₂
  := by
  induction t₂ using List.reverseRecOn generalizing s₂ with
  | nil =>
    rw [List.append_nil] at h
    exact ⟨s₂, h, nil⟩
  | append_singleton t₂ e ih =>
    rw [← List.append_assoc] at h
    obtain ⟨s', h', hstep⟩ := h.last
    obtain ⟨s₁, h₁, h₂⟩ := ih h'
    exact ⟨s₁, h₁, h₂.snoc hstep⟩

/-- The first transition of a trail. -/
theorem first (h : Trail step s (e :: t) s₂) :
  ∃ s₁, step s e s₁ ∧ Trail step s₁ t s₂
  := by
  rw [← List.singleton_append] at h
  obtain ⟨s₁, h₁, h₂⟩ := h.split
  obtain ⟨s', h', hstep⟩ := last (t := []) h₁
  cases eq_of_nil h'
  exact ⟨s₁, hstep, h₂⟩

/-- A property of the trail so far and of its last state, kept by every transition. -/
theorem invariant (I : List ε → σ → Prop) (h : Trail step s t s₁) (hstart : I [] s)
    (hstep : ∀ t s₁ e s₂, Trail step s t s₁ → I t s₁ → step s₁ e s₂ → I (t ++ [e]) s₂) :
  I t s₁
  := by
  induction h with
  | nil => apply hstart
  | snoc htrail hs ih => apply hstep _ _ _ _ htrail ih hs

/-- A transition relation that allows more has more trails. -/
theorem mono {step' : σ → ε → σ → Prop} (h : Trail step s t s₁)
    (hmono : ∀ s e s', step s e s' → step' s e s') :
  Trail step' s t s₁
  := by
  induction h with
  | nil => exact nil
  | snoc _ hs ih => exact ih.snoc (hmono _ _ _ hs)

/-- A transition relation that follows another has its trails. -/
theorem simulate {a : τ} (R : σ → τ → Prop) (h : Trail step s t s₁) (hstart : R s a)
    (hstep : ∀ s a e s', R s a → step s e s' → ∃ a', step' a e a' ∧ R s' a') :
  ∃ a₁, Trail step' a t a₁ ∧ R s₁ a₁
  := by
  induction h with
  | nil => exact ⟨a, nil, hstart⟩
  | snoc _ hs ih =>
    obtain ⟨a₁, ha₁, hr⟩ := ih
    obtain ⟨a₂, ha₂, hr₂⟩ := hstep _ _ _ _ hr hs
    exact ⟨a₂, ha₁.snoc ha₂, hr₂⟩

end Trail
