import Mathlib.Data.List.Basic

/-!
# Duties along a trace

Some events of a trace raise a duty, some meet one, and some must not happen while a duty is
open.  `Calm S t S'` says that the trace never breaks the last rule when the duties `S` are
open at its start, and that those open at its end are among `S'`.
-/

/-- Which duties an event raises and which it meets, and whether it bars open ones. -/
structure Duties (ε ι : Type) where
  raises : ε → ι → Prop
  meets : ε → ι → Prop
  bars : ε → Prop

namespace Duties

variable {ε ι : Type} (D : Duties ε ι)

/-- The duties that are open after an event. -/
def after (S : ι → Prop) (e : ε) (i : ι) : Prop := D.raises e i ∨ S i ∧ ¬ D.meets e i

def Calm : (ι → Prop) → List ε → (ι → Prop) → Prop
  | S, [], S' => ∀ i, S i → S' i
  | S, e :: t, S' => (D.bars e → ∀ i, ¬ S i) ∧ Calm (D.after S e) t S'

variable {D} {S S' S₁ S₂ : ι → Prop} {e : ε} {t t₁ t₂ : List ε} {i : ι}

theorem Calm.mono (h : D.Calm S t S') (hS : ∀ i, S₁ i → S i) :
  D.Calm S₁ t S'
  := by
  induction t generalizing S S₁ with
  | nil => exact fun i hi => h i (hS i hi)
  | cons e t ih =>
    obtain ⟨hbars, hrest⟩ := h
    refine ⟨fun he i hi => hbars he i (hS i hi), ih hrest ?_⟩
    rintro i (hraised | ⟨hi, hmet⟩)
    · exact Or.inl hraised
    · exact Or.inr ⟨hS i hi, hmet⟩

theorem Calm.weaken (h : D.Calm S t S₁) (hS : ∀ i, S₁ i → S₂ i) :
  D.Calm S t S₂
  := by
  induction t generalizing S with
  | nil => exact fun i hi => hS i (h i hi)
  | cons e t ih => exact ⟨h.1, ih h.2⟩

theorem Calm.append (h₁ : D.Calm S t₁ S₁) (h₂ : D.Calm S₁ t₂ S₂) :
  D.Calm S (t₁ ++ t₂) S₂
  := by
  induction t₁ generalizing S with
  | nil => exact h₂.mono h₁
  | cons e t ih => exact ⟨h₁.1, ih h₁.2⟩

/-- A calm trace splits where its events do. -/
theorem Calm.split (h : D.Calm S (t₁ ++ t₂) S₂) :
  ∃ S₁, D.Calm S t₁ S₁ ∧ D.Calm S₁ t₂ S₂
  := by
  induction t₁ generalizing S with
  | nil => exact ⟨S, fun i hi => hi, h⟩
  | cons e t ih =>
    obtain ⟨S₁, h₁, h₂⟩ := ih h.2
    exact ⟨S₁, ⟨h.1, h₁⟩, h₂⟩

/-- An event without duties. -/
theorem Calm.skip (h : D.Calm S t S') (hraises : ∀ i, ¬ D.raises e i) (hbars : ¬ D.bars e) :
  D.Calm S (e :: t) S'
  := by
  refine ⟨fun he => (hbars he).elim, h.mono ?_⟩
  rintro i (hraised | ⟨hi, -⟩)
  · exact (hraises i hraised).elim
  · exact hi

/-- An event that bars open duties when there are none. -/
theorem Calm.clear (h : D.Calm (fun _ => False) t S') (hraises : ∀ i, ¬ D.raises e i) :
  D.Calm (fun _ => False) (e :: t) S'
  := by
  refine ⟨fun _ _ => id, h.mono ?_⟩
  rintro i (hraised | ⟨hi, -⟩)
  · exact hraises i hraised
  · exact hi

/-- A duty that is open stays so until it is met. -/
theorem Calm.met (h : D.Calm S t S') (hi : S i) (hend : ¬ S' i) :
  ∃ e ∈ t, D.meets e i
  := by
  induction t generalizing S with
  | nil => exact (hend (h i hi)).elim
  | cons e t ih =>
    by_cases hmet : D.meets e i
    · exact ⟨e, List.mem_cons_self, hmet⟩
    · obtain ⟨e', he', hmet'⟩ := ih h.2 (Or.inr ⟨hi, hmet⟩)
      exact ⟨e', List.mem_cons_of_mem _ he', hmet'⟩

/-- A duty that is raised is met later. -/
theorem Calm.raised (h : D.Calm S (t₁ ++ e :: t₂) S') (hraised : D.raises e i) (hend : ¬ S' i) :
  ∃ e' ∈ t₂, D.meets e' i
  := by
  obtain ⟨S₁, -, -, hrest⟩ := h.split
  exact hrest.met (Or.inl hraised) hend

/-- No duty is open before an event that bars them. -/
theorem Calm.before (h : D.Calm S (t₁ ++ e :: t₂) S') (he : D.bars e) :
  D.Calm S t₁ fun _ => False
  := by
  obtain ⟨S₁, h₁, hbars, -⟩ := h.split
  have hend : D.Calm S₁ [] fun _ => False := hbars he
  rw [← List.append_nil t₁]
  exact h₁.append hend

end Duties
