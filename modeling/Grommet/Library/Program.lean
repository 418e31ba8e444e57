import Mathlib.Data.List.Basic

/-!
# Programs that act on an environment

A program returns a value or asks the environment for an operation and goes on with the
answer.  A run of it is the list of the operations with their answers; it ends with the value
that is returned, or at an operation that halts it.

The rule for sequences splits a run where the first program returns.  An environment that
answers from a state evaluates a program, and the evaluation of a sequence is the evaluation
of its parts.
-/

universe u

/-- Programs that return a value of type `α`, where `A op` is the type of the answers to `op`. -/
inductive Program {Op : Type} (A : Op → Type) (α : Type) where
  | ret (a : α)
  | act (op : Op) (next : A op → Program A α)

namespace Program

variable {Op : Type} {A : Op → Type} {α β γ : Type}

/-- An operation with its answer. -/
abbrev Event (A : Op → Type) := (op : Op) × A op

def bind (p : Program A α) (f : α → Program A β) : Program A β :=
  match p with
  | ret a => f a
  | act op next => act op fun answer => (next answer).bind f

instance : Monad (Program A) where
  pure := ret
  bind := bind

/-- Ask for one operation. -/
def ask (op : Op) : Program A (A op) := act op ret

@[simp]
theorem pure_bind' (a : α) (f : α → Program A β) :
  ((pure a : Program A α) >>= f) = f a
  := rfl

@[simp]
theorem act_bind (op : Op) (next : A op → Program A α) (f : α → Program A β) :
  ((act op next : Program A α) >>= f) = act op fun answer => next answer >>= f
  := rfl

/-! ### Runs -/

variable (halts : Op → Bool)

/-- The program can meet these operations and answers and end so: with a value, or at an
operation that halts it. -/
inductive Run : Program A α → List (Event A) → Option α → Prop
  | ret (a : α) : Run (ret a) [] (some a)
  | halt {op : Op} {next : A op → Program A α} : halts op = true → Run (act op next) [] none
  | act {op : Op} {next : A op → Program A α} (answer : A op) {t : List (Event A)} {r : Option α} :
      Run (next answer) t r → Run (act op next) (⟨op, answer⟩ :: t) r

variable {halts} {p : Program A α} {f : α → Program A β} {t : List (Event A)} {r : Option α}
  {op : Op}

theorem run_pure {a : α} :
  Run halts (pure a : Program A α) t r ↔ t = [] ∧ r = some a
  := by
  constructor
  · rintro ⟨⟩
    exact ⟨rfl, rfl⟩
  · rintro ⟨rfl, rfl⟩
    exact .ret a

theorem run_act {next : A op → Program A α} :
  Run halts (act op next) t r ↔
    (halts op = true ∧ t = [] ∧ r = none) ∨
      ∃ answer t', t = ⟨op, answer⟩ :: t' ∧ Run halts (next answer) t' r
  := by
  constructor
  · intro h
    cases h with
    | halt hhalt => exact Or.inl ⟨hhalt, rfl, rfl⟩
    | act answer hrun => exact Or.inr ⟨answer, _, rfl, hrun⟩
  · rintro (⟨hhalt, rfl, rfl⟩ | ⟨answer, t', rfl, hrun⟩)
    · exact .halt hhalt
    · exact .act answer hrun

/-- A run that starts with an operation that does not halt it. -/
theorem run_ask_bind {f : A op → Program A β} {r : Option β} (hop : halts op = false) :
  Run halts (ask op >>= f) t r ↔
    ∃ answer t', t = ⟨op, answer⟩ :: t' ∧ Run halts (f answer) t' r
  := by
  rw [ask, act_bind, run_act, hop]
  constructor
  · rintro (⟨hhalt, -⟩ | h)
    · cases hhalt
    · exact h
  · exact Or.inr

/-- A run that starts with an operation that halts it and is never answered. -/
theorem run_halt_bind {f : A op → Program A β} {r : Option β} (hop : halts op = true)
    (hnever : A op → False) :
  Run halts (ask op >>= f) t r ↔ t = [] ∧ r = none
  := by
  rw [ask, act_bind, run_act, hop]
  constructor
  · rintro (⟨-, h⟩ | ⟨answer, -⟩)
    · exact h
    · exact (hnever answer).elim
  · exact fun h => Or.inl ⟨rfl, h⟩

theorem Run.bind {r : Option β} {t' : List (Event A)} {a : α} (h : Run halts p t (some a))
    (hrest : Run halts (f a) t' r) :
  Run halts (p >>= f) (t ++ t') r
  := by
  induction p generalizing t with
  | ret b =>
    cases h
    exact hrest
  | act op next ih =>
    cases h with
    | act answer h => exact .act answer (ih answer h)

/-- A run of a sequence ends in its first part, or splits where that returns. -/
theorem run_bind {r : Option β} (h : Run halts (p >>= f) t r) :
  (r = none ∧ Run halts p t none) ∨
    ∃ a t₁ t₂, t = t₁ ++ t₂ ∧ Run halts p t₁ (some a) ∧ Run halts (f a) t₂ r
  := by
  induction p generalizing t with
  | ret a => exact Or.inr ⟨a, [], t, rfl, .ret a, h⟩
  | act op next ih =>
    rw [act_bind] at h
    rcases run_act.mp h with ⟨hhalt, rfl, rfl⟩ | ⟨answer, t', rfl, hrun⟩
    · exact Or.inl ⟨rfl, .halt hhalt⟩
    · rcases ih answer hrun with ⟨rfl, hnone⟩ | ⟨a, t₁, t₂, rfl, h₁, h₂⟩
      · exact Or.inl ⟨rfl, .act answer hnone⟩
      · exact Or.inr ⟨a, _, t₂, rfl, .act answer h₁, h₂⟩

/-- A program has a run when every operation halts it or can be answered. -/
theorem exists_run (hanswer : ∀ op, halts op = true ∨ Nonempty (A op)) (p : Program A α) :
  ∃ t r, Run halts p t r
  := by
  induction p with
  | ret a => exact ⟨[], some a, .ret a⟩
  | act op next ih =>
    rcases hanswer op with hop | hnonempty
    · exact ⟨[], none, .halt hop⟩
    · obtain ⟨answer⟩ := hnonempty
      obtain ⟨t, r, hrun⟩ := ih answer
      exact ⟨_, r, .act answer hrun⟩

/-- Every run of the program returns, with operations and a value that are related by `Q`. -/
def Returns (halts : Op → Bool) (p : Program A α) (Q : List (Event A) → α → Prop) : Prop :=
  ∀ t r, Run halts p t r → ∃ a, r = some a ∧ Q t a

variable {Q : List (Event A) → α → Prop}

theorem returns_pure {a : α} (h : Q [] a) :
  Returns halts (pure a : Program A α) Q
  := by
  intro t r hrun
  obtain ⟨rfl, rfl⟩ := run_pure.mp hrun
  exact ⟨a, rfl, h⟩

/-- A run of a sequence whose first part returns. -/
theorem Returns.run_bind {r : Option β} (hp : Returns halts p Q) (h : Run halts (p >>= f) t r) :
  ∃ a t₁ t₂, t = t₁ ++ t₂ ∧ Q t₁ a ∧ Run halts (f a) t₂ r
  := by
  rcases Program.run_bind h with ⟨-, hrun⟩ | ⟨a, t₁, t₂, rfl, hrun, hrest⟩
  · obtain ⟨a, ha, -⟩ := hp t none hrun
    cases ha
  · obtain ⟨a', ha, hq⟩ := hp t₁ (some a) hrun
    cases ha
    exact ⟨a, t₁, t₂, rfl, hq, hrest⟩

/-- The rule for sequences. -/
theorem Returns.bind {Q' : List (Event A) → β → Prop} (hp : Returns halts p Q)
    (hf : ∀ a t₁, Q t₁ a → Returns halts (f a) fun t₂ b => Q' (t₁ ++ t₂) b) :
  Returns halts (p >>= f) Q'
  := by
  intro t r h
  obtain ⟨a, t₁, t₂, rfl, hq, hrest⟩ := hp.run_bind h
  exact hf a t₁ hq t₂ r hrest

/-- The rule for an operation. -/
theorem returns_ask_bind {f : A op → Program A β} {Q' : List (Event A) → β → Prop}
    (hop : halts op = false)
    (hf : ∀ answer, Returns halts (f answer) fun t b => Q' (⟨op, answer⟩ :: t) b) :
  Returns halts (ask op >>= f) Q'
  := by
  intro t r h
  obtain ⟨answer, t, rfl, hrest⟩ := (run_ask_bind hop).mp h
  exact hf answer t r hrest

theorem Returns.mono {Q' : List (Event A) → α → Prop} (hp : Returns halts p Q)
    (h : ∀ t a, Q t a → Q' t a) :
  Returns halts p Q'
  := by
  intro t r hrun
  obtain ⟨a, rfl, hq⟩ := hp t r hrun
  exact ⟨a, rfl, h t a hq⟩

/-! ### Environments with a state -/

/-- Evaluate a program in an environment that answers from its state, if it answers. -/
def eval {σ : Type} (answer : (op : Op) → σ → Option (A op × σ)) : Program A α → σ →
    Option (α × σ)
  | ret a, s => some (a, s)
  | act op next, s => (answer op s).bind fun (a, s) => (next a).eval answer s

variable {σ : Type} {answer : (op : Op) → σ → Option (A op × σ)}

theorem eval_ask (s : σ) :
  (ask op).eval answer s = answer op s
  := by
  rw [ask, eval]
  cases answer op s <;> rfl

@[simp]
theorem eval_bind (s : σ) :
  (p >>= f).eval answer s = (p.eval answer s).bind fun (a, s) => (f a).eval answer s
  := by
  induction p generalizing s with
  | ret a => rfl
  | act op next ih =>
    rw [act_bind, eval, eval, Option.bind_assoc]
    congr 1
    funext x
    exact ih x.1 x.2

/-- A sequence after its first part. -/
theorem eval_bind_of {s s' : σ} {a : α} (h : p.eval answer s = some (a, s')) :
  (p >>= f).eval answer s = (f a).eval answer s'
  := by
  rw [eval_bind, h]
  rfl

end Program
