import Grommet.Library.Program

/-!
# Handlers of programs, and what a program does at every operation

A handler answers the operations of one kind of program by programs of another kind, with a
state of its own.  A server answers them from a state at once.

`Conducts G Q t p` says what the program `p` does after the operations `t`, whatever the
answers are: `G` holds at every operation it asks for, and `Q` when it returns.
-/

universe u

namespace Program

variable {Op Op' : Type} {A : Op → Type} {B : Op' → Type} {α β σ τ : Type}
  {p : Program A α} {f : α → Program A β} {t t' : List (Event A)} {op : Op}

@[simp]
theorem ask_bind (op : Op) (f : A op → Program A β) :
  (ask op >>= f) = act op f
  := rfl

@[simp]
theorem ret_bind (a : α) (f : α → Program A β) :
  ((ret a : Program A α) >>= f) = f a
  := rfl

theorem bind_assoc' {γ : Type} {g : β → Program A γ} :
  (p >>= f) >>= g = p >>= fun a => f a >>= g
  := by
  induction p with
  | ret a => rfl
  | act op next ih =>
    simp only [act_bind]
    congr 1
    funext answer
    exact ih answer

theorem bind_pure' (p : Program A α) :
  p >>= pure = p
  := by
  induction p with
  | ret a => rfl
  | act op next ih => exact congrArg (act op) (funext ih)

/-! ### Servers -/

/-- Run a program against a server that answers every operation from its state. -/
def serve (answer : (op : Op) → σ → A op × σ) : Program A α → σ → α × σ
  | ret a, s => (a, s)
  | act op next, s => (next (answer op s).1).serve answer (answer op s).2

variable {answer : (op : Op) → σ → A op × σ} {s : σ}

@[simp]
theorem serve_ret (a : α) :
  (ret a : Program A α).serve answer s = (a, s)
  := rfl

@[simp]
theorem serve_act (next : A op → Program A α) :
  (act op next).serve answer s = (next (answer op s).1).serve answer (answer op s).2
  := rfl

@[simp]
theorem serve_bind :
  (p >>= f).serve answer s = (f (p.serve answer s).1).serve answer (p.serve answer s).2
  := by
  induction p generalizing s with
  | ret a => rfl
  | act op next ih =>
    rw [act_bind, serve_act, serve_act, ih]

/-- What every answer of a server keeps of its state. -/
theorem serve_induction {I : σ → Prop} (hs : I s) (hanswer : ∀ op s, I s → I (answer op s).2) :
  I (p.serve answer s).2
  := by
  induction p generalizing s with
  | ret a => exact hs
  | act op next ih => exact ih _ (hanswer op s hs)

/-! ### Handlers -/

/-- Answer the operations of a program by programs of another kind. -/
def handle (h : (op : Op) → σ → Program B (A op × σ)) : Program A α → σ → Program B (α × σ)
  | ret a, s => ret (a, s)
  | act op next, s => h op s >>= fun x => (next x.1).handle h x.2

variable {h : (op : Op) → σ → Program B (A op × σ)}

@[simp]
theorem handle_ret (a : α) :
  (ret a : Program A α).handle h s = ret (a, s)
  := rfl

@[simp]
theorem handle_act (next : A op → Program A α) :
  (act op next).handle h s = h op s >>= fun x => (next x.1).handle h x.2
  := rfl

@[simp]
theorem handle_bind :
  (p >>= f).handle h s = p.handle h s >>= fun x => (f x.1).handle h x.2
  := by
  induction p generalizing s with
  | ret a => rfl
  | act op next ih =>
    rw [act_bind, handle_act, handle_act, bind_assoc']
    simp only [ih]

/-! ### The conduct of a program -/

/-- Whatever the answers are, the guarantee holds at every operation and the postcondition at
the end, both told the operations and answers so far. -/
def Conducts (G : List (Event A) → Op → Prop) (Q : List (Event A) → α → Prop) :
    List (Event A) → Program A α → Prop
  | t, ret a => Q t a
  | t, act op next => G t op ∧ ∀ answer, Conducts G Q (t ++ [⟨op, answer⟩]) (next answer)

variable {G : List (Event A) → Op → Prop} {Q : List (Event A) → α → Prop}
  {R : List (Event A) → β → Prop}

@[simp]
theorem conducts_ret {a : α} :
  Conducts G Q t (ret a) ↔ Q t a
  := Iff.rfl

@[simp]
theorem conducts_act {next : A op → Program A α} :
  Conducts G Q t (act op next) ↔
    G t op ∧ ∀ answer, Conducts G Q (t ++ [⟨op, answer⟩]) (next answer)
  := Iff.rfl

/-- The rule for sequences. -/
theorem Conducts.bind (hp : Conducts G Q t p) (hf : ∀ t a, Q t a → Conducts G R t (f a)) :
  Conducts G R t (p >>= f)
  := by
  induction p generalizing t with
  | ret a => exact hf t a hp
  | act op next ih => exact ⟨hp.1, fun answer => ih answer (hp.2 answer)⟩

/-! ### What a program yields -/

/-- Whatever the answers are, the program returns a value with the property. -/
def Yields (C : α → Prop) : Program A α → Prop
  | ret a => C a
  | act _ next => ∀ answer, Yields C (next answer)

variable {C D : α → Prop} {E : β → Prop}

theorem Yields.mono (hp : Yields C p) (h : ∀ a, C a → D a) :
  Yields D p
  := by
  induction p with
  | ret a => exact h a hp
  | act op next ih => exact fun answer => ih answer (hp answer)

/-- The rule for sequences. -/
theorem Yields.bind (hp : Yields C p) (hf : ∀ a, C a → Yields E (f a)) :
  Yields E (p >>= f)
  := by
  induction p with
  | ret a => exact hf a hp
  | act op next ih => exact fun answer => ih answer (hp answer)

/-- What a program yields, it yields against every server. -/
theorem Yields.serve (hp : Yields C p) (answer : (op : Op) → σ → A op × σ) (s : σ) :
  C (p.serve answer s).1
  := by
  induction p generalizing s with
  | ret a => exact hp
  | act op next ih => exact ih _ (hp _) _

/-! ### Handlers that record -/

/-- A handler that also records the operations with their answers. -/
def recording (h : (op : Op) → σ → Program B (A op × σ)) (op : Op) (x : σ × List (Event A)) :
    Program B (A op × σ × List (Event A)) :=
  h op x.1 >>= fun y => ret (y.1, y.2, x.2 ++ [⟨op, y.1⟩])

/-- The rule for a program under a handler: what every operation keeps of the record and of the
handler's state holds at the end, with the postcondition of the program. -/
theorem Conducts.recording {h : (op : Op) → σ → Program B (A op × σ)} {I : List (Event A) → σ → Prop}
    (hp : Conducts G Q t p) (hI : I t s)
    (hop : ∀ t op s, G t op → I t s → Yields (fun x => I (t ++ [⟨op, x.1⟩]) x.2) (h op s)) :
  Yields (fun x => Q x.2.2 x.1 ∧ I x.2.2 x.2.1) (p.handle (recording h) (s, t))
  := by
  induction p generalizing t s with
  | ret a => exact ⟨hp, hI⟩
  | act op next ih =>
    apply Yields.bind (C := fun y => y.2.2 = t ++ [⟨op, y.1⟩] ∧ I y.2.2 y.2.1)
    · apply (hop t op s hp.1 hI).bind
      exact fun y hy => ⟨rfl, hy⟩
    · rintro ⟨answer, s', t'⟩ ⟨ht, hI'⟩
      simp only at ht hI'
      subst ht
      exact ih answer (hp.2 answer) hI'

/-! ### Operations that are carried out by programs -/

/-- Carry out every operation of a program by a program of another kind. -/
def expand (h : (op : Op) → Program B (A op)) : Program A α → Program B α
  | ret a => ret a
  | act op next => h op >>= fun answer => (next answer).expand h

/-- The rule for a program whose operations are carried out below: what ties the operations
above to those below so far is kept by each operation, as long as the guarantee above holds. -/
theorem Conducts.expand {h : (op : Op) → Program B (A op)} {R : List (Event A) → List (Event B) → Prop}
    {G' : List (Event B) → Op' → Prop} {Q' : List (Event B) → α → Prop} {u : List (Event B)}
    (hp : Conducts G Q t p) (hR : R t u)
    (hop : ∀ t u op, G t op → R t u →
      Conducts G' (fun u answer => R (t ++ [⟨op, answer⟩]) u) u (h op))
    (hret : ∀ t u a, Q t a → R t u → Q' u a) :
  Conducts G' Q' u (p.expand h)
  := by
  induction p generalizing t u with
  | ret a => exact hret t u a hp hR
  | act op next ih =>
    apply (hop t u op hp.1 hR).bind
    intro u answer hR
    exact ih answer (hp.2 answer) hR

end Program
