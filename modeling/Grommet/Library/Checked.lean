import Mathlib.Data.List.Perm.Basic

/-!
# Computations that may panic

`Checked α` is the outcome of a computation that returns a value of type `α` or stops
with a panic.  The arithmetic and lookup steps below are those a debug build checks: a
subtraction that may underflow, an optional value that is expected, an assertion and an
array access.
-/

namespace Checked

/-- Why a computation stopped. -/
inductive Panic where
  /-- An expected value was absent. -/
  | expect (message : String)
  /-- An assertion failed. -/
  | assertion (message : String)
  /-- An array was indexed out of its bounds. -/
  | bounds
  /-- An unsigned subtraction went below zero. -/
  | underflow
  /-- A loop ran out of the iterations it was given. -/
  | hang
  deriving DecidableEq, Repr

end Checked

open Checked

/-- The outcome of a computation that may panic. -/
abbrev Checked (α : Type*) := Except Panic α

universe u

namespace Checked

variable {α β : Type u}

/-- The value of `o`, which is expected to be present. -/
def expect (o : Option α) (message : String) : Checked α :=
  match o with
  | some a => .ok a
  | none => .error (.expect message)

/-- An assertion. -/
def assert (p : Bool) (message : String) : Checked Unit :=
  if p then .ok () else .error (.assertion message)

/-- Unsigned subtraction. -/
def sub (m n : ℕ) : Checked ℕ :=
  if n ≤ m then .ok (m - n) else .error .underflow

/-- The bound of an array access. -/
def inBounds (i n : ℕ) : Checked (PLift (i < n)) :=
  if h : i < n then .ok ⟨h⟩ else .error .bounds

/-- The remainder of a division. -/
def rem (m n : ℕ) : Checked ℕ :=
  if n = 0 then
    .error (.assertion "attempt to calculate the remainder with a divisor of zero")
  else
    .ok (m % n)

/-- Take an element out of a vector and put the last one in its place. -/
def swapRemove {α : Type} (l : List α) (i : ℕ) : Checked (α × List α) :=
  if h : i < l.length then
    .ok (l[i], (l.set i (l.getLast (List.ne_nil_of_length_pos (Nat.zero_lt_of_lt h)))).dropLast)
  else
    .error .bounds

/-! ### Stepping through a computation -/

@[simp]
theorem ok_bind (a : α) (f : α → Checked β) :
  ((Except.ok a : Checked α) >>= f) = f a
  := rfl

@[simp]
theorem error_bind (e : Panic) (f : α → Checked β) :
  ((Except.error e : Checked α) >>= f) = .error e
  := rfl

@[simp]
theorem expect_some (a : α) (message : String) :
  expect (some a) message = .ok a
  := rfl

@[simp]
theorem assert_true (message : String) :
  assert true message = .ok ()
  := rfl

theorem assert_of {p : Bool} (h : p = true) (message : String) :
  assert p message = .ok ()
  := by
  rw [h, assert_true]

theorem sub_of_le {m n : ℕ} (h : n ≤ m) :
  sub m n = .ok (m - n)
  := if_pos h

theorem inBounds_of_lt {i n : ℕ} (h : i < n) :
  inBounds i n = .ok ⟨h⟩
  := dif_pos h

theorem rem_of_pos {m n : ℕ} (h : 0 < n) :
  rem m n = .ok (m % n)
  := if_neg (Nat.ne_of_gt h)

theorem swapRemove_of_lt {α : Type} {l : List α} {i : ℕ} (h : i < l.length) :
  ∃ l', swapRemove l i = .ok (l[i], l') ∧ l.Perm (l[i] :: l')
  := by
  refine ⟨_, dif_pos h, ?_⟩
  obtain ⟨init, last, rfl⟩ : ∃ init last, l = init ++ [last] :=
    ⟨_, _, (List.dropLast_append_getLast (List.ne_nil_of_length_pos (Nat.zero_lt_of_lt h))).symm⟩
  rw [List.getLast_append_singleton]
  rw [List.length_append, List.length_singleton] at h
  rcases Nat.lt_succ_iff_lt_or_eq.mp h with hlt | rfl
  · rw [List.getElem_append_left hlt, List.set_append_left _ _ hlt, List.dropLast_concat]
    have hrest := (List.getElem_cons_eraseIdx_perm hlt).symm
    have hset := (List.set_perm_cons_eraseIdx hlt last).symm
    apply List.perm_append_comm.trans
    exact ((hrest.cons last).trans (List.Perm.swap ..)).trans (hset.cons _)
  · simp [List.set_append_right]

/-- A sequence of two computations returns exactly when both return. -/
theorem bind_eq_ok {x : Checked α} {f : α → Checked β} {b : β} :
  (x >>= f) = .ok b ↔ ∃ a, x = .ok a ∧ f a = .ok b
  := by
  cases x with
  | ok a => simp
  | error e => simp

theorem expect_eq_ok {o : Option α} {message : String} {a : α} :
  expect o message = .ok a ↔ o = some a
  := by
  cases o with
  | some b => simp
  | none => simp [expect]

theorem sub_eq_ok {m n r : ℕ} :
  sub m n = .ok r ↔ n ≤ m ∧ m - n = r
  := by
  unfold sub
  split
  · simp_all
  · simp only [reduceCtorEq, false_iff]
    omega

theorem assert_eq_ok {p : Bool} {message : String} {u : Unit} :
  assert p message = .ok u ↔ p = true
  := by
  simp [assert]

end Checked
