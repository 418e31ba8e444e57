import Mathlib.Data.List.Basic
import Mathlib.Data.List.Nodup
import Mathlib.Logic.Function.Basic

/-!
# Lists threaded through links

A linked list is a head, a successor map and, for a doubly linked list, a predecessor map.
`Follows f n l` says that `f` sends every member of `l` to the member after it, and the
last one to `n`.  A doubly linked list with members `l` is `Follows next none l` together
with `Follows prev none l.reverse`, so each fact below serves both directions.
-/

universe u

variable {ι : Type u}

/-- `f` sends every member of `l` to the one after it, and the last one to `n`. -/
def Follows (f : ι → Option ι) (n : Option ι) : List ι → Prop
  | [] => True
  | k :: l => f k = l.head?.or n ∧ Follows f n l

namespace Follows

variable {f g : ι → Option ι} {n m : Option ι} {k : ι} {a b l : List ι}

@[simp]
theorem nil :
  Follows f n []
  := trivial

@[simp]
theorem singleton_iff :
  Follows f n [k] ↔ f k = n
  := by
  simp [Follows]

/-- A threaded list splits at any point; its first part leads to the second. -/
theorem append_iff :
  Follows f n (a ++ b) ↔ Follows f (b.head?.or n) a ∧ Follows f n b
  := by
  induction a with
  | nil => simp
  | cons x a ih =>
    simp only [List.cons_append, Follows, List.head?_append, Option.or_assoc]
    rw [ih, and_assoc]

/-- Only the links of the members matter. -/
theorem congr (h : Follows f n l) (hfg : ∀ x ∈ l, g x = f x) :
  Follows g n l
  := by
  induction l with
  | nil => trivial
  | cons x l ih =>
    constructor
    · rw [hfg x (by simp)]
      apply h.1
    · apply ih h.2
      intro y hy
      apply hfg y (by simp [hy])

/-- The link of a member leads to the one after it. -/
theorem link (h : Follows f n (a ++ k :: b)) :
  f k = b.head?.or n
  := (append_iff.mp h).2.1

/-- Redirecting the last member leads the list elsewhere. -/
theorem redirect (h : Follows f n l) (hnd : l.Nodup) (hlast : ∀ x ∈ l.getLast?, g x = m)
    (hfg : ∀ x ∈ l, x ∉ l.getLast? → g x = f x) :
  Follows g m l
  := by
  induction l with
  | nil => trivial
  | cons x l ih =>
    obtain ⟨hx, hnd⟩ := List.nodup_cons.mp hnd
    cases l with
    | nil => simpa using hlast
    | cons y l =>
      constructor
      · rw [hfg x (by simp)]
        · apply h.1
        · intro hmem
          apply hx (List.mem_of_getLast? (by simpa using hmem))
      · apply ih h.2 hnd
        · simpa using hlast
        · intro z hz hzl
          apply hfg z (by simp [hz])
          simpa using hzl

/-- The links and the first member determine a list that ends. -/
theorem unique (h : Follows f none a) (h' : Follows f none b) (hhead : a.head? = b.head?) :
  a = b
  := by
  induction a generalizing b with
  | nil => exact (List.head?_eq_none_iff.mp hhead.symm).symm
  | cons x a ih =>
    cases b with
    | nil => cases hhead
    | cons y b =>
      cases hhead
      have hnext : a.head?.or none = b.head?.or none := h.1.symm.trans h'.1
      rw [Option.or_none, Option.or_none] at hnext
      rw [ih h.2 h'.2 hnext]

/-- A list that ends has no member twice. -/
theorem nodup (h : Follows f none l) :
  l.Nodup
  := by
  induction l with
  | nil => exact List.nodup_nil
  | cons x l ih =>
    refine List.nodup_cons.mpr ⟨?_, ih h.2⟩
    intro hx
    obtain ⟨a, b, rfl⟩ := List.append_of_mem hx
    have heq := h.unique (append_iff.mp h.2).2 rfl
    have hlength := congrArg List.length heq
    simp only [List.length_cons, List.length_append] at hlength
    omega

end Follows

/-- The members met by following `f` from `x`, at most `n` of them. -/
def walk (f : ι → Option ι) : ℕ → Option ι → List ι
  | 0, _ => []
  | _ + 1, none => []
  | n + 1, some x => x :: walk f n (f x)

/-- Walking a threaded list meets its members. -/
theorem Follows.walk_eq {f : ι → Option ι} {l : List ι} (h : Follows f none l) :
  walk f l.length l.head? = l
  := by
  induction l with
  | nil => rfl
  | cons x l ih =>
    obtain ⟨hx, hl⟩ := h
    rw [List.length_cons, List.head?_cons, walk, hx, Option.or_none, ih hl]

/-! ### Doubly linked lists -/

/-- `next` and `prev` thread the list `l`, whose ends lead nowhere. -/
structure Threads (next prev : ι → Option ι) (l : List ι) : Prop where
  forward : Follows next none l
  backward : Follows prev none l.reverse

namespace Threads

variable {next prev next' prev' : ι → Option ι} {k : ι} {a b l : List ι}

theorem nil :
  Threads next prev []
  := ⟨trivial, trivial⟩

/-- Only the links of the members matter. -/
theorem congr (h : Threads next prev l) (hn : ∀ x ∈ l, next' x = next x)
    (hp : ∀ x ∈ l, prev' x = prev x) :
  Threads next' prev' l
  := by
  constructor
  · apply h.forward.congr hn
  · apply h.backward.congr
    intro x hx
    apply hp x (List.mem_reverse.mp hx)

theorem next_eq (h : Threads next prev (a ++ k :: b)) :
  next k = b.head?
  := by
  rw [h.forward.link, Option.or_none]

theorem prev_eq (h : Threads next prev (a ++ k :: b)) :
  prev k = a.getLast?
  := by
  have hback := h.backward
  rw [List.reverse_append, List.reverse_cons, List.append_assoc, List.singleton_append] at hback
  rw [hback.link, Option.or_none, List.head?_reverse]

/-- The links after a member is appended. -/
theorem append (h : Threads next prev l) (hnd : l.Nodup)
    (hnext : next' k = none) (hprev : prev' k = l.getLast?)
    (hlast : ∀ x ∈ l.getLast?, next' x = some k)
    (hn : ∀ x ∈ l, x ∉ l.getLast? → next' x = next x)
    (hp : ∀ x ∈ l, prev' x = prev x) :
  Threads next' prev' (l ++ [k])
  := by
  constructor
  · apply Follows.append_iff.mpr
    constructor
    · apply h.forward.redirect hnd
      · simpa using hlast
      · apply hn
    · simpa using hnext
  · rw [List.reverse_append, List.reverse_singleton, List.singleton_append]
    constructor
    · rw [hprev, Option.or_none, List.head?_reverse]
    · apply h.backward.congr
      intro x hx
      apply hp x (List.mem_reverse.mp hx)

/-- The links after a member is prepended. -/
theorem cons (h : Threads next prev l) (hnd : l.Nodup)
    (hnext : next' k = l.head?) (hprev : prev' k = none)
    (hhead : ∀ x ∈ l.head?, prev' x = some k)
    (hn : ∀ x ∈ l, next' x = next x)
    (hp : ∀ x ∈ l, x ∉ l.head? → prev' x = prev x) :
  Threads next' prev' (k :: l)
  := by
  constructor
  · constructor
    · rw [hnext, Option.or_none]
    · apply h.forward.congr hn
  · rw [List.reverse_cons]
    apply Follows.append_iff.mpr
    constructor
    · apply h.backward.redirect (List.nodup_reverse.mpr hnd)
      · simpa using hhead
      · simpa using hp
    · simpa using hprev

/-- The links after a member is removed and its neighbours are joined. -/
theorem remove (h : Threads next prev (a ++ k :: b)) (hnd : (a ++ k :: b).Nodup)
    (hnext : ∀ x ∈ a.getLast?, next' x = b.head?)
    (hprev : ∀ x ∈ b.head?, prev' x = a.getLast?)
    (hn : ∀ x ∈ a ++ b, x ∉ a.getLast? → next' x = next x)
    (hp : ∀ x ∈ a ++ b, x ∉ b.head? → prev' x = prev x) :
  Threads next' prev' (a ++ b)
  := by
  obtain ⟨hnda, hndb, hdisj⟩ := List.nodup_append.mp hnd
  have hdisj' : ∀ x ∈ a, x ∉ b := by
    intro x hxa hxb
    apply hdisj x hxa x (by simp [hxb]) rfl
  constructor
  · obtain ⟨hfa, -, hfb⟩ := Follows.append_iff.mp h.forward
    apply Follows.append_iff.mpr
    constructor
    · apply hfa.redirect hnda
      · simpa using hnext
      · intro x hx
        apply hn x (by simp [hx])
    · apply hfb.congr
      intro y hy
      apply hn y (by simp [hy])
      intro hya
      apply hdisj' y (List.mem_of_getLast? hya) hy
  · have hback := h.backward
    rw [List.reverse_append, List.reverse_cons, List.append_assoc, List.singleton_append] at hback
    obtain ⟨hfb, -, hfa⟩ := Follows.append_iff.mp hback
    rw [List.reverse_append]
    apply Follows.append_iff.mpr
    constructor
    · apply hfb.redirect (List.nodup_reverse.mpr (List.nodup_cons.mp hndb).2)
      · simpa using hprev
      · intro x hx
        rw [List.getLast?_reverse]
        apply hp x (by simp_all)
    · apply hfa.congr
      intro y hy
      rw [List.mem_reverse] at hy
      apply hp y (by simp [hy])
      intro hyb
      apply hdisj' y hy (List.mem_of_head? hyb)

end Threads

/-- A doubly linked list with its two ends and its length: `next` and `prev` thread `l`
and link nothing else. -/
structure Threaded (next prev : ι → Option ι) (head tail : Option ι) (count : ℕ)
    (l : List ι) : Prop where
  threads : Threads next prev l
  nodup : l.Nodup
  head : head = l.head?
  tail : tail = l.getLast?
  count : count = l.length
  detached : ∀ k, k ∉ l → next k = none ∧ prev k = none

namespace Threaded

variable [DecidableEq ι] {next prev : ι → Option ι} {head tail : Option ι} {count : ℕ}
  {l : List ι} {k : ι}

/-- A detached member joins at the far end. -/
theorem append (h : Threaded next prev head tail count l) (hk : k ∉ l) :
  Threaded (fun j => if tail = some j then some k else next j) (Function.update prev k tail)
    (if tail.isNone then some k else head) (some k) (count + 1) (l ++ [k])
  := by
  have htail := h.tail
  have hne : ∀ j ∈ l, j ≠ k := by
    rintro j hj rfl
    apply hk hj
  constructor
  · apply h.threads.append h.nodup
    · have hkt : tail ≠ some k := by
        intro heq
        apply hk (List.mem_of_getLast? (htail ▸ heq))
      simp [hkt, h.detached k hk]
    · rw [Function.update_self, htail]
    · intro x hx
      rw [if_pos]
      rw [htail, hx]
    · intro x _ hx
      rw [if_neg]
      rw [htail]
      apply hx
    · intro x hx
      apply Function.update_of_ne (hne x hx)
  · rw [List.nodup_append]
    refine ⟨h.nodup, by simp, ?_⟩
    rintro x hx y hy rfl
    apply hk
    rwa [List.mem_singleton.mp hy] at hx
  · rw [htail, h.head]
    cases l with
    | nil => rfl
    | cons x l => simp
  · simp
  · simp [h.count]
  · intro j hj
    rw [List.mem_append, List.mem_singleton, not_or] at hj
    have hjt : tail ≠ some j := by
      intro heq
      apply hj.1 (List.mem_of_getLast? (htail ▸ heq))
    rw [if_neg hjt, Function.update_of_ne hj.2]
    apply h.detached j hj.1

/-- A member leaves and its neighbours are joined. -/
theorem remove (h : Threaded next prev head tail count l) (hk : k ∈ l) :
  Threaded
    (fun j => if j = k then none else if prev k = some j then next k else next j)
    (fun j => if j = k then none else if next k = some j then prev k else prev j)
    (if (prev k).isNone then next k else head) (if (next k).isNone then prev k else tail)
    (count - 1) (l.erase k)
  := by
  obtain ⟨a, b, rfl⟩ := List.append_of_mem hk
  have hnd := h.nodup
  have hnext := h.threads.next_eq
  have hprev := h.threads.prev_eq
  obtain ⟨-, hndb, hdisj⟩ := List.nodup_append.mp hnd
  have hka : k ∉ a := by
    intro hka
    apply hdisj k hka k (by simp) rfl
  have hkb : k ∉ b := (List.nodup_cons.mp hndb).1
  have herase : (a ++ k :: b).erase k = a ++ b := by
    rw [List.erase_append_right _ hka, List.erase_cons_head]
  have hne : ∀ j ∈ a ++ b, j ≠ k := by
    rintro j hj rfl
    rcases List.mem_append.mp hj with hja | hjb
    · apply hka hja
    · apply hkb hjb
  rw [herase]
  constructor
  · apply h.threads.remove hnd
    · intro x hx
      rw [if_neg (hne x (by simp [List.mem_of_getLast? hx])), if_pos, hnext]
      rw [hprev, hx]
    · intro x hx
      rw [if_neg (hne x (by simp [List.mem_of_head? hx])), if_pos, hprev]
      rw [hnext, hx]
    · intro x hx hxa
      rw [if_neg (hne x hx), if_neg]
      rw [hprev]
      apply hxa
    · intro x hx hxb
      rw [if_neg (hne x hx), if_neg]
      rw [hnext]
      apply hxb
  · apply List.Nodup.sublist _ hnd
    simp
  · rw [hprev, hnext, h.head]
    cases a with
    | nil => simp
    | cons x a => simp [List.getLast?_cons]
  · rw [hprev, hnext, h.tail]
    cases b with
    | nil => simp
    | cons x b => simp [List.getLast?_cons, List.getLast?_append]
  · simp [h.count]
  · intro j hj
    by_cases hjk : j = k
    · simp [hjk]
    · have hj' : j ∉ a ++ k :: b := by
        simp only [List.mem_append, List.mem_cons] at hj ⊢
        tauto
      have hja : prev k ≠ some j := by
        rw [hprev]
        intro heq
        apply hj
        simp [List.mem_of_getLast? heq]
      have hjb : next k ≠ some j := by
        rw [hnext]
        intro heq
        apply hj
        simp [List.mem_of_head? heq]
      rw [if_neg hjk, if_neg hjk, if_neg hja, if_neg hjb]
      apply h.detached j hj'

end Threaded

/-! ### Links with a sentinel -/

/-- The link stored as `x`, where `nil` stands for no link. -/
def ofSentinel [DecidableEq ι] (nil x : ι) : Option ι :=
  if x = nil then none else some x

section Sentinel

variable [DecidableEq ι] {nil x y : ι}

@[simp]
theorem ofSentinel_self :
  ofSentinel nil nil = none
  := if_pos rfl

theorem ofSentinel_eq_none_iff :
  ofSentinel nil x = none ↔ x = nil
  := by
  simp [ofSentinel]

theorem ofSentinel_eq_some_iff :
  ofSentinel nil x = some y ↔ x = y ∧ x ≠ nil
  := by
  simp only [ofSentinel]
  split
  · simp_all
  · simp_all

theorem ofSentinel_of_ne (h : x ≠ nil) :
  ofSentinel nil x = some x
  := if_neg h

theorem ofSentinel_inj (h : ofSentinel nil x = ofSentinel nil y) :
  x = y
  := by
  by_cases hy : y = nil
  · rw [hy, ofSentinel_self, ofSentinel_eq_none_iff] at h
    rw [h, hy]
  · rw [ofSentinel_of_ne hy, ofSentinel_eq_some_iff] at h
    exact h.1

end Sentinel
