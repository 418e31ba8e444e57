import Grommet.Core.Scheduler.Model

/-!
# The scheduler as a book of queues

What the scheduler is for, without its arena and its links: every key has a queue, a
presence and perhaps a resident state, ready keys stand in the ring of a class, idle keys
in the order they went idle, and the caller owes a completion for each dispatch and a
release for each state it was handed to flush.

`Book.Inv` is the invariant that ties the rings, the idle order and the caller's debts to
the presences.  Its parameter `hole` exempts a key that is between two places, so that
each operation is a way of lifting a key out followed by a way of putting it back.
-/

namespace Grommet

/-- What the book records of a key. -/
structure Page (P S : Type) where
  resident : Option S
  queue : List (Item P)
  presence : Presence

/-- The scheduler as queues, rings and an idle order. -/
structure Book (K P S : Type) where
  page : K → Option (Page P S)
  ready : ClassId → List K
  idle : List K
  expired : List (K × ClassId × P)
  inflight : ClassId → ℕ
  evicting : ℕ

/-- What the caller owes: the dispatches it holds and the keys it is flushing. -/
structure Ledger (K : Type) where
  running : List (K × ClassId)
  flushing : List K

namespace Book

variable {K P S : Type}

/-- A book of no keys. -/
def empty : Book K P S where
  page := fun _ => none
  ready := fun _ => []
  idle := []
  expired := []
  inflight := fun _ => 0
  evicting := 0

/-- The presence of a key. -/
def presence (b : Book K P S) (k : K) : Option Presence :=
  (b.page k).map Page.presence

/-- The items queued behind a key. -/
def queue (b : Book K P S) (k : K) : List (Item P) :=
  ((b.page k).map Page.queue).getD []

/-- The state a key holds. -/
def resident (b : Book K P S) (k : K) : Option S :=
  (b.page k).bind Page.resident

/-- The number of dispatched items of the class with an index.  There are classes only for
the indices of a `u8`. -/
def inflightAt (b : Book K P S) (i : ℕ) : ℕ :=
  if i < 256 then b.inflight (UInt8.ofNat i) else 0

variable [DecidableEq K]

/-- Write the page of a key. -/
def write (b : Book K P S) (k : K) (page : Option (Page P S)) : Book K P S :=
  { b with page := Function.update b.page k page }

/-- Append a key to the ring of a class. -/
def join (b : Book K P S) (k : K) (c : ClassId) : Book K P S :=
  { b with ready := Function.update b.ready c (b.ready c ++ [k]) }

/-- Put a key in the ring of its first item, or at the end of the idle order. -/
def place (b : Book K P S) (k : K) (page : Page P S) : Book K P S :=
  match page.queue.head? with
  | some head =>
      (b.write k (some { page with presence := .ready head.classId })).join k head.classId
  | none =>
      { b.write k (some { page with presence := .idle }) with idle := b.idle ++ [k] }

/-- Queue an item behind its key. -/
def admitItem (b : Book K P S) (a : Admit K P) : Book K P S :=
  let item : Item P := ⟨a.classId, a.expiresAt, a.payload⟩
  match b.page a.key with
  | none => (b.write a.key (some ⟨none, [item], .ready a.classId⟩)).join a.key a.classId
  | some page =>
      let queue := page.queue ++ [item]
      if page.presence = .idle then
        ({ b with idle := b.idle.erase a.key }.write a.key
          (some { page with queue := queue, presence := .ready a.classId })).join a.key a.classId
      else
        b.write a.key (some { page with queue := queue })

/-- An item of class `c` whose deadline has passed. -/
def gone (c : ClassId) (now : Duration) (item : Item P) : Bool :=
  decide (item.classId = c) && item.isExpired now

/-- What one pass over a ring did: the book after it, the items it discarded with their
keys, and the item it dispatched with its key and state. -/
structure Pass (K P S : Type) where
  book : Book K P S
  discarded : List (K × Item P)
  dispatched : Option (K × Option S × Item P)

/-- Drop the discarded items of a key from its queue. -/
def discard (b : Book K P S) (k : K) (items : List (Item P)) : Book K P S :=
  { b with expired := b.expired ++ items.map fun item => (k, item.classId, item.payload) }

/-- Pass over the first key of the ring of class `c`: discard the expired items at the head
of its queue and place it by what is left. -/
def passOver (c : ClassId) (now : Duration) (k : K) (page : Page P S) (ring : List K)
    (b : Book K P S) : Book K P S :=
  ({ b with ready := Function.update b.ready c ring }.discard k
    (page.queue.takeWhile (gone c now))).place k
      { page with queue := page.queue.dropWhile (gone c now) }

/-- Dispatch the first key of the ring of class `c`: discard the expired items at the head of
its queue, take the item after them and the state of the key. -/
def dispatch (c : ClassId) (now : Duration) (k : K) (page : Page P S) (ring : List K)
    (b : Book K P S) : Book K P S :=
  let b := { b with ready := Function.update b.ready c ring }.discard k
    (page.queue.takeWhile (gone c now))
  { b.write k (some ⟨none, (page.queue.dropWhile (gone c now)).tail, .inFlight⟩) with
    inflight := Function.update b.inflight c (b.inflight c + 1) }

/-- The item to dispatch from a queue in class `c`: the first that has not expired, when it
is of that class. -/
def candidate (c : ClassId) (now : Duration) (queue : List (Item P)) : Option (Item P) :=
  (queue.dropWhile (gone c now)).head?.filter fun head => head.classId = c

/-- Visit the keys `ring` of class `c` in order until one can be dispatched. -/
def visit (c : ClassId) (now : Duration) : List K → Book K P S → Pass K P S
  | [], b => ⟨b, [], none⟩
  | k :: ring, b =>
      match b.page k with
      | none => ⟨b, [], none⟩
      | some page =>
          let dropped := (page.queue.takeWhile (gone c now)).map (k, ·)
          match candidate c now page.queue with
          | some head => ⟨b.dispatch c now k page ring, dropped, some (k, page.resident, head)⟩
          | none =>
              let pass := visit c now ring (b.passOver c now k page ring)
              { pass with discarded := dropped ++ pass.discarded }

/-- A call of `next`: visit the ring of a class that is below its budget. -/
def turn {CLASSES : ℕ} (cfg : Config CLASSES) (c : ClassId) (now : Duration) (b : Book K P S) :
    Pass K P S :=
  if h : c.toNat < CLASSES then
    if cfg.maxInflight ⟨_, h⟩ ≤ b.inflight c then ⟨b, [], none⟩ else b.visit c now (b.ready c)
  else
    ⟨b, [], none⟩

/-- Take the oldest discarded item. -/
def popExpired (b : Book K P S) : Book K P S :=
  { b with expired := b.expired.tail }

/-- Take a completed key's state back and place it. -/
def complete (b : Book K P S) (completion : Completion K S) : Book K P S :=
  match b.page completion.key with
  | none => b
  | some page =>
      let c := completion.classId
      let b := { b with inflight := Function.update b.inflight c (b.inflight c - 1) }
      b.place completion.key { page with resident := completion.state.intoOption }

/-- Release the oldest idle key: hand its state out, or forget the key. -/
def release (b : Book K P S) : Book K P S × List (K × S) :=
  match b.idle with
  | [] => (b, [])
  | k :: rest =>
      match b.page k with
      | none => (b, [])
      | some page =>
          match page.resident with
          | some state =>
              ({ b.write k (some { page with resident := none, presence := .evicting }) with
                  idle := rest, evicting := b.evicting + 1 }, [(k, state)])
          | none => ({ b.write k none with idle := rest }, [])

/-- Release the `m` oldest idle keys. -/
def evict : ℕ → Book K P S → Book K P S × List (K × S)
  | 0, b => (b, [])
  | m + 1, b =>
      let (b, out) := b.release
      let (b, rest) := evict m b
      (b, out ++ rest)

/-- Release a key whose flush finished. -/
def finishEvict (b : Book K P S) (k : K) : Book K P S :=
  let b := { b with evicting := b.evicting - 1 }
  match b.page k with
  | none => b
  | some page => if page.queue = [] then b.write k none else b.place k page

/-! ### The invariant -/

/-- What a page looks like, whatever place its key stands in. -/
def PageOk (page : Page P S) : Prop :=
  match page.presence with
  | .idle => page.queue = []
  | .ready c => page.queue.head?.map Item.classId = some c
  | .inFlight => page.resident = none
  | .evicting => page.resident = none

/-- The keys that stand where a presence says. -/
def standing (b : Book K P S) (l : Ledger K) : Presence → List K
  | .idle => b.idle
  | .ready c => b.ready c
  | .inFlight => l.running.map Prod.fst
  | .evicting => l.flushing

/-- The invariant of a book over `CLASSES` classes whose caller owes `l`, with the keys of
`hole` exempted. -/
structure Inv (CLASSES : ℕ) (hole : K → Prop) (b : Book K P S) (l : Ledger K) : Prop where
  mem : ∀ p k, k ∈ b.standing l p ↔ ¬ hole k ∧ b.presence k = some p
  nodup : ∀ p, (b.standing l p).Nodup
  page : ∀ k page, ¬ hole k → b.page k = some page → PageOk page
  classes : ∀ k page, b.page k = some page → ∀ item ∈ page.queue, item.classId.toNat < CLASSES
  running : ∀ e ∈ l.running, e.2.toNat < CLASSES
  inflight : ∀ c, b.inflight c = l.running.countP fun e => e.2 = c
  evicting : b.evicting = l.flushing.length

/-- The invariant with no key exempted. -/
abbrev Good (CLASSES : ℕ) (b : Book K P S) (l : Ledger K) : Prop :=
  b.Inv CLASSES (fun _ => False) l

@[simp]
theorem write_page_self (b : Book K P S) (k : K) (page : Option (Page P S)) :
  (b.write k page).page k = page
  := Function.update_self ..

theorem write_page_of_ne {b : Book K P S} {k k' : K} {page : Option (Page P S)} (h : k' ≠ k) :
  (b.write k page).page k' = b.page k'
  := Function.update_of_ne h ..

@[simp]
theorem write_presence_self (b : Book K P S) (k : K) (page : Option (Page P S)) :
  (b.write k page).presence k = page.map Page.presence
  := by
  rw [presence, write_page_self]

theorem write_presence_of_ne {b : Book K P S} {k k' : K} {page : Option (Page P S)}
    (h : k' ≠ k) :
  (b.write k page).presence k' = b.presence k'
  := by
  rw [presence, write_page_of_ne h, presence]

@[simp]
theorem write_standing (b : Book K P S) (l : Ledger K) (k : K) (page : Option (Page P S))
    (p : Presence) :
  (b.write k page).standing l p = b.standing l p
  := by
  cases p <;> rfl

/-- Placing a key overwrites its page. -/
theorem write_place (b : Book K P S) (k : K) (old : Option (Page P S)) (page : Page P S) :
  (b.write k old).place k page = b.place k page
  := by
  rw [place, place]
  cases page.queue.head? <;> simp [write]

namespace Inv

variable {CLASSES : ℕ} {b b' : Book K P S} {l l' : Ledger K} {k : K}

omit [DecidableEq K] in
/-- An empty book owes nothing. -/
theorem empty :
  (Book.empty : Book K P S).Good CLASSES ⟨[], []⟩
  := by
  constructor
  · intro p k
    cases p <;> simp [Book.empty, presence, standing]
  · intro p
    cases p <;> simp [Book.empty, standing]
  · simp [Book.empty]
  · simp [Book.empty]
  · simp
  · simp [Book.empty]
  · rfl

/-- The page of an exempted key is free, as far as its classes are known. -/
theorem write (h : b.Inv CLASSES (· = k) l) (page : Option (Page P S))
    (hc : ∀ pg ∈ page, ∀ item ∈ pg.queue, item.classId.toNat < CLASSES) :
  (b.write k page).Inv CLASSES (· = k) l
  := by
  constructor
  · intro p k'
    rw [write_standing, h.mem]
    by_cases hk : k' = k
    · simp [hk]
    · rw [write_presence_of_ne hk]
  · intro p
    rw [write_standing]
    apply h.nodup
  · intro k' pg hk hpg
    rw [write_page_of_ne hk] at hpg
    apply h.page k' pg hk hpg
  · intro k' pg hpg
    by_cases hk : k' = k
    · subst hk
      rw [write_page_self] at hpg
      apply hc pg hpg
    · rw [write_page_of_ne hk] at hpg
      apply h.classes k' pg hpg
  · apply h.running
  · apply h.inflight
  · apply h.evicting

omit [DecidableEq K] in
/-- A key with no page stands nowhere, so it can be exempted. -/
theorem liftAbsent (h : b.Good CLASSES l) (hk : b.page k = none) :
  b.Inv CLASSES (· = k) l
  := by
  constructor
  · intro p k'
    rw [h.mem]
    constructor
    · rintro ⟨-, hp⟩
      refine ⟨?_, hp⟩
      rintro rfl
      rw [presence, hk] at hp
      cases hp
    · rintro ⟨-, hp⟩
      exact ⟨id, hp⟩
  · apply h.nodup
  · intro k' page _
    apply h.page k' page id
  · apply h.classes
  · apply h.running
  · apply h.inflight
  · apply h.evicting

/-- A key lifted out of its place is exempted. -/
theorem lift (h : b.Good CLASSES l) {p₀ : Presence} (hk : b.presence k = some p₀)
    (hpage : b'.page = b.page)
    (hself : b'.standing l' p₀ = (b.standing l p₀).erase k)
    (hother : ∀ p, p ≠ p₀ → b'.standing l' p = b.standing l p)
    (hrunning : ∀ e ∈ l'.running, e ∈ l.running)
    (hinflight : ∀ c, b'.inflight c = l'.running.countP fun e => e.2 = c)
    (hevicting : b'.evicting = l'.flushing.length) :
  b'.Inv CLASSES (· = k) l'
  := by
  have hpres : b'.presence = b.presence := by
    funext k'
    rw [presence, hpage, presence]
  constructor
  · intro p k'
    rw [hpres]
    by_cases hp : p = p₀
    · subst hp
      rw [hself, (h.nodup p).mem_erase_iff, h.mem]
      simp
    · rw [hother p hp, h.mem]
      constructor
      · rintro ⟨-, hk'⟩
        refine ⟨?_, hk'⟩
        rintro rfl
        rw [hk, Option.some.injEq] at hk'
        apply hp hk'.symm
      · rintro ⟨-, hk'⟩
        exact ⟨id, hk'⟩
  · intro p
    by_cases hp : p = p₀
    · subst hp
      rw [hself]
      apply (h.nodup p).erase
    · rw [hother p hp]
      apply h.nodup
  · intro k' page _ hk'
    rw [hpage] at hk'
    apply h.page k' page id hk'
  · rw [hpage]
    apply h.classes
  · intro e he
    apply h.running e (hrunning e he)
  · apply hinflight
  · apply hevicting

omit [DecidableEq K] in
/-- An exempted key put where its presence says is no longer exempted. -/
theorem put (h : b.Inv CLASSES (· = k) l) (p₀ : Presence) (hk : b.presence k = some p₀)
    (hok : ∀ page, b.page k = some page → PageOk page) (hpage : b'.page = b.page)
    (hself : b'.standing l' p₀ = b.standing l p₀ ++ [k])
    (hother : ∀ p, p ≠ p₀ → b'.standing l' p = b.standing l p)
    (hrunning : ∀ e ∈ l'.running, e.2.toNat < CLASSES)
    (hinflight : ∀ c, b'.inflight c = l'.running.countP fun e => e.2 = c)
    (hevicting : b'.evicting = l'.flushing.length) :
  b'.Good CLASSES l'
  := by
  have hpres : b'.presence = b.presence := by
    funext k'
    rw [presence, hpage, presence]
  constructor
  · intro p k'
    rw [hpres]
    by_cases hp : p = p₀
    · subst hp
      rw [hself, List.mem_append, h.mem, List.mem_singleton]
      by_cases hk' : k' = k
      · simp [hk', hk]
      · simp [hk']
    · rw [hother p hp, h.mem]
      constructor
      · rintro ⟨-, hk'⟩
        exact ⟨id, hk'⟩
      · rintro ⟨-, hk'⟩
        refine ⟨?_, hk'⟩
        rintro rfl
        rw [hk, Option.some.injEq] at hk'
        apply hp hk'.symm
  · intro p
    by_cases hp : p = p₀
    · subst hp
      rw [hself, List.nodup_append]
      refine ⟨h.nodup p, by simp, ?_⟩
      rintro x hx y hy rfl
      rw [List.mem_singleton] at hy
      subst hy
      apply ((h.mem p x).mp hx).1 rfl
    · rw [hother p hp]
      apply h.nodup
  · intro k' page _ hk'
    rw [hpage] at hk'
    by_cases hkk : k' = k
    · subst hkk
      apply hok page hk'
    · apply h.page k' page hkk hk'
  · rw [hpage]
    apply h.classes
  · apply hrunning
  · apply hinflight
  · apply hevicting

/-- An exempted key may be forgotten. -/
theorem forget (h : b.Inv CLASSES (· = k) l) :
  (b.write k none).Good CLASSES l
  := by
  constructor
  · intro p k'
    rw [write_standing, h.mem]
    by_cases hk : k' = k
    · subst hk
      simp
    · rw [write_presence_of_ne hk]
      simp [hk]
  · intro p
    rw [write_standing]
    apply h.nodup
  · intro k' page _ hpage
    by_cases hk : k' = k
    · subst hk
      simp at hpage
    · rw [write_page_of_ne hk] at hpage
      apply h.page k' page hk hpage
  · intro k' page hpage
    by_cases hk : k' = k
    · subst hk
      simp at hpage
    · rw [write_page_of_ne hk] at hpage
      apply h.classes k' page hpage
  · apply h.running
  · apply h.inflight
  · apply h.evicting

end Inv

end Book

end Grommet
