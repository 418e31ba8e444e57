import Grommet.Runtime.Shard.Desk

/-!
# Works are served once and in order

The works received for a key are those that were coalesced, those that were handed to
`on_expired` or to `process`, and those that still wait on the desk.  The last two kinds are in
the order in which they were received.
-/

namespace Grommet

/-- What left a queue. -/
def Departure.payload {P : Type} : Departure P → P
  | .dispatched _ _ payload => payload
  | .discarded _ _ payload => payload

namespace Shard

variable {K I W S : Type} [DecidableEq K] {CLASSES : ℕ}

namespace Deed

/-- The work that is received for the key. -/
def receives (k : K) : Deed K I W S → List W
  | .received envelope => if envelope.key = k then [envelope.work] else []
  | _ => []

/-- The work of the key that is handed to `on_coalesced`. -/
def coalesces (k : K) : Deed K I W S → List W
  | .onCoalesced key work => if key = k then [work] else []
  | _ => []

/-- The work of the key that is handed to `on_expired`. -/
def expires (k : K) : Deed K I W S → List W
  | .onExpired key work => if key = k then [work] else []
  | _ => []

/-- The work of the key that is handed to `process`. -/
def processes (k : K) : Deed K I W S → List W
  | .process key _ work => if key = k then [work] else []
  | _ => []

/-- The work of the key that leaves the desk. -/
def serves (k : K) (deed : Deed K I W S) : List W :=
  deed.expires k ++ deed.processes k

end Deed

/-- The work of the key that a future has not called `process` for. -/
def Job.unstarted (k : K) : Job K I W S → List W
  | .runOne false d => if d.key = k then [d.payload.work] else []
  | _ => []

theorem Job.unstarted_polled (k : K) (job : Job K I W S) :
  job.polled.unstarted k = []
  := by
  cases job <;> rfl

/-- A future that is polled serves the work that it has not started. -/
theorem Job.serves_calls (k : K) (job : Job K I W S) :
  job.calls.flatMap (Deed.serves k) = job.unstarted k
  := by
  cases job with
  | runOne started d => cases started <;> simp [calls, unstarted, Deed.serves, Deed.expires,
      Deed.processes]
  | runFlush started key state => cases started <;> simp [calls, unstarted, Deed.serves,
      Deed.expires, Deed.processes]

theorem Job.receives_calls (k : K) (job : Job K I W S) :
  job.calls.flatMap (Deed.receives k) = []
  := by
  cases job with
  | runOne started d => cases started <;> simp [calls, Deed.receives]
  | runFlush started key state => cases started <;> simp [calls, Deed.receives]

theorem Job.coalesces_calls (k : K) (job : Job K I W S) :
  job.calls.flatMap (Deed.coalesces k) = []
  := by
  cases job with
  | runOne started d => cases started <;> simp [calls, Deed.coalesces]
  | runFlush started key state => cases started <;> simp [calls, Deed.coalesces]

namespace Desk

variable {cfg : Config CLASSES} {x y : Desk K I W S CLASSES} {k : K}

/-- The works of a key that were discarded and not handed back. -/
def discarded (x : Desk K I W S CLASSES) (k : K) : List W :=
  (x.account.book.expired.filter (·.1 = k)).map (·.2.2.work)

/-- The works of a key that were dispatched and not started. -/
def unstarted (x : Desk K I W S CLASSES) (k : K) : List W :=
  x.jobs.flatMap (Job.unstarted k)

/-- The works queued behind a key. -/
def queued (x : Desk K I W S CLASSES) (k : K) : List W :=
  (x.account.book.queue k).map (·.payload.work)

/-- The works of a key on the desk, in the order in which they are served. -/
def waiting (x : Desk K I W S CLASSES) (k : K) : List W :=
  x.discarded k ++ x.unstarted k ++ x.queued k

/-- Futures of other keys have no work of the key. -/
theorem unstarted_eq_nil {jobs : List (Job K I W S)} (h : k ∉ jobs.map Job.key) :
  jobs.flatMap (Job.unstarted k) = []
  := by
  rw [List.flatMap_eq_nil_iff]
  intro job hjob
  have hne : job.key ≠ k := by
    rintro rfl
    apply h (List.mem_map_of_mem hjob)
  cases job with
  | runOne started d => cases started <;> simp_all [Job.unstarted, Job.key]
  | runFlush started key state => rfl

theorem unstarted_of_notMem_held (h : k ∉ x.held) :
  x.unstarted k = []
  := by
  apply unstarted_eq_nil
  intro hk
  apply h
  rw [held, List.mem_append]
  right
  apply hk

/-- The other futures beside one of the key have no work of it. -/
theorem unstarted_beside {before after : List (Job K I W S)} {job : Job K I W S}
    (h : x.jobs = before ++ job :: after) :
  before.flatMap (Job.unstarted job.key) = [] ∧ after.flatMap (Job.unstarted job.key) = []
  := by
  have hnodup : (x.jobs.map Job.key).Nodup := (List.nodup_append.mp x.held_nodup).2.1
  rw [h, List.map_append, List.map_cons, List.nodup_append] at hnodup
  obtain ⟨-, hafter, hbefore⟩ := hnodup
  constructor
  · apply unstarted_eq_nil
    intro hmem
    apply hbefore _ hmem _ List.mem_cons_self rfl
  · apply unstarted_eq_nil
    apply (List.nodup_cons.mp hafter).1

/-- What one step does with the works of a key: works are served from the front of those that
wait, and what was received is coalesced or waits at the end. -/
structure Serves (x : Desk K I W S CLASSES) (deeds : List (Deed K I W S))
    (y : Desk K I W S CLASSES) (k : K) (admitted : List W) : Prop where
  waiting : deeds.flatMap (Deed.serves k) ++ y.waiting k = x.waiting k ++ admitted
  sublist : admitted.Sublist (deeds.flatMap (Deed.receives k))
  perm : (deeds.flatMap (Deed.coalesces k) ++ admitted).Perm (deeds.flatMap (Deed.receives k))

/-- The items that left a queue carry what left it. -/
theorem map_payload_of_departures {ds : List (Departure (Stamped I W))}
    {left : List (Item (Stamped I W))} (h : List.Forall₂ Departure.Of ds left) :
  left.map Item.payload = ds.map Departure.payload
  := by
  induction h with
  | nil => rfl
  | @cons d item _ _ hd _ ih =>
    rw [List.map_cons, List.map_cons, ih]
    cases d with
    | dispatched c now payload => rw [hd.2.1, Departure.payload]
    | discarded c now payload => rw [hd.2.1, Departure.payload]

/-- The works queued behind a key before and after an event. -/
theorem queued_of_step {e : Event K (Stamped I W) S} (h : x.account.Step cfg e y.account)
    (k : K) :
  x.queued k ++ (e.admitted k).map (·.payload.work) =
    (e.departures k).map (·.payload.work) ++ y.queued k
  := by
  obtain ⟨left, hleft, hdepartures⟩ := h.items k
  have hpayload := congrArg (List.map Stamped.work) (map_payload_of_departures hdepartures)
  rw [List.map_map, List.map_map] at hpayload
  rw [queued, ← List.map_append, hleft, List.map_append]
  congr 1

/-- The discarded works of a key before and after an event. -/
theorem discarded_of_step {e : Event K (Stamped I W) S} (h : x.account.Step cfg e y.account)
    (k : K) :
  x.discarded k ++ (e.discarded.filter (·.1 = k)).map (·.2.2.work) =
    (e.popped.filter (·.1 = k)).map (·.2.2.work) ++ y.discarded k
  := by
  rw [discarded, ← List.map_append, ← List.filter_append, h.expired, List.filter_append,
    List.map_append, discarded]

/-- An event that discards items of a key finds it ready, so that none of its works is with a
future. -/
theorem unstarted_of_discarded {e : Event K (Stamped I W) S}
    (h : x.account.Step cfg e y.account) (k : K) :
  x.unstarted k = [] ∨ e.discarded.filter (·.1 = k) = []
  := by
  by_cases hk : k ∈ x.held
  · right
    rw [List.filter_eq_nil_iff]
    rintro d hd hdk
    rw [decide_eq_true_eq] at hdk
    subst hdk
    obtain ⟨c, hready⟩ := h.discarded_ready d hd
    rw [mem_held_iff, Ledger.owned, List.mem_append] at hk
    rcases hk with hrun | hflush
    · have hpresence := ((x.account.good.mem .inFlight d.1).mp hrun).2
      rw [hready] at hpresence
      cases hpresence
    · have hpresence := ((x.account.good.mem .evicting d.1).mp hflush).2
      rw [hready] at hpresence
      cases hpresence
  · left
    apply unstarted_of_notMem_held hk

/-- A step that serves, receives and coalesces nothing leaves the works of a key waiting. -/
theorem Serves.still {deeds : List (Deed K I W S)} (hserves : deeds.flatMap (Deed.serves k) = [])
    (hreceives : deeds.flatMap (Deed.receives k) = [])
    (hcoalesces : deeds.flatMap (Deed.coalesces k) = []) (h : y.waiting k = x.waiting k) :
  x.Serves deeds y k []
  := by
  constructor
  · rw [hserves, h, List.nil_append, List.append_nil]
  · apply List.nil_sublist
  · rw [hreceives, hcoalesces]
    exact .nil

/-- A call of `next` moves works of a key from its queue to those discarded and to a future. -/
theorem waiting_of_next {c : ClassId} {now : Duration} {discarded : List (K × ClassId × Stamped I W)}
    {dispatch : Option (Dispatch K (Stamped I W) S)}
    (h : x.account.Step cfg (.next c now discarded dispatch) y.account)
    (hjobs : y.jobs = x.jobs ++ (dispatch.map (Job.runOne false)).toList) (k : K) :
  y.waiting k = x.waiting k
  := by
  have hqueued := queued_of_step h k
  have hdiscarded := discarded_of_step h k
  have hunstarted : y.unstarted k =
      x.unstarted k ++ (dispatch.filter (·.key = k)).toList.map (·.payload.work) := by
    rw [unstarted, hjobs, List.flatMap_append, unstarted]
    cases dispatch with
    | none => rfl
    | some d =>
      by_cases hk : d.key = k
      · simp [Job.unstarted, Option.filter_some, hk]
      · simp [Job.unstarted, Option.filter_some, hk]
  simp only [Event.admitted, Event.departures, Event.discarded, Event.popped, List.map_nil,
    List.append_nil, List.filter_nil, List.nil_append, List.map_append, List.map_map,
    Function.comp_def, Departure.payload] at hqueued hdiscarded
  rw [waiting, waiting, hqueued, ← hdiscarded, hunstarted]
  have hcomm : x.unstarted k ++ (discarded.filter (·.1 = k)).map (·.2.2.work) =
      (discarded.filter (·.1 = k)).map (·.2.2.work) ++ x.unstarted k := by
    rcases unstarted_of_discarded h k with hnil | hnil
    · rw [hnil, List.nil_append, List.append_nil]
    · rw [show discarded.filter (·.1 = k) = [] from hnil, List.map_nil, List.nil_append,
        List.append_nil]
  simp only [List.append_assoc]
  rw [← List.append_assoc (x.unstarted k) ((discarded.filter (·.1 = k)).map (·.2.2.work)), hcomm,
    List.append_assoc]

/-- A step that polls a future serves the work that it has not started. -/
theorem Serves.poll {before after : List (Job K I W S)} {job : Job K I W S}
    (hexpired : x.account.book.expired = []) (hjobs : x.jobs = before ++ job :: after)
    (haccount : y.account = x.account) (hjobs' : y.jobs = before ++ job.polled :: after) (k : K) :
  x.Serves job.calls y k []
  := by
  have hdiscarded : ∀ z : Desk K I W S CLASSES, z.account = x.account → z.discarded k = [] := by
    intro z hz
    rw [discarded, hz, hexpired]
    rfl
  constructor
  · rw [Job.serves_calls, Desk.waiting, Desk.waiting, hdiscarded y haccount, hdiscarded x rfl, unstarted,
      unstarted, hjobs, hjobs', List.flatMap_append, List.flatMap_append, List.flatMap_cons,
      List.flatMap_cons, Job.unstarted_polled, queued, queued, haccount]
    simp only [List.nil_append, List.append_nil]
    by_cases hk : job.key = k
    · obtain ⟨hbefore, hafter⟩ := unstarted_beside hjobs
      subst hk
      rw [hbefore, hafter]
      simp
    · have hnil : job.unstarted k = [] := by
        have hnot : k ∉ [job].map Job.key := by
          simpa using Ne.symm hk
        simpa using unstarted_eq_nil hnot
      rw [hnil]
      simp
  · apply List.nil_sublist
  · rw [Job.receives_calls, Job.coalesces_calls]
    exact .nil

/-- A step that takes nothing from a queue and discards nothing leaves the works of a key
waiting where the futures that go away have started. -/
theorem waiting_of_step {e : Event K (Stamped I W) S} (h : x.account.Step cfg e y.account)
    (hadmitted : e.admitted k = []) (hdepartures : e.departures k = []) (hdiscards : e.discarded = [])
    (hpopped : e.popped = []) (hjobs : y.unstarted k = x.unstarted k) :
  y.waiting k = x.waiting k
  := by
  have hqueued := queued_of_step h k
  have hdiscarded := discarded_of_step h k
  rw [hadmitted, hdepartures, List.map_nil, List.append_nil, List.map_nil, List.nil_append] at hqueued
  rw [hdiscards, hpopped, List.filter_nil, List.map_nil, List.append_nil, List.nil_append]
    at hdiscarded
  rw [waiting, waiting, hqueued, hdiscarded, hjobs]

/-- What a step does with the works of a key. -/
theorem Step.serves {deeds : List (Deed K I W S)} (h : x.Step cfg deeds y) (k : K) :
  ∃ admitted, x.Serves deeds y k admitted
  := by
  cases h with
  | accept => exact ⟨[], .still rfl rfl rfl rfl⟩
  | @coalesce envelope =>
    use []
    by_cases hk : envelope.key = k
    · constructor <;> simp [Deed.serves, Deed.expires, Deed.processes, Deed.receives,
        Deed.coalesces, hk]
    · constructor <;> simp [Deed.serves, Deed.expires, Deed.processes, Deed.receives,
        Deed.coalesces, hk]
  | @admitItem envelope tracked y hstep hjobs hstaged =>
    have hqueued := queued_of_step hstep k
    have hdiscarded := discarded_of_step hstep k
    simp only [Event.departures, Event.discarded, Event.popped, List.map_nil, List.append_nil,
      List.filter_nil, List.nil_append] at hqueued hdiscarded
    use if envelope.key = k then [envelope.work] else []
    constructor
    · rw [waiting, waiting, ← hqueued, hdiscarded, unstarted, hjobs]
      by_cases hk : envelope.key = k <;>
        simp [Deed.serves, Deed.expires, Deed.processes, Event.admitted, unstarted, hk]
    · simp [Deed.receives]
    · simp [Deed.receives, Deed.coalesces]
  | dispatch hstep hjobs hstaged => exact ⟨[], .still rfl rfl rfl (waiting_of_next hstep hjobs k)⟩
  | pass hstep hjobs hstaged =>
    exact ⟨[], .still rfl rfl rfl (waiting_of_next hstep (by simpa using hjobs) k)⟩
  | @shed key c stamped y hstep hjobs hstaged =>
    have hqueued := queued_of_step hstep k
    have hdiscarded := discarded_of_step hstep k
    simp only [Event.admitted, Event.departures, Event.discarded, Event.popped, List.map_nil,
      List.append_nil, List.filter_nil, List.nil_append] at hqueued hdiscarded
    use []
    constructor
    · rw [waiting, waiting, hqueued, hdiscarded, unstarted, hjobs, unstarted]
      by_cases hk : key = k <;> simp [Deed.serves, Deed.expires, Deed.processes, hk]
    · apply List.nil_sublist
    · simp [Deed.receives, Deed.coalesces]
  | @flush n y haccount hjobs hstaged =>
    refine ⟨[], .still rfl rfl rfl ?_⟩
    have hnil : ((x.staged.take n).map fun p => Job.runFlush (I := I) (W := W) false p.1 p.2).flatMap
        (Job.unstarted k) = [] := by
      rw [List.flatMap_eq_nil_iff]
      intro job hjob
      obtain ⟨p, -, rfl⟩ := List.mem_map.mp hjob
      rfl
    rw [waiting, waiting, discarded, haccount, queued, haccount, unstarted, hjobs,
      List.flatMap_append, hnil, List.append_nil]
    rfl
  | evict hkind hstep hjobs hstaged =>
    refine ⟨[], .still rfl rfl rfl ?_⟩
    obtain ⟨now, pushed, rfl | rfl⟩ := hkind
    · apply waiting_of_step hstep rfl rfl rfl rfl
      rw [unstarted, hjobs, unstarted]
    · apply waiting_of_step hstep rfl rfl rfl rfl
      rw [unstarted, hjobs, unstarted]
  | poll hexpired hjobs haccount hjobs' hstaged =>
    exact ⟨[], .poll hexpired hjobs haccount hjobs' k⟩
  | ran hjobs hstep hjobs' hstaged =>
    refine ⟨[], .still rfl rfl rfl ?_⟩
    apply waiting_of_step hstep rfl rfl rfl rfl
    simp [unstarted, hjobs, hjobs', Job.unstarted]
  | flushed hjobs hstep hjobs' hstaged =>
    refine ⟨[], .still rfl rfl rfl ?_⟩
    apply waiting_of_step hstep rfl rfl rfl rfl
    simp [unstarted, hjobs, hjobs', Job.unstarted]

/-- Works are served once and in order: of the works received for a key, those that were
coalesced, those that were served and those that wait are all, and the last two are in order. -/
theorem works_of_trail {trace : List (List (Deed K I W S))} (h : Trail (Step cfg) empty trace x)
    (k : K) :
  (trace.flatten.flatMap (Deed.serves k) ++ x.waiting k).Sublist
      (trace.flatten.flatMap (Deed.receives k)) ∧
    (trace.flatten.flatMap (Deed.coalesces k) ++
      (trace.flatten.flatMap (Deed.serves k) ++ x.waiting k)).Perm
        (trace.flatten.flatMap (Deed.receives k))
  := by
  apply h.invariant fun trace (x : Desk K I W S CLASSES) =>
    (trace.flatten.flatMap (Deed.serves k) ++ x.waiting k).Sublist
        (trace.flatten.flatMap (Deed.receives k)) ∧
      (trace.flatten.flatMap (Deed.coalesces k) ++
        (trace.flatten.flatMap (Deed.serves k) ++ x.waiting k)).Perm
          (trace.flatten.flatMap (Deed.receives k))
  · simp [empty, Account.empty, Book.empty, waiting, discarded, unstarted, queued, Book.queue]
  · rintro trace x deeds y - ⟨hsublist, hperm⟩ hstep
    obtain ⟨admitted, hserves⟩ := hstep.serves k
    have hmove : (trace ++ [deeds]).flatten.flatMap (Deed.serves k) ++ y.waiting k =
        (trace.flatten.flatMap (Deed.serves k) ++ x.waiting k) ++ admitted := by
      rw [List.flatten_append, List.flatMap_append, List.append_assoc, List.flatten_singleton,
        hserves.waiting, List.append_assoc]
    rw [hmove]
    simp only [List.flatten_append, List.flatMap_append, List.flatten_singleton]
    constructor
    · apply hsublist.append hserves.sublist
    · apply List.Perm.trans ?_ (hperm.append hserves.perm)
      simp only [List.append_assoc]
      apply List.Perm.append_left
      rw [← List.append_assoc, ← List.append_assoc, ← List.append_assoc, ← List.append_assoc]
      apply List.Perm.append_right
      rw [List.append_assoc]
      apply List.perm_append_comm

end Desk

end Shard

end Grommet
