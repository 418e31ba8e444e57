import Grommet.Accounts.Course

/-!
# The simulated service

One shard of the service as its callers see it: it hands the state that it kept for an account
to the next call for it, and its adapters share one fault plan.  The calls come one after the
other; a call of the simulation never waits, so that none of them comes between the operations
of another.

Every world that is reached is backed by a ledger, whatever the plan fails.
-/

open Program Grommet.Testkit

namespace Grommet.Accounts

structure World where
  /-- The state that is resident for an account. -/
  residents : AccountId → Option Account
  data : Data

namespace World

def empty : World := ⟨fun _ => none, .empty⟩

/-- Call the service, and await the reply. -/
def call (request : Request) (w : World) : Faulty (Option Reply × World) := do
  let (r, data, exchanges) ←
    (process request.account (w.residents request.account) request).handle (recording simulate)
      (w.data, [])
  pure ((replies exchanges).head?,
    ⟨Function.update w.residents request.account (left r), data⟩)

/-- Drop the resident state of an account. -/
def evict (id : AccountId) (w : World) : World :=
  { w with residents := Function.update w.residents id none }

/-- The world of a ledger. -/
structure Backed (entries : List Entry) (w : World) : Prop where
  data : Accounts.Backed entries w.data
  resident : ∀ id account, w.residents id = some account → Snapshot (mutations entries id) account

end World

variable {request : Request} {state : Option Account} {entries own : List Entry} {d d₀ : Data}
  {t : List (Exchange Unit)} {w w' : World} {reply : Option Reply} {id : AccountId}
  {account : Account}

/-- What a call did so far, from the data that it found. -/
structure Progress (request : Request) (state : Option Account) (entries : List Entry) (d₀ : Data)
    (t : List (Exchange Unit)) (d : Data) (own : List Entry) : Prop where
  backed : Backed (entries ++ own) d
  course : Course request state (entries ++ own) own t
  asked : ∀ entry ∈ own, entry.reqId = request.reqId ∧ entry.id = request.account ∧
    ∃ current, request.op.Asks current entry.mutation
  /-- What was cached for another account is left alone. -/
  others : ∀ id, id ≠ request.account → d.cache.lookup id = d₀.cache.lookup id

/-- An operation of a call changes the cache for its own account alone. -/
theorem cache_of_serves {Session : Type} {t : List (Exchange Session)} {op : Port Session}
    {answer : op.Answer} {applied : Bool} {d' : Data} (hserves : Serves d op answer applied d')
    (hguarantee : Guarantee request state t op) (hid : id ≠ request.account) :
  d'.cache.lookup id = d.cache.lookup id
  := by
  cases hserves with
  | put _ =>
    cases hguarantee.1
    exact AList.lookup_insert_ne hid
  | invalidate _ =>
    cases hguarantee
    exact AList.lookup_erase_ne hid
  | _ => rfl

/-- An operation of a call is answered. -/
theorem Progress.serve {op : Port Unit} {answer : op.Answer} {applied : Bool} {d' : Data}
    (h : Progress request state entries d₀ t d own) (hguarantee : Guarantee request state t op)
    (hserves : Serves d op answer applied d') :
  Progress request state entries d₀ (t ++ [⟨op, answer⟩]) d' (own ++ op.enters applied)
  := by
  refine ⟨?_, ?_, fun entry hmem => ?_, fun id hid => ?_⟩
  · rw [← List.append_assoc]
    apply h.backed.serves hserves
    rintro id account ttl rfl
    obtain ⟨rfl, hgiven⟩ := hguarantee
    exact h.course.given account hgiven
  · rw [← List.append_assoc]
    exact h.course.serve hguarantee h.backed hserves
  · rcases List.mem_append.mp hmem with hmem | hmem
    · exact h.asked entry hmem
    · cases hserves with
      | apply hfresh hversion happly houtcome =>
        obtain ⟨rfl, rfl, -, hplan, -⟩ := hguarantee
        cases List.mem_singleton.mp hmem
        exact ⟨rfl, rfl, _, h.course.asks hplan⟩
      | _ => cases hmem
  · rw [cache_of_serves hserves hguarantee hid, h.others id hid]

/-- What a call comes to. -/
structure Called (request : Request) (entries : List Entry) (w : World) (own : List Entry)
    (reply : Option Reply) (w' : World) : Prop where
  backed : w'.Backed (entries ++ own)
  reports : ∃ r, reply = some r ∧ Reports request (entries ++ own) own r
  asked : ∀ entry ∈ own, entry.reqId = request.reqId ∧ entry.id = request.account ∧
    ∃ current, request.op.Asks current entry.mutation
  /-- Another account is left alone. -/
  others : ∀ id, id ≠ request.account → w'.residents id = w.residents id ∧
    w'.data.cache.lookup id = w.data.cache.lookup id ∧
    w'.data.store.account id = w.data.store.account id

/-- A call keeps the world backed, whatever the plan fails. -/
theorem call_yields (h : w.Backed entries) (request : Request) :
  Yields (fun x => ∃ own, Called request entries w own x.1 x.2) (w.call request)
  := by
  have hstart : Progress request (w.residents request.account) entries w.data [] w.data [] := by
    refine ⟨?_, ?_, nofun, fun _ _ => rfl⟩
    · rw [List.append_nil]
      exact h.data
    · rw [List.append_nil]
      exact course_start fun account => h.resident _ account
  have hprocess := (process_conducts request (w.residents request.account)).recording
    (h := simulate) (I := fun t d => ∃ own, Progress request (w.residents request.account) entries
      w.data t d own) ⟨[], hstart⟩ ?_
  · apply hprocess.bind
    rintro ⟨r, d, t⟩ ⟨⟨⟨reply, hreplies, hentitled⟩, hleft⟩, own, hprogress⟩
    simp only at hreplies hentitled hleft hprogress
    refine ⟨own, ⟨hprogress.backed, fun id account hresident => ?_⟩, ⟨reply, ?_, ?_⟩,
      hprogress.asked, fun id hid => ⟨?_, hprogress.others id hid, ?_⟩⟩
    · simp only at hresident
      by_cases hid : id = request.account
      · subst hid
        rw [Function.update_self, left_eq_some] at hresident
        exact hprogress.course.given account (hleft account hresident)
      · rw [Function.update_of_ne hid] at hresident
        exact (h.resident id account hresident).grow _
    · rw [hreplies]
      rfl
    · apply hprogress.course.reports
      rw [hreplies]
      exact List.mem_singleton_self reply
    · exact Function.update_of_ne hid ..
    · apply latest_unique (hprogress.backed.durable id)
      have hnone : mutations own id = [] := by
        rw [mutations, List.map_eq_nil_iff, List.filter_eq_nil_iff]
        intro entry hmem
        rw [(hprogress.asked entry hmem).2.1]
        simpa using Ne.symm hid
      rw [mutations_append, hnone, List.append_nil]
      exact h.data.durable id
  · rintro t op d hguarantee ⟨own, hprogress⟩
    apply (simulate_yields op d).mono
    rintro ⟨answer, d'⟩ ⟨applied, hserves⟩
    exact ⟨_, hprogress.serve hguarantee hserves⟩

end Grommet.Accounts
