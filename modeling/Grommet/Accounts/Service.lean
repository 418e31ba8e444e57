import Grommet.Accounts.Course
import Grommet.Library.Trail

/-!
# The account service

Any number of calls of the processor run side by side against one store and one cache, and any
of them may be dropped between two of its operations.  A call starts without a state or with
one that was kept for its account.  Nothing else is assumed: calls for one account may overlap,
as they do when a state is lost or another process serves the account.

Every mutation that is applied belongs to one call, is applied to the account that was durable
at that moment, and is entered into the ledger once for each request.  Every account that is
kept, cached or answered is a snapshot of the ledger.
-/

open Program

namespace Grommet.Accounts

/-- The future of a call. -/
inductive Task (Session : Type) where
  | idle
  | running (rest : Action Session (Except Failure (Disposition Account)))
  | ended

/-- The ports and the calls. -/
structure System (ι Session : Type) where
  data : Data
  /-- The states that were kept for an account. -/
  kept : AccountId → List Account
  task : ι → Task Session

inductive Event (ι Session : Type) where
  | start (i : ι) (state : Option Account)
  /-- An operation of a call is answered, and applied a mutation or not. -/
  | serve (i : ι) (op : Port Session) (answer : op.Answer) (applied : Bool)
  | finish (i : ι) (r : Except Failure (Disposition Account))
  /-- The future of a call is dropped. -/
  | abandon (i : ι)
  /-- A cached account is lost. -/
  | lapse (id : AccountId)

variable {ι Session : Type} [DecidableEq ι]

namespace System

/-- Nothing was stored, and no call has started. -/
def start : System ι Session := ⟨.empty, fun _ => [], fun _ => .idle⟩

def setTask (s : System ι Session) (i : ι) (task : Task Session) : System ι Session :=
  { s with task := Function.update s.task i task }

/-- Keep the state that a call for an account left. -/
def keep (s : System ι Session) (id : AccountId) (state : Option Account) : System ι Session :=
  { s with kept := Function.update s.kept id (s.kept id ++ state.toList) }

end System

/-- One step of a call with its request, or of the cache. -/
inductive Step (calls : ι → Request) (s : System ι Session) :
    Event ι Session → System ι Session → Prop
  | start {i : ι} {state : Option Account} : s.task i = .idle →
      (∀ account, state = some account → account ∈ s.kept (calls i).account) →
      Step calls s (.start i state)
        (s.setTask i (.running (process (calls i).account state (calls i))))
  | serve {i : ι} {op : Port Session}
      {next : op.Answer → Action Session (Except Failure (Disposition Account))}
      {answer : op.Answer} {applied : Bool} {d : Data} : s.task i = .running (.act op next) →
      Serves s.data op answer applied d →
      Step calls s (.serve i op answer applied)
        ({ s with data := d }.setTask i (.running (next answer)))
  | finish {i : ι} {r : Except Failure (Disposition Account)} : s.task i = .running (.ret r) →
      Step calls s (.finish i r) ((s.keep (calls i).account (left r)).setTask i .ended)
  | abandon {i : ι} {rest : Action Session (Except Failure (Disposition Account))} :
      s.task i = .running rest → Step calls s (.abandon i) (s.setTask i .ended)
  | lapse {id : AccountId} :
      Step calls s (.lapse id) { s with data := { s.data with cache := s.data.cache.erase id } }

namespace Event

/-- What an event adds to the ledger. -/
def enters : Event ι Session → List Entry
  | .serve _ op _ applied => op.enters applied
  | _ => []

/-- What an event of a call adds to the ledger. -/
def entersFor (i : ι) : Event ι Session → List Entry
  | .serve j op _ applied => if j = i then op.enters applied else []
  | _ => []

/-- The exchange of a call with its ports. -/
def exchange (i : ι) : Event ι Session → Option (Exchange Session)
  | .serve j op answer _ => if j = i then some ⟨op, answer⟩ else none
  | _ => none

end Event

/-- The mutations that were applied in a run. -/
def ledger (t : List (Event ι Session)) : List Entry := t.flatMap Event.enters

/-- The mutations that a call applied. -/
def entered (i : ι) (t : List (Event ι Session)) : List Entry := t.flatMap (Event.entersFor i)

/-- The exchanges of a call. -/
def history (i : ι) (t : List (Event ι Session)) : List (Exchange Session) :=
  t.filterMap (Event.exchange i)

variable {calls : ι → Request} {s s' : System ι Session} {t : List (Event ι Session)}
  {e : Event ι Session} {i : ι} {state : Option Account}
  {rest : Action Session (Except Failure (Disposition Account))}

omit [DecidableEq ι] in
@[simp]
theorem ledger_concat :
  ledger (t ++ [e]) = ledger t ++ e.enters
  := by
  simp [ledger]

omit [DecidableEq ι] in
/-- An event that enters nothing. -/
theorem ledger_aside (he : e.enters = []) :
  ledger (t ++ [e]) = ledger t
  := by
  rw [ledger_concat, he]
  exact List.append_nil _

@[simp]
theorem entered_concat :
  entered i (t ++ [e]) = entered i t ++ e.entersFor i
  := by
  simp [entered]

theorem history_concat :
  history i (t ++ [e]) = history i t ++ (e.exchange i).toList
  := by
  rw [history, history, List.filterMap_append]
  cases h : e.exchange i <;> simp [h]

/-- Where a call with its task stands. -/
def Stands (calls : ι → Request) (t : List (Event ι Session)) (i : ι) : Task Session → Prop
  | .idle => history i t = [] ∧ entered i t = [] ∧ ∀ r, .finish i r ∉ t
  | .running rest => (∃ state, Course (calls i) state (ledger t) (entered i t) (history i t) ∧
      Conducts (Guarantee (calls i) state) (Outcome (calls i) state) (history i t) rest) ∧
      ∀ r, .finish i r ∉ t
  | .ended => (∃ state, Course (calls i) state (ledger t) (entered i t) (history i t)) ∧
      ∀ r, .finish i r ∈ t → ∃ reply, replies (history i t) = [reply]

/-- A system whose data is backed by the ledger of its run. -/
structure Sound (calls : ι → Request) (t : List (Event ι Session)) (s : System ι Session) :
    Prop where
  backed : Backed (ledger t) s.data
  kept : ∀ id, ∀ account ∈ s.kept id, Snapshot (mutations (ledger t) id) account
  stands : ∀ i, Stands calls t i (s.task i)

/-- An event that is about another call leaves a call where it stands. -/
theorem Stands.aside {task : Task Session} (h : Stands calls t i task)
    (hexchange : e.exchange i = none) (henters : e.entersFor i = [])
    (hfinish : ∀ r, e ≠ .finish i r) :
  Stands calls (t ++ [e]) i task
  := by
  have hhistory : history i (t ++ [e]) = history i t := by
    rw [history_concat, hexchange]
    exact List.append_nil _
  have hentered : entered i (t ++ [e]) = entered i t := by
    rw [entered_concat, henters]
    exact List.append_nil _
  have hmem : ∀ r, .finish i r ∈ t ++ [e] → .finish i r ∈ t := by
    intro r hr
    rw [List.mem_append, List.mem_singleton] at hr
    exact hr.resolve_right fun h => hfinish r h.symm
  cases task with
  | idle =>
    obtain ⟨hnone, hown, hunfinished⟩ := h
    exact ⟨hhistory.trans hnone, hentered.trans hown, fun r hr => hunfinished r (hmem r hr)⟩
  | running rest =>
    obtain ⟨⟨state, hcourse, hconducts⟩, hunfinished⟩ := h
    rw [Stands, hhistory, hentered, ledger_concat]
    exact ⟨⟨state, hcourse.grow _, hconducts⟩, fun r hr => hunfinished r (hmem r hr)⟩
  | ended =>
    obtain ⟨⟨state, hcourse⟩, hfinished⟩ := h
    rw [Stands, hhistory, hentered, ledger_concat]
    exact ⟨⟨state, hcourse.grow _⟩, fun r hr => hfinished r (hmem r hr)⟩

theorem sound_start :
  Sound calls [] (System.start : System ι Session)
  where
  backed := backed_empty
  kept _ _ h := nomatch h
  stands _ := ⟨rfl, rfl, fun _ h => nomatch h⟩

/-- The calls after an event that is about one of them. -/
theorem Sound.stands_update {task : Task Session} (h : Sound calls t s)
    (hexchange : ∀ j, j ≠ i → e.exchange j = none) (henters : ∀ j, j ≠ i → e.entersFor j = [])
    (hfinish : ∀ j, j ≠ i → ∀ r, e ≠ .finish j r) (hi : Stands calls (t ++ [e]) i task) (j : ι) :
  Stands calls (t ++ [e]) j (Function.update s.task i task j)
  := by
  by_cases hji : j = i
  · subst hji
    rw [Function.update_self]
    exact hi
  · rw [Function.update_of_ne hji]
    exact (h.stands j).aside (hexchange j hji) (henters j hji) (hfinish j hji)

theorem Sound.step (h : Sound calls t s) (hstep : Step calls s e s') :
  Sound calls (t ++ [e]) s'
  := by
  cases hstep with
  | @start i state hidle hstate =>
    have hstands := h.stands i
    rw [hidle] at hstands
    obtain ⟨hnone, hown, hunfinished⟩ := hstands
    have hledger : ledger (t ++ [.start i state]) = ledger t := ledger_aside rfl
    refine ⟨hledger ▸ h.backed, hledger ▸ h.kept, h.stands_update (fun _ _ => rfl) (fun _ _ => rfl)
      nofun ⟨⟨state, ?_, ?_⟩, ?_⟩⟩
    · rw [history_concat, hnone, entered_concat, hown, hledger]
      exact course_start fun account h' => h.kept _ account (hstate account h')
    · rw [history_concat, hnone]
      exact process_conducts (calls i) state
    · intro r hr
      rw [List.mem_append, List.mem_singleton] at hr
      exact hunfinished r (hr.resolve_right nofun)
  | @serve i op next answer applied d' htask hserves =>
    have hstands := h.stands i
    rw [htask] at hstands
    obtain ⟨⟨state, hcourse, hguarantee, hnext⟩, hunfinished⟩ := hstands
    refine ⟨?_, fun id account hmem => ?_, h.stands_update (fun j hj => if_neg (Ne.symm hj))
      (fun j hj => if_neg (Ne.symm hj)) nofun ⟨⟨state, ?_, ?_⟩, ?_⟩⟩
    · rw [ledger_concat]
      apply h.backed.serves hserves
      rintro id account ttl rfl
      obtain ⟨rfl, hgiven⟩ := hguarantee
      exact hcourse.given account hgiven
    · rw [ledger_concat]
      exact (h.kept id account hmem).grow _
    · rw [history_concat, entered_concat, ledger_concat, Event.exchange, if_pos rfl, Event.entersFor,
        if_pos rfl]
      exact hcourse.serve hguarantee h.backed hserves
    · rw [history_concat, Event.exchange, if_pos rfl]
      exact hnext answer
    · intro r hr
      rw [List.mem_append, List.mem_singleton] at hr
      exact hunfinished r (hr.resolve_right nofun)
  | @finish i r htask =>
    have hstands := h.stands i
    rw [htask] at hstands
    obtain ⟨⟨state, hcourse, ⟨reply, hreplies, -⟩, hleft⟩, -⟩ := hstands
    have hledger : ledger (t ++ [.finish i r]) = ledger t := ledger_aside rfl
    have hhistory : history i (t ++ [.finish i r]) = history i t := by
      rw [history_concat]
      exact List.append_nil _
    refine ⟨hledger ▸ h.backed, fun id account hmem => ?_, h.stands_update (fun _ _ => rfl)
      (fun _ _ => rfl) ?_ ⟨⟨state, ?_⟩, fun _ _ => ⟨reply, hhistory ▸ hreplies⟩⟩⟩
    · rw [hledger]
      change account ∈ Function.update s.kept _ _ id at hmem
      by_cases hid : id = (calls i).account
      · subst hid
        rw [Function.update_self, List.mem_append, Option.mem_toList] at hmem
        rcases hmem with hmem | hmem
        · exact h.kept _ account hmem
        · exact hcourse.given account (hleft account (left_eq_some.mp hmem))
      · rw [Function.update_of_ne hid] at hmem
        exact h.kept id account hmem
    · rintro j hj _ ⟨⟩
      exact hj rfl
    · rw [hhistory, hledger, entered_concat]
      exact (List.append_nil (entered i t)).symm ▸ hcourse
  | @abandon i rest htask =>
    have hstands := h.stands i
    rw [htask] at hstands
    obtain ⟨⟨state, hcourse, -⟩, hunfinished⟩ := hstands
    have hledger : ledger (t ++ [.abandon i]) = ledger t := ledger_aside rfl
    refine ⟨hledger ▸ h.backed, hledger ▸ h.kept, h.stands_update (fun _ _ => rfl) (fun _ _ => rfl)
      nofun ?_⟩
    have hended : Stands calls t i .ended := ⟨⟨state, hcourse⟩, fun r hr => (hunfinished r hr).elim⟩
    exact hended.aside rfl rfl nofun
  | @lapse id =>
    have hledger : ledger (t ++ [.lapse id]) = ledger t := ledger_aside rfl
    refine ⟨?_, hledger ▸ h.kept, fun j => (h.stands j).aside rfl rfl nofun⟩
    rw [hledger]
    apply h.backed.recache
    intro id' account hlookup
    rw [AList.lookup_erase_eq] at hlookup
    by_cases hid : id' = id
    · rw [hid, Function.update_self] at hlookup
      cases hlookup
    · rw [Function.update_of_ne hid] at hlookup
      exact Or.inl hlookup

/-- Every run of the service is sound. -/
theorem sound_of_trail (h : Trail (Step calls) (.start : System ι Session) t s) :
  Sound calls t s
  := by
  apply h.invariant (Sound calls)
  · exact sound_start
  · exact fun _ _ _ _ _ hsound hstep => hsound.step hstep

/-- An operation of a call that was answered in a run. -/
theorem serve_of_trail {t₁ t₂ : List (Event ι Session)} {op : Port Session} {answer : op.Answer}
    {applied : Bool}
    (h : Trail (Step calls) .start (t₁ ++ .serve i op answer applied :: t₂) s) :
  ∃ (s₁ : System ι Session) (d : Data) (state : Option Account),
    Sound calls t₁ s₁ ∧ Course (calls i) state (ledger t₁) (entered i t₁) (history i t₁) ∧
      Guarantee (calls i) state (history i t₁) op ∧ Serves s₁.data op answer applied d
  := by
  obtain ⟨s₁, h₁, h₂⟩ := h.split
  obtain ⟨s₂, hstep, -⟩ := h₂.first
  have hsound := sound_of_trail h₁
  cases hstep with
  | @serve _ _ next _ _ d htask hserves =>
    have hstands := hsound.stands i
    rw [htask] at hstands
    obtain ⟨⟨state, hcourse, hguarantee, -⟩, -⟩ := hstands
    exact ⟨s₁, d, state, hsound, hcourse, hguarantee, hserves⟩

/-- Wherever a call stands, it has answered once at most, it has applied one mutation at most, and
its reply reports what is in the ledger. -/
theorem Stands.reports {task : Task Session} (h : Stands calls t i task) :
  (replies (history i t)).length ≤ 1 ∧ (entered i t).length ≤ 1 ∧
    ∀ reply ∈ replies (history i t), Reports (calls i) (ledger t) (entered i t) reply
  := by
  have hcourse : ∀ state, Course (calls i) state (ledger t) (entered i t) (history i t) →
      (replies (history i t)).length ≤ 1 ∧ (entered i t).length ≤ 1 ∧
        ∀ reply ∈ replies (history i t), Reports (calls i) (ledger t) (entered i t) reply := by
    intro state hcourse
    refine ⟨?_, hcourse.own_length_le, fun reply => hcourse.reports⟩
    rcases hcourse.answered with hnone | ⟨reply, hreplies, -⟩
    · rw [hnone]
      exact Nat.zero_le 1
    · rw [hreplies]
      exact le_rfl
  cases task with
  | idle =>
    obtain ⟨hnone, hown, -⟩ := h
    rw [hnone, hown]
    exact ⟨Nat.zero_le 1, Nat.zero_le 1, fun _ hmem => nomatch hmem⟩
  | running rest =>
    obtain ⟨⟨state, hstate, -⟩, -⟩ := h
    exact hcourse state hstate
  | ended =>
    obtain ⟨⟨state, hstate⟩, -⟩ := h
    exact hcourse state hstate

/-! ### A run -/

/-- Two calls that credit one account. -/
def credits (first : Bool) : Request := if first then ⟨1, 3, .credit 25⟩ else ⟨2, 3, .credit 10⟩

/-- Two calls start without a state and find nothing cached.  When the first has committed, the
second reads the account through, commits and ends, and only then the first caches what it left,
which is no longer the durable account. -/
theorem credited_run :
  ∃ (t : List (Event Bool Unit)) (s : System Bool Unit), Trail (Step credits) .start t s ∧
    ledger t = [⟨1, 3, .delta 25⟩, ⟨2, 3, .delta 10⟩] ∧ replies (history true t) = [.ok 25] ∧
    replies (history false t) = [.ok 35] ∧ s.kept 3 = [⟨35, 2⟩, ⟨25, 1⟩] ∧
    s.data.cache.lookup 3 = some ⟨25, 1⟩ ∧ s.data.store.account 3 = ⟨35, 2⟩
  := by
  have hfirst : applyMutation .empty (.delta 25) = .ok ⟨25, 1⟩ := rfl
  have hsecond : applyMutation ⟨25, 1⟩ (.delta 10) = .ok ⟨35, 2⟩ := rfl
  have h₀ : Trail (Step credits) (.start : System Bool Unit) [] _ := .nil
  have h₁ := h₀.snoc (.start (i := true) rfl (nofun : ∀ x, none = some x → _))
  have h₂ := h₁.snoc (.start (i := false) rfl (nofun : ∀ x, none = some x → _))
  have h₃ := h₂.snoc (.serve (i := true) rfl .miss)
  have h₄ := h₃.snoc (.serve (i := false) rfl .miss)
  have h₅ := h₄.snoc (.serve (i := true) rfl (.acquire (.ok ())))
  have h₆ := h₅.snoc (.serve (i := true) rfl .load)
  have h₇ := h₆.snoc (.serve (i := true) rfl (.put (.ok ())))
  have h₈ := h₇.snoc (.serve (i := true) rfl (.invalidate (.ok ())))
  have h₉ := h₈.snoc (.serve (i := true) rfl (.apply rfl rfl hfirst (Or.inl rfl)))
  have h₁₀ := h₉.snoc (.serve (i := false) rfl (.acquire (.ok ())))
  have h₁₁ := h₁₀.snoc (.serve (i := false) rfl .load)
  have h₁₂ := h₁₁.snoc (.serve (i := false) rfl (.put (.ok ())))
  have h₁₃ := h₁₂.snoc (.serve (i := false) rfl (.invalidate (.ok ())))
  have h₁₄ := h₁₃.snoc (.serve (i := false) rfl (.apply rfl rfl hsecond (Or.inl rfl)))
  have h₁₅ := h₁₄.snoc (.serve (i := false) rfl (.put (.ok ())))
  have h₁₆ := h₁₅.snoc (.serve (i := false) rfl .send)
  have h₁₇ := h₁₆.snoc (.finish (i := false) rfl)
  have h₁₈ := h₁₇.snoc (.serve (i := true) rfl (.put (.ok ())))
  have h₁₉ := h₁₈.snoc (.serve (i := true) rfl .send)
  have h₂₀ := h₁₉.snoc (.finish (i := true) rfl)
  exact ⟨_, _, h₂₀, rfl, rfl, rfl, rfl, rfl, rfl⟩

/-! ### What holds of every run -/

/-- In every run, no request is applied twice, the store holds for each account what its
applied mutations make of nothing, and a mutation is applied for a call to the account that is
durable at that moment, as the request of the call asks. -/
theorem applied_once (h : Trail (Step calls) (.start : System ι Session) t s) :
  ((ledger t).map Entry.reqId).Nodup ∧
    (∀ id, Latest (mutations (ledger t) id) (s.data.store.account id)) ∧
    ∀ t₁ t₂ i session reqId id current mutation answer,
      t = t₁ ++ .serve i (.commit session reqId id current mutation) answer true :: t₂ →
      reqId = (calls i).reqId ∧ id = (calls i).account ∧
        Latest (mutations (ledger t₁) id) current ∧ (calls i).op.Asks current mutation
  := by
  have hsound := sound_of_trail h
  refine ⟨hsound.backed.once, hsound.backed.durable, ?_⟩
  rintro t₁ t₂ i session reqId id current mutation answer rfl
  obtain ⟨s₁, d, state, hsound₁, hcourse, hguarantee, hserves⟩ := serve_of_trail h
  obtain ⟨rfl, rfl, hgiven, hplan, -⟩ := hguarantee
  refine ⟨rfl, rfl, ?_, hcourse.asks hplan⟩
  cases hserves with
  | apply hfresh hversion happly houtcome =>
    have hdurable := hsound₁.backed.durable (calls i).account
    rw [snapshot_unique (hcourse.given current hgiven) hdurable.snapshot hversion.symm]
    exact hdurable

theorem applied_once_credited :
  ∃ (t : List (Event Bool Unit)) (s : System Bool Unit), Trail (Step credits) .start t s ∧
    ledger t = [⟨1, 3, .delta 25⟩, ⟨2, 3, .delta 10⟩] ∧ ((ledger t).map Entry.reqId).Nodup ∧
    s.data.store.account 3 = ⟨35, 2⟩ ∧ Latest (mutations (ledger t) 3) (s.data.store.account 3)
  := by
  obtain ⟨t, s, h, hledger, -, -, -, -, hstored⟩ := credited_run
  obtain ⟨hnodup, hlatest, -⟩ := applied_once h
  exact ⟨t, s, h, hledger, hnodup, hstored, hlatest 3⟩

/-- In every run, each account that is kept or cached is a snapshot of its ledger: it is not
newer than the durable account, and equals it when it has its version.  Each balance that a
caller is told is the one of a snapshot. -/
theorem told_snapshots (h : Trail (Step calls) (.start : System ι Session) t s) :
  (∀ id account, account ∈ s.kept id ∨ s.data.cache.lookup id = some account →
    Snapshot (mutations (ledger t) id) account ∧
      account.version ≤ (s.data.store.account id).version ∧
      (account.version = (s.data.store.account id).version →
        account = s.data.store.account id)) ∧
    ∀ t₁ t₂ i reply balance, t = t₁ ++ .serve i (.send reply) () false :: t₂ →
      reply = .ok balance ∨ reply = .duplicate balance →
      ∃ account, Snapshot (mutations (ledger t₁) (calls i).account) account ∧
        balance = account.balance
  := by
  have hsound := sound_of_trail h
  refine ⟨fun id account haccount => ?_, ?_⟩
  · have hsnapshot : Snapshot (mutations (ledger t) id) account := by
      rcases haccount with hkept | hcached
      · exact hsound.kept id account hkept
      · exact hsound.backed.cached id account hcached
    have hdurable := hsound.backed.durable id
    refine ⟨hsnapshot, ?_, snapshot_unique hsnapshot hdurable.snapshot⟩
    rw [UInt64.le_iff_toNat_le, hdurable.1]
    exact hsnapshot.version_le
  · rintro t₁ t₂ i reply balance rfl hreply
    obtain ⟨s₁, d, state, hsound₁, hcourse, ⟨-, hentitled⟩, -⟩ := serve_of_trail h
    rcases hreply with rfl | rfl
    · rcases hentitled with ⟨-, -, account, hgiven, rfl⟩ | ⟨account, houtcomes, rfl⟩
      · exact ⟨account, hcourse.given account hgiven, rfl⟩
      · exact ⟨account, hcourse.given account (given_of_outcomes houtcomes), rfl⟩
    · obtain ⟨account, houtcomes, rfl⟩ := hentitled
      exact ⟨account, hcourse.given account (given_of_outcomes houtcomes), rfl⟩

theorem told_snapshots_credited :
  ∃ (t : List (Event Bool Unit)) (s : System Bool Unit), Trail (Step credits) .start t s ∧
    s.data.cache.lookup 3 = some ⟨25, 1⟩ ∧ Snapshot (mutations (ledger t) 3) ⟨25, 1⟩ ∧
    s.data.store.account 3 = ⟨35, 2⟩ ∧ (1 : UInt64) ≤ (s.data.store.account 3).version
  := by
  obtain ⟨t, s, h, -, -, -, -, hcached, hstored⟩ := credited_run
  obtain ⟨hsnapshot, hle, -⟩ := (told_snapshots h).1 3 ⟨25, 1⟩ (Or.inr hcached)
  exact ⟨t, s, h, hcached, hsnapshot, hstored, hle⟩

/-- In every run and for every call: it answers at most once, and once if it comes to its end;
it applies at most one mutation; and its reply reports what is in the ledger. -/
theorem replies_report (h : Trail (Step calls) (.start : System ι Session) t s) (i : ι) :
  (replies (history i t)).length ≤ 1 ∧ (entered i t).length ≤ 1 ∧
    (∀ r, .finish i r ∈ t → (replies (history i t)).length = 1) ∧
    ∀ reply ∈ replies (history i t), Reports (calls i) (ledger t) (entered i t) reply
  := by
  have hstands := (sound_of_trail h).stands i
  obtain ⟨honce, hown, hreports⟩ := hstands.reports
  refine ⟨honce, hown, fun r hr => ?_, hreports⟩
  cases htask : s.task i with
  | idle =>
    rw [htask] at hstands
    obtain ⟨-, -, hunfinished⟩ := hstands
    exact (hunfinished r hr).elim
  | running rest =>
    rw [htask] at hstands
    obtain ⟨-, hunfinished⟩ := hstands
    exact (hunfinished r hr).elim
  | ended =>
    rw [htask] at hstands
    obtain ⟨-, hfinished⟩ := hstands
    obtain ⟨reply, hreplies⟩ := hfinished r hr
    rw [hreplies]
    rfl

theorem replies_report_credited :
  ∃ (t : List (Event Bool Unit)) (s : System Bool Unit), Trail (Step credits) .start t s ∧
    replies (history true t) = [.ok 25] ∧
    Reports (credits true) (ledger t) (entered true t) (.ok 25) ∧
    replies (history false t) = [.ok 35] ∧
    Reports (credits false) (ledger t) (entered false t) (.ok 35)
  := by
  obtain ⟨t, s, h, -, hfirst, hsecond, -⟩ := credited_run
  exact ⟨t, s, h, hfirst, (replies_report h true).2.2.2 _ (by rw [hfirst]; simp), hsecond,
    (replies_report h false).2.2.2 _ (by rw [hsecond]; simp)⟩

end Grommet.Accounts
