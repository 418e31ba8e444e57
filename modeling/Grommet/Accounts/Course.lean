import Grommet.Accounts.Ledger

/-!
# The course of a call

What holds of a call between two of its operations, told from its exchanges, from the ledger
and from the entries that are its own: every account it was given is a snapshot, what it
applied is what its commit returned, and it is entitled to the reply that it sent.

A caller that is told a balance may rely on the ledger: its request was applied by this very
call, or it was recorded before, and the balance is the one recorded for it.  A caller that is
told an error other than the one of a commit in doubt may rely on the call having applied
nothing.
-/

open Program

namespace Grommet.Accounts

/-- What an operation makes of an account, as its caller asked. -/
def Op.Asks (current : Account) (mutation : Mutation) : Op → Prop
  | .debit amount => 0 ≤ amount ∧ mutation = .delta (-amount)
  | .credit amount => 0 ≤ amount ∧ mutation = .delta amount
  | .balance => False
  | .revalue params => mutation = .setBalance (heavyRevalue current params)

/-- The ledger has an entry for the request, which left this account. -/
def Recorded (entries : List Entry) (request : Request) (entry : Entry) (account : Account) : Prop :=
  entry.reqId = request.reqId ∧ entry.id = request.account ∧
    ∃ before after, entries = before ++ entry :: after ∧
      Latest (mutations before entry.id ++ [entry.mutation]) account

/-- What the answer to a commit says of the ledger and of the entries of the call. -/
def Returned (request : Request) (entries own : List Entry) :
    Except StoreError CommitOutcome → Prop
  | .ok (.committed account false) =>
      ∃ entry, own = [entry] ∧ Recorded entries request entry account
  | .ok (.committed account true) => own = [] ∧ ∃ entry, Recorded entries request entry account
  | .ok .inDoubt => own.length ≤ 1
  | .error _ => own = []

/-- What a reply reports of the ledger and of the entries of the call. -/
def Reports (request : Request) (entries own : List Entry) : Reply → Prop
  | .ok balance => (request.op = .balance ∧ own = []) ∨
      ∃ entry account, own = [entry] ∧ Recorded entries request entry account ∧
        balance = account.balance
  | .duplicate balance => own = [] ∧
      ∃ entry account, Recorded entries request entry account ∧ balance = account.balance
  | .err message => own = [] ∨ message = Failure.inDoubt.message

variable {Session : Type} {request : Request} {state : Option Account} {entries own : List Entry}
  {entry : Entry} {account current : Account} {answer : Except StoreError CommitOutcome}
  {reply : Reply} {t : List (Exchange Session)} {x : Exchange Session} {d d' : Data}
  {applied : Bool} {id : AccountId} {mutation : Mutation}

theorem Recorded.grow (h : Recorded entries request entry account) (entries' : List Entry) :
  Recorded (entries ++ entries') request entry account
  := by
  obtain ⟨hreq, hid, before, after, rfl, hlatest⟩ := h
  exact ⟨hreq, hid, before, after ++ entries', by simp, hlatest⟩

theorem Returned.grow (h : Returned request entries own answer) (entries' : List Entry) :
  Returned request (entries ++ entries') own answer
  := by
  rcases answer with error | (⟨account, _ | _⟩ | _)
  · exact h
  · obtain ⟨entry, hown, hrecorded⟩ := h
    exact ⟨entry, hown, hrecorded.grow _⟩
  · obtain ⟨hown, entry, hrecorded⟩ := h
    exact ⟨hown, entry, hrecorded.grow _⟩
  · exact h

theorem Returned.length_le (h : Returned request entries own answer) :
  own.length ≤ 1
  := by
  rcases answer with error | (⟨account, _ | _⟩ | _)
  · simp [show own = [] from h]
  · obtain ⟨entry, rfl, -⟩ := h
    exact le_rfl
  · simp [h.1]
  · exact h

/-- A commit returns what it did. -/
theorem returned_of_serves {session : Session} (hbacked : Backed entries d)
    (hid : id = request.account)
    (hserves : Serves d (.commit session request.reqId id current mutation) answer applied d') :
  Returned request
    (entries ++ (Port.commit session request.reqId id current mutation).enters applied)
    ((Port.commit session request.reqId id current mutation).enters applied) answer
  := by
  subst hid
  cases hserves with
  | refuse error => rfl
  | @replay _ _ _ _ _ prior hprior hid hmutation =>
    obtain ⟨before, after, rfl, hlatest⟩ := hbacked.recorded _ prior hprior
    exact ⟨rfl, _, rfl, hid, before, after, List.append_nil _, hlatest⟩
  | apply hfresh hversion happly houtcome =>
    have hlatest := (hbacked.durable request.account).apply happly
    rcases houtcome with rfl | rfl
    · exact ⟨_, rfl, rfl, rfl, entries, [], rfl, hlatest⟩
    · exact le_rfl
  | lose => exact Nat.zero_le 1

/-- Only a commit enters anything. -/
theorem enters_of_serves {op : Port Session} {answer : op.Answer}
    (hserves : Serves d op answer applied d') (h : Exchange.outcome ⟨op, answer⟩ = none) :
  op.enters applied = []
  := by
  cases hserves with
  | apply => cases h
  | _ => rfl

/-- An answer to a commit comes from an exchange. -/
theorem exchange_of_outcome (h : x.outcome = some answer) :
  ∃ session reqId id current mutation,
    x = ⟨.commit session reqId id current mutation, answer⟩
  := by
  obtain ⟨op, answer⟩ := x
  cases op with
  | commit session reqId id current mutation =>
    cases h
    exact ⟨session, reqId, id, current, mutation, rfl⟩
  | _ => cases h

/-- A reply comes from an exchange. -/
theorem exchange_of_reply (h : x.reply = some reply) :
  ∃ answer, x = ⟨.send reply, answer⟩
  := by
  obtain ⟨op, answer⟩ := x
  cases op with
  | send reply' =>
    cases h
    exact ⟨answer, rfl⟩
  | _ => cases h

/-- The account that a commit returned was given to the call. -/
theorem given_of_outcomes {duplicate : Bool}
    (h : outcomes t = [.ok (.committed account duplicate)]) :
  Given state t account
  := by
  have hmem : .ok (.committed account duplicate) ∈ outcomes t := by
    rw [h]
    exact List.mem_singleton_self _
  obtain ⟨x, hx, houtcome⟩ := List.mem_filterMap.mp hmem
  obtain ⟨session, reqId, id, current, mutation, rfl⟩ := exchange_of_outcome houtcome
  exact Or.inr ⟨_, hx, rfl⟩

theorem given_concat :
  Given state (t ++ [x]) account ↔ Given state t account ∨ x.account = some account
  := by
  simp [Given, or_and_right, exists_or, or_assoc]

/-- An account is answered only by operations on the account of the call. -/
theorem names_of_account {op : Port Session} {answer : op.Answer}
    (h : Guarantee request state t op) (haccount : Exchange.account ⟨op, answer⟩ = some account) :
  op.names = some request.account
  := by
  cases op with
  | load session id => exact congrArg some h
  | commit session reqId id current mutation => exact congrArg some h.2.1
  | get id => exact congrArg some h
  | _ => cases haccount

/-- What holds of a call between two of its operations. -/
structure Course (request : Request) (state : Option Account) (entries own : List Entry)
    (t : List (Exchange Session)) : Prop where
  given : ∀ account, Given state t account → Snapshot (mutations entries request.account) account
  computed : ∀ account params balance, ⟨.run account params, .ok balance⟩ ∈ t →
    balance = heavyRevalue account params
  returned : (outcomes t = [] ∧ own = []) ∨
    ∃ answer, outcomes t = [answer] ∧ Returned request entries own answer
  answered : replies t = [] ∨ ∃ reply, replies t = [reply] ∧ Entitled request state t reply

/-- A call starts with a state that is a snapshot. -/
theorem course_start
    (hstate : ∀ account, state = some account →
      Snapshot (mutations entries request.account) account) :
  Course request state entries [] ([] : List (Exchange Session))
  := by
  refine ⟨?_, fun _ _ _ hmem => ?_, Or.inl ⟨rfl, rfl⟩, Or.inl rfl⟩
  · rintro account (hgiven | ⟨x, hx, -⟩)
    · exact hstate account hgiven
    · cases hx
  · cases hmem

namespace Course

theorem grow (h : Course request state entries own t) (entries' : List Entry) :
  Course request state (entries ++ entries') own t
  := by
  refine ⟨fun account hgiven => (h.given account hgiven).grow _, h.computed, ?_, h.answered⟩
  rcases h.returned with hnone | ⟨answer, houtcomes, hreturned⟩
  · exact Or.inl hnone
  · exact Or.inr ⟨answer, houtcomes, hreturned.grow _⟩

/-- What a plan asks for is what the request asks for. -/
theorem asks (h : Course request state entries own t)
    (hplan : Plans t request.op current mutation) :
  request.op.Asks current mutation
  := by
  cases hop : request.op with
  | revalue params =>
    rw [hop] at hplan
    obtain ⟨balance, hmem, rfl⟩ := hplan
    rw [h.computed current params balance hmem]
    rfl
  | debit amount =>
    rw [hop] at hplan
    exact hplan
  | credit amount =>
    rw [hop] at hplan
    exact hplan
  | balance =>
    rw [hop] at hplan
    exact hplan

/-- The entries of a call that has not committed. -/
theorem own_eq_nil (h : Course request state entries own t) (houtcomes : outcomes t = []) :
  own = []
  := by
  rcases h.returned with ⟨-, hown⟩ | ⟨answer, hanswer, -⟩
  · exact hown
  · rw [houtcomes] at hanswer
    cases hanswer

theorem own_length_le (h : Course request state entries own t) :
  own.length ≤ 1
  := by
  rcases h.returned with ⟨-, hown⟩ | ⟨answer, -, hreturned⟩
  · rw [hown]
    exact Nat.zero_le 1
  · exact hreturned.length_le

/-- An operation of the call is answered. -/
theorem serve {op : Port Session} {answer : op.Answer} (h : Course request state entries own t)
    (hguarantee : Guarantee request state t op) (hbacked : Backed entries d)
    (hserves : Serves d op answer applied d') :
  Course request state (entries ++ op.enters applied) (own ++ op.enters applied) (t ++ [⟨op, answer⟩])
  := by
  refine ⟨fun account hgiven => ?_, fun account params balance hmem => ?_, ?_, ?_⟩
  · rcases given_concat.mp hgiven with hgiven | haccount
    · exact (h.given account hgiven).grow _
    · exact hbacked.answers hserves (names_of_account hguarantee haccount) haccount
  · rw [List.mem_append, List.mem_singleton] at hmem
    rcases hmem with hmem | hmem
    · exact h.computed account params balance hmem
    · cases hmem
      cases hserves
      rfl
  · cases houtcome : Exchange.outcome ⟨op, answer⟩ with
    | none =>
      rw [outcomes_aside houtcome, enters_of_serves hserves houtcome, List.append_nil]
      rw [List.append_nil]
      exact h.returned
    | some outcome =>
      obtain ⟨session, reqId, id, current, mutation, hx⟩ := exchange_of_outcome houtcome
      cases hx
      obtain ⟨rfl, hid, -, -, houtcomes, -⟩ := hguarantee
      refine Or.inr ⟨outcome, ?_, ?_⟩
      · rw [outcomes_concat, houtcomes]
        rfl
      · rw [h.own_eq_nil houtcomes]
        exact returned_of_serves hbacked hid hserves
  · cases hreply : Exchange.reply ⟨op, answer⟩ with
    | none =>
      rw [replies_aside hreply]
      rcases h.answered with hnone | ⟨reply, hreplies, hentitled⟩
      · exact Or.inl hnone
      · refine Or.inr ⟨reply, hreplies, hentitled.concat ?_⟩
        cases houtcome : Exchange.outcome ⟨op, answer⟩ with
        | none => rfl
        | some outcome =>
          obtain ⟨session, reqId, id, current, mutation, hx⟩ := exchange_of_outcome houtcome
          cases hx
          obtain ⟨-, -, -, -, -, hnone⟩ := hguarantee
          rw [hnone] at hreplies
          cases hreplies
    | some reply =>
      obtain ⟨_, hx⟩ := exchange_of_reply hreply
      cases hx
      refine Or.inr ⟨reply, ?_, hguarantee.2.concat rfl⟩
      rw [replies_concat, hguarantee.1]
      rfl

/-- The reply to a caller reports what the commit of its call returned. -/
theorem reports (h : Course request state entries own t) (hreply : reply ∈ replies t) :
  Reports request entries own reply
  := by
  have hcommitted : ∀ answer, outcomes t = [answer] → Returned request entries own answer := by
    intro answer hanswer
    rcases h.returned with ⟨hnone, -⟩ | ⟨answer', hanswer', hreturned⟩
    · rw [hnone] at hanswer
      cases hanswer
    · rw [hanswer'] at hanswer
      cases hanswer
      exact hreturned
  rcases h.answered with hnone | ⟨reply', hreplies, hentitled⟩
  · rw [hnone] at hreply
    cases hreply
  · rw [hreplies, List.mem_singleton] at hreply
    subst hreply
    cases reply with
    | ok balance =>
      rcases hentitled with ⟨hnone, hop, -⟩ | ⟨account, hanswer, rfl⟩
      · exact Or.inl ⟨hop, h.own_eq_nil hnone⟩
      · obtain ⟨entry, hown, hrecorded⟩ := hcommitted _ hanswer
        exact Or.inr ⟨entry, account, hown, hrecorded, rfl⟩
    | duplicate balance =>
      obtain ⟨account, hanswer, rfl⟩ := hentitled
      obtain ⟨hown, entry, hrecorded⟩ := hcommitted _ hanswer
      exact ⟨hown, entry, account, hrecorded, rfl⟩
    | err message =>
      rcases hentitled with hnone | ⟨error, hanswer⟩ | ⟨-, hmessage⟩
      · exact Or.inl (h.own_eq_nil hnone)
      · exact Or.inl (hcommitted _ hanswer)
      · exact Or.inr hmessage

end Course

end Grommet.Accounts
