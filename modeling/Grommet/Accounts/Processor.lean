import Grommet.Accounts.Model

/-!
# The conduct of the processor

What one call of the processor does, whatever its ports answer.  It names only its own account
and request, it passes on only accounts that it was given, it commits at most once and before
it answers, it answers once, and the answer tells what the commit returned.
-/

open Program

namespace Grommet.Accounts

variable {Session : Type}

/-- An operation of the processor with its answer. -/
abbrev Exchange (Session : Type) := Program.Event (@Port.Answer Session)

namespace Exchange

/-- The account that an answer carries. -/
def account : Exchange Session → Option Account
  | ⟨.load _ _, .ok account⟩ => some account
  | ⟨.get _, .ok (some account)⟩ => some account
  | ⟨.commit _ _ _ _ _, .ok (.committed account _)⟩ => some account
  | _ => none

/-- The answer to a commit. -/
def outcome : Exchange Session → Option (Except StoreError CommitOutcome)
  | ⟨.commit _ _ _ _ _, answer⟩ => some answer
  | _ => none

/-- The reply that the caller is sent. -/
def reply : Exchange Session → Option Reply
  | ⟨.send reply, _⟩ => some reply
  | _ => none

end Exchange

/-- The answers to the commits so far. -/
def outcomes (t : List (Exchange Session)) : List (Except StoreError CommitOutcome) :=
  t.filterMap Exchange.outcome

/-- The replies so far. -/
def replies (t : List (Exchange Session)) : List Reply := t.filterMap Exchange.reply

/-- An account that a call was given, as its state or by one of its ports. -/
def Given (state : Option Account) (t : List (Exchange Session)) (account : Account) : Prop :=
  state = some account ∨ ∃ x ∈ t, x.account = some account

/-- A mutation that an operation asks for, when it is applied to an account. -/
def Plans (t : List (Exchange Session)) (op : Op) (current : Account) (mutation : Mutation) : Prop :=
  match op with
  | .debit amount => 0 ≤ amount ∧ mutation = .delta (-amount)
  | .credit amount => 0 ≤ amount ∧ mutation = .delta amount
  | .balance => False
  | .revalue params => ∃ balance, ⟨.run current params, .ok balance⟩ ∈ t ∧
      mutation = .setBalance balance

/-- What entitles a call to a reply. -/
def Entitled (request : Request) (state : Option Account) (t : List (Exchange Session)) :
    Reply → Prop
  | .ok balance =>
      (outcomes t = [] ∧ request.op = .balance ∧
        ∃ account, Given state t account ∧ balance = account.balance) ∨
      ∃ account, outcomes t = [.ok (.committed account false)] ∧ balance = account.balance
  | .duplicate balance =>
      ∃ account, outcomes t = [.ok (.committed account true)] ∧ balance = account.balance
  | .err message =>
      outcomes t = [] ∨ (∃ error, outcomes t = [.error error]) ∨
        (outcomes t = [.ok .inDoubt] ∧ message = Failure.inDoubt.message)

/-- What holds of every operation of a call, after the exchanges before it. -/
def Guarantee (request : Request) (state : Option Account) (t : List (Exchange Session)) :
    Port Session → Prop
  | .acquire => True
  | .load _ id => id = request.account
  | .commit _ reqId id current mutation =>
      reqId = request.reqId ∧ id = request.account ∧ Given state t current ∧
        Plans t request.op current mutation ∧ outcomes t = [] ∧ replies t = []
  | .get id => id = request.account
  | .put id account _ => id = request.account ∧ Given state t account
  | .invalidate id => id = request.account
  | .run account params => request.op = .revalue params ∧ Given state t account
  | .send reply => replies t = [] ∧ Entitled request state t reply

/-- The state that a call leaves. -/
def left : Except Failure (Disposition Account) → Option Account
  | .ok state => state.intoOption
  | .error _ => none

theorem left_eq_some {r : Except Failure (Disposition Account)} {account : Account} :
  left r = some account ↔ r = .ok (.keep account)
  := by
  rcases r with failure | (state | _) <;> simp [left, Disposition.intoOption]

/-- What holds of a call that has come to its end. -/
def Outcome (request : Request) (state : Option Account) (t : List (Exchange Session))
    (r : Except Failure (Disposition Account)) : Prop :=
  (∃ reply, replies t = [reply] ∧ Entitled request state t reply) ∧
    ∀ account, r = .ok (.keep account) → Given state t account

variable {request : Request} {state : Option Account} {t : List (Exchange Session)}
  {x : Exchange Session} {account committed : Account} {session : Option Session}

@[simp]
theorem outcomes_concat :
  outcomes (t ++ [x]) = outcomes t ++ x.outcome.toList
  := by
  rw [outcomes, outcomes, List.filterMap_append]
  cases h : x.outcome <;> simp [h]

@[simp]
theorem replies_concat :
  replies (t ++ [x]) = replies t ++ x.reply.toList
  := by
  rw [replies, replies, List.filterMap_append]
  cases h : x.reply <;> simp [h]

theorem Given.concat (h : Given state t account) (x : Exchange Session) :
  Given state (t ++ [x]) account
  := by
  rcases h with h | ⟨y, hy, h⟩
  · exact Or.inl h
  · exact Or.inr ⟨y, List.mem_append_left _ hy, h⟩

/-- An account that was just answered. -/
theorem given_of_answer (h : x.account = some account) :
  Given state (t ++ [x]) account
  := Or.inr ⟨x, by simp, h⟩

/-- A call that has neither committed nor answered. -/
def Fresh (t : List (Exchange Session)) : Prop := outcomes t = [] ∧ replies t = []

theorem Fresh.concat (h : Fresh t) (houtcome : x.outcome = none) (hreply : x.reply = none) :
  Fresh (t ++ [x])
  := by
  refine ⟨?_, ?_⟩
  · rw [outcomes_concat, h.1, houtcome]
    rfl
  · rw [replies_concat, h.2, hreply]
    rfl

theorem resident_given (hgiven : Given state t account) (hcommitted : Given state t committed)
    (duplicate : Bool) :
  Given state t (resident account committed duplicate)
  := by
  rw [resident]
  split
  · exact hgiven
  · exact hcommitted

/-- An exchange that is neither a commit nor a reply. -/
theorem outcomes_aside (houtcome : x.outcome = none) :
  outcomes (t ++ [x]) = outcomes t
  := by
  rw [outcomes_concat, houtcome]
  exact List.append_nil _

theorem replies_aside (hreply : x.reply = none) :
  replies (t ++ [x]) = replies t
  := by
  rw [replies_concat, hreply]
  exact List.append_nil _

/-- A call stays entitled to its reply until it commits again. -/
theorem Entitled.concat {reply : Reply} (h : Entitled request state t reply)
    (hx : x.outcome = none) :
  Entitled request state (t ++ [x]) reply
  := by
  have houtcomes := outcomes_aside (t := t) hx
  cases reply with
  | ok balance =>
    rcases h with ⟨hnone, hop, account, hgiven, hbalance⟩ | h
    · exact Or.inl ⟨houtcomes.trans hnone, hop, account, hgiven.concat x, hbalance⟩
    · right
      rw [houtcomes]
      exact h
  | duplicate balance =>
    rw [Entitled, houtcomes]
    exact h
  | err message =>
    rw [Entitled, houtcomes]
    exact h

/-- A reply that ends a call. -/
theorem conducts_send {reply : Reply} {r : Except Failure (Disposition Account)}
    (hreplies : replies t = []) (hreply : Entitled request state t reply)
    (hr : ∀ account, r = .ok (.keep account) → Given state t account) :
  Conducts (Guarantee request state) (Outcome request state) t (do send reply; pure r)
  := by
  refine ⟨⟨hreplies, hreply⟩, fun _ => ⟨⟨reply, ?_, hreply.concat rfl⟩,
    fun account h => (hr account h).concat _⟩⟩
  rw [replies_concat, hreplies]
  rfl

/-- The store is read by a call that goes on. -/
theorem readThrough_conducts (ht : Fresh t) :
  Conducts (Guarantee request state)
    (fun t r => Fresh t ∧ ∀ account session, r = .ok (account, session) → Given state t account)
    t (readThrough request.account : Action Session _)
  := by
  refine ⟨trivial, fun acquired => ?_⟩
  have ht₁ := ht.concat (x := ⟨.acquire, acquired⟩) rfl rfl
  rcases acquired with error | acquired
  · exact ⟨ht₁, nofun⟩
  · refine ⟨rfl, fun loaded => ?_⟩
    have ht₂ := ht₁.concat (x := ⟨.load acquired request.account, loaded⟩) rfl rfl
    rcases loaded with error | loaded
    · exact ⟨ht₂, nofun⟩
    · refine ⟨⟨rfl, given_of_answer rfl⟩, fun stored => ⟨ht₂.concat rfl rfl, ?_⟩⟩
      rintro account session ⟨⟩
      exact (given_of_answer rfl).concat _

/-- The account that a call works with was given to it. -/
theorem resolve_conducts :
  Conducts (Guarantee request state)
    (fun t r => Fresh t ∧ ∀ account session, r = .ok (account, session) → Given state t account)
    [] (resolve request.account state : Action Session _)
  := by
  cases state with
  | some account =>
    refine ⟨⟨rfl, rfl⟩, ?_⟩
    rintro account session ⟨⟩
    exact Or.inl rfl
  | none =>
    refine ⟨rfl, fun found => ?_⟩
    have ht : Fresh (([] : List (Exchange Session)) ++ [⟨.get request.account, found⟩]) :=
      Fresh.concat ⟨rfl, rfl⟩ rfl rfl
    rcases found with error | (_ | account)
    · exact readThrough_conducts ht
    · exact readThrough_conducts ht
    · refine ⟨ht, ?_⟩
      rintro account session ⟨⟩
      exact given_of_answer rfl

/-- A plan names a mutation that the operation asks for, or the reply that ends the call. -/
theorem plan_conducts (ht : Fresh t) (hgiven : Given state t account) :
  Conducts (Guarantee request state)
    (fun t r => Fresh t ∧ Given state t account ∧
      (∀ mutation, r = .ok mutation → Plans t request.op account mutation) ∧
      ∀ reply, r = .error reply → Entitled request state t reply)
    t (plan account request.op : Action Session _)
  := by
  cases hop : request.op with
  | balance =>
    refine ⟨ht, hgiven, nofun, ?_⟩
    rintro reply ⟨⟩
    exact Or.inl ⟨ht.1, hop, account, hgiven, rfl⟩
  | debit amount =>
    rw [plan]
    split
    · refine ⟨ht, hgiven, nofun, ?_⟩
      rintro reply ⟨⟩
      exact Or.inl ht.1
    · rename_i hamount
      refine ⟨ht, hgiven, ?_, nofun⟩
      rintro mutation ⟨⟩
      exact ⟨Int64.not_lt.mp hamount, rfl⟩
  | credit amount =>
    rw [plan]
    split
    · refine ⟨ht, hgiven, nofun, ?_⟩
      rintro reply ⟨⟩
      exact Or.inl ht.1
    · rename_i hamount
      refine ⟨ht, hgiven, ?_, nofun⟩
      rintro mutation ⟨⟩
      exact ⟨Int64.not_lt.mp hamount, rfl⟩
  | revalue params =>
    refine ⟨⟨hop, hgiven⟩, fun answer => ?_⟩
    have ht₁ := ht.concat (x := ⟨.run account params, answer⟩) rfl rfl
    rcases answer with error | balance
    · refine ⟨ht₁, hgiven.concat _, nofun, ?_⟩
      rintro reply ⟨⟩
      exact Or.inl ht₁.1
    · refine ⟨ht₁, hgiven.concat _, ?_, nofun⟩
      rintro mutation ⟨⟩
      exact ⟨balance, by simp, rfl⟩

theorem Plans.concat {op : Op} {mutation : Mutation} (h : Plans t op account mutation)
    (x : Exchange Session) :
  Plans (t ++ [x]) op account mutation
  := by
  cases op with
  | revalue params =>
    obtain ⟨balance, hmem, hmutation⟩ := h
    exact ⟨balance, List.mem_append_left _ hmem, hmutation⟩
  | debit amount => exact h
  | credit amount => exact h
  | balance => exact h

theorem lease_conducts {mutation : Mutation} (ht : Fresh t) (hgiven : Given state t account)
    (hplan : Plans t request.op account mutation) :
  Conducts (Guarantee request state)
    (fun t _ => Fresh t ∧ Given state t account ∧ Plans t request.op account mutation)
    t (lease session)
  := by
  cases session with
  | some session => exact ⟨ht, hgiven, hplan⟩
  | none => exact ⟨trivial, fun answer => ⟨ht.concat rfl rfl, hgiven.concat _, hplan.concat _⟩⟩

/-- The cache is invalidated before the reply that ends a call. -/
theorem conducts_invalidate_send {reply : Reply} {r : Except Failure (Disposition Account)}
    (hreplies : replies t = []) (hreply : ∀ t' : List (Exchange Session),
      outcomes t' = outcomes t → Entitled request state t' reply)
    (hr : ∀ account, r = .ok (.keep account) → Given state t account) :
  Conducts (Guarantee request state) (Outcome request state) t
    (do let _ ← invalidate request.account; send reply; pure r)
  := by
  refine ⟨rfl, fun _ => conducts_send ?_ (hreply _ (outcomes_aside rfl)) ?_⟩
  · rw [replies_aside rfl, hreplies]
  · exact fun account h => (hr account h).concat _

/-- What a call does after its commit. -/
theorem conclude_conducts {answer : Except StoreError CommitOutcome}
    (houtcomes : outcomes t = [answer]) (hreplies : replies t = [])
    (hgiven : Given state t account)
    (hcommitted : ∀ committed duplicate, answer = .ok (.committed committed duplicate) →
      Given state t committed) :
  Conducts (Guarantee request state) (Outcome request state) t
    (conclude request.account account answer : Action Session _)
  := by
  rcases answer with error | (⟨committed, duplicate⟩ | _)
  · have hentitled : ∀ message (t' : List (Exchange Session)), outcomes t' = outcomes t →
        Entitled request state t' (.err message) :=
      fun message t' h => Or.inr (Or.inl ⟨error, by rw [h, houtcomes]⟩)
    cases error with
    | versionConflict => exact conducts_invalidate_send hreplies (hentitled _) nofun
    | _ =>
      refine conducts_invalidate_send hreplies (hentitled _) ?_
      rintro _ ⟨⟩
      exact hgiven
  · have hresident := resident_given hgiven (hcommitted committed duplicate rfl) duplicate
    have hentitled : ∀ t' : List (Exchange Session), outcomes t' = outcomes t →
      Entitled request state t'
        (if duplicate then .duplicate committed.balance else .ok committed.balance) := by
      intro t' h
      rw [houtcomes] at h
      cases duplicate with
      | true => exact ⟨committed, h, rfl⟩
      | false => exact Or.inr ⟨committed, h, rfl⟩
    refine ⟨⟨rfl, hresident⟩, fun stored => ?_⟩
    rcases stored with error | _
    · refine conducts_invalidate_send ?_ ?_ ?_
      · rw [replies_aside rfl, hreplies]
      · intro t' h
        exact hentitled t' (h.trans (outcomes_aside rfl))
      · rintro _ ⟨⟩
        exact hresident.concat _
    · refine conducts_send ?_ (hentitled _ (outcomes_aside rfl)) ?_
      · rw [replies_aside rfl, hreplies]
      · rintro _ ⟨⟩
        exact hresident.concat _
  · refine conducts_invalidate_send hreplies (fun t' h => ?_) nofun
    exact Or.inr (Or.inr ⟨by rw [h, houtcomes], rfl⟩)

/-- Whatever its ports answer, a call of the processor keeps its guarantee at every operation
and ends with one reply. -/
theorem process_conducts (request : Request) (state : Option Account) :
  Conducts (Guarantee request state) (Outcome request state) []
    (process request.account state request : Action Session _)
  := by
  apply resolve_conducts.bind
  rintro t r ⟨ht, hgiven⟩
  rcases r with error | ⟨account, session⟩
  · exact conducts_send ht.2 (Or.inl ht.1) nofun
  · apply (plan_conducts ht (hgiven account session rfl)).bind
    rintro t r ⟨ht, hgiven, hplan, hreply⟩
    rcases r with reply | mutation
    · refine conducts_send ht.2 (hreply reply rfl) ?_
      rintro _ ⟨⟩
      exact hgiven
    · refine ⟨rfl, fun answer => ?_⟩
      apply (lease_conducts (ht.concat rfl rfl) (hgiven.concat _)
        ((hplan mutation rfl).concat _)).bind
      rintro t r ⟨ht, hgiven, hplan⟩
      rcases r with error | session
      · refine conducts_send ht.2 (Or.inl ht.1) ?_
        rintro _ ⟨⟩
        exact hgiven
      · refine ⟨⟨rfl, rfl, hgiven, hplan, ht.1, ht.2⟩, fun answer => ?_⟩
        refine conclude_conducts ?_ ?_ (hgiven.concat _) ?_
        · rw [outcomes_concat, ht.1]
          rfl
        · rw [replies_aside rfl, ht.2]
        · rintro committed duplicate rfl
          exact given_of_answer rfl

end Grommet.Accounts
