import Grommet.Runtime.Shard.Custody
import Grommet.Runtime.Shard.Stranding
import Grommet.Runtime.Shard.Works

/-!
# The contract of a shard

What a processor may rely on, told from the deeds of a shard alone: every work that the shard
received is handed over once, the works of a key are processed in the order of the mailbox and
one at a time, and the state of a key goes from one call to the next.

Most of this holds in every run.  That a shard which rests with nothing outstanding has handed
over everything holds in the runs in which it strands no work.
-/

namespace Grommet

namespace Shard

variable {K I W S : Type} [DecidableEq K] {CLASSES : ℕ}

/-- What a processor may rely on, in a run with these deeds that has come to a shard. -/
structure Contract (log : List (Deed K I W S)) (s : Shard K I W S CLASSES) : Prop where
  /-- A work that was received is handed to at most one of the three callbacks, and once. -/
  once : ∀ k, (log.flatMap (Deed.coalesces k) ++
    (log.flatMap (Deed.expires k) ++ log.flatMap (Deed.processes k))).Subperm
      (log.flatMap (Deed.receives k))
  /-- It was handed to one of them when the shard rests with nothing outstanding. -/
  complete : s.Rests → s.outstanding = [] → ∀ k, (log.flatMap (Deed.coalesces k) ++
    (log.flatMap (Deed.expires k) ++ log.flatMap (Deed.processes k))).Perm
      (log.flatMap (Deed.receives k))
  /-- The works of a key are processed in the order in which they were received. -/
  order : ∀ k, (log.flatMap (Deed.processes k)).Sublist (log.flatMap (Deed.receives k))
  /-- A `process` or a flush of a key has ended before the next one begins. -/
  apart : ∀ k t₁ t₂ t₃ deed₁ deed₂, log = t₁ ++ deed₁ :: (t₂ ++ deed₂ :: t₃) → deed₂.Begins k →
    ((∃ state work, deed₁ = .process k state work) → ∃ outcome, .processed k outcome ∈ t₂) ∧
      ((∃ state, deed₁ = .onEvict k state) → .evicted k ∈ t₂)
  /-- A `process` is called with the state that was left for its key. -/
  state : ∀ k t₁ t₂ state work, log = t₁ ++ .process k state work :: t₂ → state = stateLeft k t₁

variable {s : Shard K I W S CLASSES} {x : Desk K I W S CLASSES}

/-- What leaves the desk expired or is processed. -/
theorem serves_perm (log : List (Deed K I W S)) (k : K) :
  (log.flatMap (Deed.expires k) ++ log.flatMap (Deed.processes k)).Perm
    (log.flatMap (Deed.serves k))
  := List.flatMap_append_perm ..

theorem processes_sublist (log : List (Deed K I W S)) (k : K) :
  (log.flatMap (Deed.processes k)).Sublist (log.flatMap (Deed.serves k))
  := by
  apply List.Sublist.flatMap_right
  intro deed _
  apply List.sublist_append_right

/-- Nothing waits on the desk of a shard without futures, without queues and with nothing to
shed. -/
theorem Sits.waiting_nil (h : s.Sits x) (hnil : s.outstanding = []) (hsheds : s.phase.sheds = false)
    {k : K} (hcontents : s.book.contents k = []) :
  x.waiting k = []
  := by
  rw [h.contents] at hcontents
  rw [Desk.waiting, Desk.discarded, Desk.unstarted, Desk.queued, h.shed hsheds, ← h.jobs, hnil,
    hcontents]
  rfl

/-! ### Two runs -/

/-- Three items are processed, of which two are for one key, and both keys are flushed. -/
def concludedLog : List (Deed Bool Unit ℕ ℕ) :=
  [.accepted ⟨true, 0, none, none, 0, 40⟩, .accepted ⟨false, 0, none, none, 0, 41⟩,
    .accepted ⟨true, 0, none, none, 0, 42⟩, .received ⟨true, 0, none, none, 0, 40⟩,
    .received ⟨false, 0, none, none, 0, 41⟩, .received ⟨true, 0, none, none, 0, 42⟩,
    .process true none 40, .processed true (.ok (.keep 3)), .process false none 41,
    .processed false (.ok (.keep 4)), .process true (some 3) 42,
    .processed true (.ok (.keep 5)), .onEvict false 4, .evicted false, .onEvict true 5,
    .evicted true]

/-- A pass or flushes begin with nothing outstanding. -/
def opens (s : Shard K I W S CLASSES) : Bool :=
  match s.phase with
  | .dispatching 0 => s.outstanding.isEmpty
  | .flushing => s.outstanding.isEmpty
  | _ => false

/-- Nothing more is asked of the other steps. -/
theorem Step.between [DecidableEq I] {s' : Shard K I W S CLASSES} {deeds : List (Deed K I W S)}
    (h : Step s deeds s') (hopens : s.opens = false) :
  Step s deeds s' ∧ s.Passable ∧ s.Flushable
  := by
  refine ⟨h, fun hphase hnil => ?_, fun hphase hnil => ?_⟩
  · rw [opens, hphase, hnil] at hopens
    cases hopens
  · rw [opens, hphase, hnil] at hopens
    cases hopens

/-- A shard that processes items of two keys, flushes the states that were kept and returns. -/
theorem concluded_run :
  ∃ (s₀ s : Shard Bool Unit ℕ ℕ 1) (trace : List (List (Deed Bool Unit ℕ ℕ))),
    start (.new fun _ => 2) 0 1 = .ok s₀ ∧
    Trail (fun s deeds s' => Step s deeds s' ∧ s.Passable ∧ s.Flushable) s₀ trace s ∧
    s.phase = .returned ∧ s.outstanding = [] ∧ trace.flatten = concludedLog
  := by
  have hstart : start (.new fun _ => 2) 0 1 = .ok ((start (.new fun _ => 2) 0 1 :
      Checked (Shard Bool Unit ℕ ℕ 1)).toOption.get rfl) := rfl
  have h₀ : Trail (fun s deeds s' => Step s deeds s' ∧ s.Passable ∧ s.Flushable)
      ((start (.new fun _ => 2) 0 1 : Checked (Shard Bool Unit ℕ ℕ 1)).toOption.get rfl) [] _ := .nil
  have h₁ := h₀.snoc (Step.between (.send ⟨true, 0, none, none, 0, 40⟩ rfl) rfl)
  have h₂ := h₁.snoc (Step.between (.send ⟨false, 0, none, none, 0, 41⟩ rfl) rfl)
  have h₃ := h₂.snoc (Step.between (.send ⟨true, 0, none, none, 0, 42⟩ rfl) rfl)
  have h₄ := h₃.snoc (Step.disconnect.between rfl)
  have h₅ := h₄.snoc (Step.between (.wake 1 rfl) rfl)
  have h₆ := h₅.snoc ⟨.nextClass rfl (by decide) rfl, by rintro _ _ (_ | _) c ⟨⟩, nofun⟩
  have h₇ := h₆.snoc (Step.between (.dispatched rfl (by decide)) rfl)
  have h₈ := h₇.snoc (Step.between (.shedAll rfl rfl) rfl)
  have h₉ := h₈.snoc ⟨.flush rfl rfl rfl, nofun, fun _ _ => .inl rfl⟩
  have h₁₀ := h₉.snoc (Step.between (.drain rfl rfl rfl) rfl)
  have h₁₁ := h₁₀.snoc (Step.between (.receive rfl rfl rfl rfl) rfl)
  have h₁₂ := h₁₁.snoc (Step.between (.receive rfl rfl rfl rfl) rfl)
  have h₁₃ := h₁₂.snoc (Step.between (.receive rfl rfl rfl rfl) rfl)
  have h₁₄ := h₁₃.snoc (Step.between (.closed 2 2 rfl rfl rfl rfl) rfl)
  have h₁₅ := h₁₄.snoc (Step.between (.harvested false 2 rfl) rfl)
  have h₁₆ := h₁₅.snoc (Step.between (.service rfl rfl) rfl)
  have h₁₇ := h₁₆.snoc ⟨.dispatch rfl (by decide) rfl rfl, by rintro _ _ (_ | _) c _ <;> rfl, nofun⟩
  have h₁₈ := h₁₇.snoc (Step.between (.dispatch rfl (by decide) rfl rfl) rfl)
  have h₁₉ := h₁₈.snoc (Step.between (.nextClass rfl (by decide) rfl) rfl)
  have h₂₀ := h₁₉.snoc (Step.between (.dispatched rfl (by decide)) rfl)
  have h₂₁ := h₂₀.snoc (Step.between (.shedAll rfl rfl) rfl)
  have h₂₂ := h₂₁.snoc (Step.between (.flush rfl rfl rfl) rfl)
  have h₂₃ := h₂₂.snoc (Step.between (.skipDrain 3 rfl rfl rfl) rfl)
  have h₂₄ := h₂₃.snoc (Step.between (.ran [] (.ok (.keep 3)) rfl (by decide) rfl rfl) rfl)
  have h₂₅ := h₂₄.snoc (Step.between (.ran [] (.ok (.keep 4)) rfl (by decide) rfl rfl) rfl)
  have h₂₆ := h₂₅.snoc (Step.between (.harvested false 3 rfl) rfl)
  have h₂₇ := h₂₆.snoc (Step.between (.service rfl rfl) rfl)
  have h₂₈ := h₂₇.snoc ⟨.dispatch rfl (by decide) rfl rfl, by rintro _ _ (_ | _) c _ <;> rfl, nofun⟩
  have h₂₉ := h₂₈.snoc (Step.between (.nextClass rfl (by decide) rfl) rfl)
  have h₃₀ := h₂₉.snoc (Step.between (.dispatched rfl (by decide)) rfl)
  have h₃₁ := h₃₀.snoc (Step.between (.shedAll rfl rfl) rfl)
  have h₃₂ := h₃₁.snoc (Step.between (.flush rfl rfl rfl) rfl)
  have h₃₃ := h₃₂.snoc (Step.between (.skipDrain 4 rfl rfl rfl) rfl)
  have h₃₄ := h₃₃.snoc (Step.between (.ran [] (.ok (.keep 5)) rfl (by decide) rfl rfl) rfl)
  have h₃₅ := h₃₄.snoc (Step.between (.harvested false 4 rfl) rfl)
  have h₃₆ := h₃₅.snoc (Step.between (.service rfl rfl) rfl)
  have h₃₇ := h₃₆.snoc ⟨.nextClass rfl (by decide) rfl, by rintro _ _ (_ | _) c ⟨⟩, nofun⟩
  have h₃₈ := h₃₇.snoc (Step.between (.dispatched rfl (by decide)) rfl)
  have h₃₉ := h₃₈.snoc (Step.between (.shedAll rfl rfl) rfl)
  have h₄₀ := h₃₉.snoc ⟨.flush rfl rfl rfl, nofun, fun _ _ => .inl rfl⟩
  have h₄₁ := h₄₀.snoc (Step.between (.evictAll rfl rfl rfl rfl) rfl)
  have h₄₂ := h₄₁.snoc ⟨.nextClass rfl (by decide) rfl, by rintro _ _ (_ | _) c ⟨⟩, nofun⟩
  have h₄₃ := h₄₂.snoc (Step.between (.dispatched rfl (by decide)) rfl)
  have h₄₄ := h₄₃.snoc (Step.between (.shedAll rfl rfl) rfl)
  have h₄₅ := h₄₄.snoc ⟨.flush rfl rfl rfl, nofun, fun _ _ => .inr (by decide)⟩
  have h₄₆ := h₄₅.snoc (Step.between (.skipDrain 5 rfl rfl rfl) rfl)
  have h₄₇ := h₄₆.snoc (Step.between (.flushed [] rfl (by decide) rfl rfl) rfl)
  have h₄₈ := h₄₇.snoc (Step.between (.flushed [] rfl (by decide) rfl rfl) rfl)
  have h₄₉ := h₄₈.snoc (Step.between (.harvested false 5 rfl) rfl)
  have h₅₀ := h₄₉.snoc (Step.between (.service rfl rfl) rfl)
  have h₅₁ := h₅₀.snoc ⟨.nextClass rfl (by decide) rfl, by rintro _ _ (_ | _) c ⟨⟩, nofun⟩
  have h₅₂ := h₅₁.snoc (Step.between (.dispatched rfl (by decide)) rfl)
  have h₅₃ := h₅₂.snoc (Step.between (.shedAll rfl rfl) rfl)
  have h₅₄ := h₅₃.snoc ⟨.flush rfl rfl rfl, nofun, fun _ _ => .inl rfl⟩
  have h₅₅ := h₅₄.snoc (Step.between (.exit rfl rfl rfl) rfl)
  exact ⟨_, _, _, hstart, h₅₅, rfl, rfl, rfl⟩

/-- A shard that returns with an item in a ring that its last pass had visited before the item
in front expired. -/
theorem abandoned_run :
  ∃ (s₀ s : Shard ℕ Unit ℕ ℕ 2) (trace : List (List (Deed ℕ Unit ℕ ℕ))),
    start (.new fun _ => 1) 0 1 = .ok s₀ ∧ Trail Step s₀ trace s ∧
    s.phase = .returned ∧ s.outstanding = [] ∧ s.book.pending = 1 ∧
    trace.flatten = [.accepted ⟨7, 1, none, some 5, 0, 40⟩, .accepted ⟨7, 0, none, none, 0, 41⟩,
      .received ⟨7, 1, none, some 5, 0, 40⟩, .received ⟨7, 0, none, none, 0, 41⟩, .onExpired 7 40]
  := by
  have hstart : start (.new fun _ => 1) 0 1 = .ok ((start (.new fun _ => 1) 0 1 :
      Checked (Shard ℕ Unit ℕ ℕ 2)).toOption.get rfl) := rfl
  have h₀ : Trail Step ((start (.new fun _ => 1) 0 1 :
      Checked (Shard ℕ Unit ℕ ℕ 2)).toOption.get rfl) [] _ := .nil
  have h₁ := h₀.snoc (.send ⟨7, 1, none, some 5, 0, 40⟩ rfl)
  have h₂ := h₁.snoc (.send ⟨7, 0, none, none, 0, 41⟩ rfl)
  have h₃ := h₂.snoc .disconnect
  have h₄ := h₃.snoc (.wake 1 rfl)
  have h₅ := h₄.snoc (.nextClass rfl (by decide) rfl)
  have h₆ := h₅.snoc (.nextClass rfl (by decide) rfl)
  have h₇ := h₆.snoc (.dispatched rfl (by decide))
  have h₈ := h₇.snoc (.shedAll rfl rfl)
  have h₉ := h₈.snoc (.flush rfl rfl rfl)
  have h₁₀ := h₉.snoc (.drain rfl rfl rfl)
  have h₁₁ := h₁₀.snoc (.receive rfl rfl rfl rfl)
  have h₁₂ := h₁₁.snoc (.receive rfl rfl rfl rfl)
  have h₁₃ := h₁₂.snoc (.closed 6 6 rfl rfl rfl rfl)
  have h₁₄ := h₁₃.snoc (.harvested false 6 rfl)
  have h₁₅ := h₁₄.snoc (.service rfl rfl)
  have h₁₆ := h₁₅.snoc (.nextClass rfl (by decide) rfl)
  have h₁₇ := h₁₆.snoc (.nextClass rfl (by decide) rfl)
  have h₁₈ := h₁₇.snoc (.dispatched rfl (by decide))
  have h₁₉ := h₁₈.snoc (.shed rfl rfl)
  have h₂₀ := h₁₉.snoc (.shedAll rfl rfl)
  have h₂₁ := h₂₀.snoc (.flush rfl rfl rfl)
  have h₂₂ := h₂₁.snoc (.evictAll rfl rfl rfl rfl)
  exact ⟨_, _, _, hstart, h₂₂, rfl, rfl, rfl, rfl⟩

/-! ### The contract -/

variable [DecidableEq I]

/-- A shard keeps its contract in every run in which the pass of a turn that begins with
nothing outstanding leaves no ready key behind, and flushes that begin with nothing outstanding
have a slot. -/
theorem shard_keeps_contract {cfg : ShardConfig CLASSES} {now : Duration} {wheelId : ℕ}
    {s₀ : Shard K I W S CLASSES} {trace : List (List (Deed K I W S))}
    (hstart : start cfg now wheelId = .ok s₀)
    (hrun : Trail (fun s deeds s' => Step s deeds s' ∧ s.Passable ∧ s.Flushable) s₀ trace s) :
  Contract trace.flatten s
  := by
  obtain ⟨trace', x, htrail, hdeeds, hsits, -⟩ :=
    sits_of_trail (hrun.mono fun _ _ _ h => h.1) (Sits.start hstart)
  have hworks := Desk.works_of_trail htrail
  have hcustody := Desk.custody_of_trail htrail
  rw [hdeeds] at hworks hcustody
  constructor
  · intro k
    obtain ⟨-, hperm⟩ := hworks k
    refine List.Subperm.trans ?_ hperm.subperm
    apply ((serves_perm trace.flatten k).append_left _).subperm.trans
    rw [← List.append_assoc]
    apply (List.sublist_append_left _ _).subperm
  · intro hrests hnil k
    obtain ⟨hstaged, hready⟩ := rests_of_trail hstart hrun hrests hnil
    have hsheds : s.phase.sheds = false := by
      rcases hrests with hphase | hphase
      · rw [hphase]
        rfl
      · rw [hphase]
        rfl
    obtain ⟨-, hperm⟩ := hworks k
    rw [hsits.waiting_nil hnil hsheds (hsits.contents_nil hnil hstaged hready k),
      List.append_nil] at hperm
    apply ((serves_perm trace.flatten k).append_left _).trans hperm
  · intro k
    obtain ⟨hsublist, -⟩ := hworks k
    apply (processes_sublist _ k).trans
    apply (List.sublist_append_left _ _).trans hsublist
  · intro k t₁ t₂ t₃ deed₁ deed₂ hlog hbegins
    obtain ⟨h, hk, -⟩ := hcustody k
    rw [hlog] at hk
    apply overlap_of_custody hk hbegins
  · intro k t₁ t₂ state work hlog
    obtain ⟨h, hk, -⟩ := hcustody k
    rw [hlog] at hk
    apply state_of_custody hk

/-- The contract of a run in which states are kept, handed on and flushed. -/
theorem shard_keeps_contract_concluded :
  ∃ s : Shard Bool Unit ℕ ℕ 1, s.Rests ∧ s.outstanding = [] ∧ Contract concludedLog s
  := by
  obtain ⟨s₀, s, trace, hstart, hrun, hphase, hnil, hlog⟩ := concluded_run
  refine ⟨s, .inr hphase, hnil, ?_⟩
  rw [← hlog]
  apply shard_keeps_contract hstart hrun

/-- A shard can return without having handed over an item that it received. -/
theorem shard_abandons_received_item :
  ¬ ∀ (cfg : ShardConfig 2) (now : Duration) (wheelId : ℕ) (s₀ s : Shard ℕ Unit ℕ ℕ 2)
      (trace : List (List (Deed ℕ Unit ℕ ℕ))),
    start cfg now wheelId = .ok s₀ → Trail Step s₀ trace s → Contract trace.flatten s
  := by
  intro h
  obtain ⟨s₀, s, trace, hstart, hrun, hphase, hnil, -, hlog⟩ := abandoned_run
  have hperm := (h _ _ _ _ _ _ hstart hrun).complete (.inr hphase) hnil 7
  rw [hlog] at hperm
  have hlength := hperm.length_eq
  cases hlength

end Shard

end Grommet
