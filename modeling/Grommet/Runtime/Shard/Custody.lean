import Grommet.Runtime.Shard.Desk

/-!
# The state of a key has one holder

The state of a key is on the desk, or with one `process` future, or with one flush.  `Custody`
says which deeds may come next: `process` is called with what is on the desk, `on_evict` with
the state that is there, and the desk gets back what a finished `process` kept.
-/

namespace Grommet

namespace Shard

variable {K I W S : Type} {CLASSES : ℕ}

/-- Who holds the state of a key. -/
inductive Holder (S : Type) where
  /-- The desk, if there is a state. -/
  | desk (state : Option S)
  | processing
  | flushing
  deriving DecidableEq

/-- The state of a key that nobody works on. -/
def Holder.state : Holder S → Option S
  | .desk state => state
  | _ => none

namespace Deed

/-- The deed begins or ends work on the state of the key. -/
def Concerns (deed : Deed K I W S) (k : K) : Prop :=
  match deed with
  | .process key _ _ => key = k
  | .processed key _ => key = k
  | .onEvict key _ => key = k
  | .evicted key => key = k
  | _ => False

end Deed

/-- What the deeds about a key require and bring about. -/
inductive Custody (k : K) : Holder S → Deed K I W S → Holder S → Prop
  | other {h : Holder S} {deed : Deed K I W S} : ¬ deed.Concerns k → Custody k h deed h
  | process {state : Option S} {work : W} :
      Custody k (.desk state) (.process k state work) .processing
  | processed {outcome : Outcome S} :
      Custody k .processing (.processed k outcome) (.desk outcome.disposition.intoOption)
  | onEvict {state : S} : Custody k (.desk (some state)) (.onEvict k state) .flushing
  | evicted : Custody k .flushing (.evicted k) (.desk none)

/-- Deeds about other keys leave the holder alone. -/
theorem custody_others {k : K} {h : Holder S} {deeds : List (Deed K I W S)}
    (hothers : ∀ deed ∈ deeds, ¬ deed.Concerns k) :
  Trail (Custody k) h deeds h
  := by
  induction deeds using List.reverseRecOn with
  | nil => exact .nil
  | append_singleton deeds deed ih =>
    apply (ih fun d hd => hothers d (by simp [hd])).snoc
    apply Custody.other
    apply hothers deed
    simp

/-- Who holds the state of the key of a future. -/
def Job.holder : Job K I W S → Holder S
  | .runOne false d => .desk d.state
  | .runOne true _ => .processing
  | .runFlush false _ state => .desk (some state)
  | .runFlush true _ _ => .flushing

/-- The calls of a poll are in order. -/
theorem Job.custody_calls (job : Job K I W S) :
  Trail (Custody job.key) job.holder job.calls job.polled.holder
  := by
  cases job with
  | runOne started d =>
    cases started with
    | false => exact Trail.nil.snoc .process
    | true => exact .nil
  | runFlush started key state =>
    cases started with
    | false => exact Trail.nil.snoc .onEvict
    | true => exact .nil

/-- The calls of a poll are about the key of the future. -/
theorem Job.key_of_calls {k : K} {job : Job K I W S} {deed : Deed K I W S}
    (hdeed : deed ∈ job.calls) (h : deed.Concerns k) :
  job.key = k
  := by
  cases job with
  | runOne started d =>
    cases started with
    | false =>
      rw [calls, List.mem_singleton] at hdeed
      subst hdeed
      exact h
    | true => simp [calls] at hdeed
  | runFlush started key state =>
    cases started with
    | false =>
      rw [calls, List.mem_singleton] at hdeed
      subst hdeed
      exact h
    | true => simp [calls] at hdeed

namespace Desk

variable {x y : Desk K I W S CLASSES} {k : K} {h : Holder S}

/-- Who holds the state of a key, by where the key stands. -/
def Has (x : Desk K I W S CLASSES) (k : K) (h : Holder S) : Prop :=
  (∃ job ∈ x.jobs, job.key = k ∧ h = job.holder) ∨
  (∃ state, (k, state) ∈ x.staged ∧ h = .desk (some state)) ∨
  (k ∉ x.held ∧ h = .desk (x.account.book.resident k))

/-- A key has one place. -/
theorem job_ne_staged {job : Job K I W S} {state : S} (hjob : job ∈ x.jobs) (hkey : job.key = k)
    (hstaged : (k, state) ∈ x.staged) :
  False
  := by
  obtain ⟨-, -, hdisjoint⟩ := List.nodup_append.mp x.held_nodup
  apply hdisjoint k (List.mem_map_of_mem hstaged) job.key (List.mem_map_of_mem hjob) hkey.symm

theorem Has.eq_of_job (hhas : x.Has k h) {job : Job K I W S} (hjob : job ∈ x.jobs)
    (hkey : job.key = k) :
  h = job.holder
  := by
  rcases hhas with ⟨job', hjob', hkey', rfl⟩ | ⟨state, hstaged, -⟩ | ⟨hfree, -⟩
  · have hnodup : (x.jobs.map Job.key).Nodup := (List.nodup_append.mp x.held_nodup).2.1
    rw [List.inj_on_of_nodup_map hnodup hjob' hjob (hkey'.trans hkey.symm)]
  · apply (job_ne_staged hjob hkey hstaged).elim
  · rw [← hkey] at hfree
    apply (hfree (mem_held_of_job hjob)).elim

theorem Has.eq_of_notMem (hhas : x.Has k h) (hfree : k ∉ x.held) :
  h = .desk (x.account.book.resident k)
  := by
  rcases hhas with ⟨job, hjob, rfl, -⟩ | ⟨state, hstaged, -⟩ | ⟨-, rfl⟩
  · apply (hfree (mem_held_of_job hjob)).elim
  · apply (hfree (mem_held_of_staged hstaged)).elim
  · rfl

/-- The holder stays where the place of the key does. -/
theorem Has.transport (hhas : x.Has k h)
    (hjobs : ∀ job ∈ x.jobs, job.key = k → job ∈ y.jobs)
    (hstaged : ∀ state, (k, state) ∈ x.staged → (k, state) ∈ y.staged)
    (hfree : k ∉ x.held → k ∉ y.held ∧ y.account.book.resident k = x.account.book.resident k) :
  y.Has k h
  := by
  rcases hhas with ⟨job, hjob, hkey, rfl⟩ | ⟨state, hmem, rfl⟩ | ⟨hnot, rfl⟩
  · left
    exact ⟨job, hjobs job hjob hkey, hkey, rfl⟩
  · right
    left
    exact ⟨state, hstaged state hmem, rfl⟩
  · right
    right
    obtain ⟨hnot', hresident⟩ := hfree hnot
    exact ⟨hnot', by rw [hresident]⟩

/-! ### One step -/

/-- A staged candidate keeps its state when its flush is prepared. -/
theorem Has.flush (hhas : x.Has k h) {n : ℕ} (haccount : y.account = x.account)
    (hjobs : y.jobs = x.jobs ++ (x.staged.take n).map (fun p => .runFlush false p.1 p.2))
    (hstaged : y.staged = x.staged.drop n) :
  y.Has k h
  := by
  rcases hhas with ⟨job, hjob, hkey, rfl⟩ | ⟨state, hmem, rfl⟩ | ⟨hfree, rfl⟩
  · left
    exact ⟨job, by simp [hjobs, hjob], hkey, rfl⟩
  · rw [← List.take_append_drop n x.staged, List.mem_append] at hmem
    rcases hmem with hmem | hmem
    · left
      refine ⟨.runFlush false k state, ?_, rfl, rfl⟩
      rw [hjobs, List.mem_append]
      right
      exact List.mem_map.mpr ⟨(k, state), hmem, rfl⟩
    · right
      left
      exact ⟨state, by rw [hstaged]; apply hmem, rfl⟩
  · right
    right
    refine ⟨?_, by rw [haccount]⟩
    rw [mem_held_iff, haccount, ← mem_held_iff]
    apply hfree

/-- A key beside a future that is polled or goes away keeps its holder. -/
theorem Has.beside (hhas : x.Has k h) (rest : List (Job K I W S))
    {before after : List (Job K I W S)} {job : Job K I W S}
    (hjobs : x.jobs = before ++ job :: after) (hkey : job.key ≠ k)
    (hjobs' : y.jobs = before ++ (rest ++ after)) (hrest : ∀ job' ∈ rest, job'.key = job.key)
    (hstaged : y.staged = x.staged)
    (hresident : y.account.book.resident k = x.account.book.resident k) :
  y.Has k h
  := by
  apply hhas.transport
  · rw [hjobs, hjobs']
    intro job' hjob' hkey'
    rcases List.mem_append.mp hjob' with hmem | hmem
    · simp [hmem]
    · rcases List.mem_cons.mp hmem with rfl | hmem
      · exact (hkey hkey').elim
      · simp [hmem]
  · rw [hstaged]
    intro state hmem
    apply hmem
  · intro hfree
    refine ⟨?_, hresident⟩
    rw [held, hjobs] at hfree
    rw [held, hstaged, hjobs']
    simp only [List.map_append, List.map_cons, List.mem_append, List.mem_cons, not_or] at hfree ⊢
    obtain ⟨hnot, hbefore, -, hafter⟩ := hfree
    refine ⟨hnot, hbefore, ?_, hafter⟩
    intro hmem
    obtain ⟨job', hjob', rfl⟩ := List.mem_map.mp hmem
    apply hkey (hrest job' hjob').symm

/-- The key of a future that goes away is held by nobody. -/
theorem notMem_held_of_finished {before after : List (Job K I W S)} {job : Job K I W S}
    (hjobs : x.jobs = before ++ job :: after) (hjobs' : y.jobs = before ++ after)
    (hstaged : y.staged = x.staged) :
  job.key ∉ y.held
  := by
  have hnodup := x.held_nodup
  rw [held, hjobs, List.map_append, List.map_cons] at hnodup
  have hperm : (x.staged.map Prod.fst ++ (before.map Job.key ++ job.key :: after.map Job.key)).Perm
      (job.key :: y.held) := by
    rw [held, hstaged, hjobs', List.map_append, ← List.append_assoc, ← List.append_assoc]
    apply List.perm_middle
  apply (List.nodup_cons.mp (hperm.nodup_iff.mp hnodup)).1

/-- A key being flushed has no state in the book. -/
theorem resident_of_flushing {a : Account K (Stamped I W) S CLASSES} (h : k ∈ a.ledger.flushing) :
  a.book.resident k = none
  := by
  have hpresence := ((a.good.mem .evicting k).mp h).2
  rw [Book.presence, Option.map_eq_some_iff] at hpresence
  obtain ⟨page, hpage, hpresence⟩ := hpresence
  have hok := a.good.page k page id hpage
  simp only [Book.PageOk, hpresence] at hok
  rw [Book.resident, hpage, Option.bind_some, hok]

variable [DecidableEq K] {cfg : Config CLASSES}

/-- An event that neither completes a key nor hands it out leaves it with its holder. -/
theorem Has.of_step (hhas : x.Has k h) {e : Event K (Stamped I W) S}
    (hstep : x.account.Step cfg e y.account) (hjobs : y.jobs = x.jobs) (hstaged : y.staged = x.staged)
    (hcompletes : ¬ e.Completes k) (hhands : ¬ e.HandsOut k) :
  y.Has k h
  := by
  apply hhas.transport
  · rw [hjobs]
    intro job hjob _
    apply hjob
  · rw [hstaged]
    intro state hmem
    apply hmem
  · intro hfree
    refine ⟨?_, (hstep.states k).kept hcompletes hhands⟩
    rw [held, hjobs, hstaged]
    apply hfree

/-- A key that an event hands out was held by nobody. -/
theorem notMem_held_of_handsOut {e : Event K (Stamped I W) S}
    (hstep : x.account.Step cfg e y.account) (h : e.HandsOut k) :
  k ∉ x.held
  := by
  rw [mem_held_iff]
  intro hk
  apply hstep.not_handsOut hk h

/-- A dispatch moves the state of its key to a future. -/
theorem Has.dispatch (hhas : x.Has k h) {c : ClassId} {now : Duration}
    {discarded : List (K × ClassId × Stamped I W)} {d : Dispatch K (Stamped I W) S}
    (hstep : x.account.Step cfg (.next c now discarded (some d)) y.account)
    (hjobs : y.jobs = x.jobs ++ [.runOne false d]) (hstaged : y.staged = x.staged) :
  y.Has k h
  := by
  by_cases hk : d.key = k
  · subst hk
    have hfree : d.key ∉ x.held := notMem_held_of_handsOut hstep (Or.inl ⟨d, rfl, rfl⟩)
    left
    refine ⟨.runOne false d, by simp [hjobs], rfl, ?_⟩
    rw [hhas.eq_of_notMem hfree, Job.holder, ((hstep.states d.key).dispatched d rfl rfl).1]
  · apply hhas.transport
    · intro job hjob _
      simp [hjobs, hjob]
    · rw [hstaged]
      intro state hmem
      apply hmem
    · intro hfree
      constructor
      · rw [held, hstaged, hjobs, List.map_append, ← List.append_assoc, List.mem_append]
        rintro (hmem | hmem)
        · apply hfree hmem
        · rw [List.map_singleton, List.mem_singleton] at hmem
          apply hk hmem.symm
      · apply (hstep.states k).kept
        · rintro ⟨completion, hc, -⟩
          cases hc
        · rintro (⟨d', hd', rfl⟩ | hflushes)
          · cases hd'
            apply hk rfl
          · simp [Event.Flushes, Event.pushed] at hflushes

/-- An eviction moves the states that it hands out to the staged candidates. -/
theorem Has.evict (hhas : x.Has k h) {e : Event K (Stamped I W) S}
    (hkind : ∃ now pushed, e = .evict now pushed ∨ e = .evictAll pushed)
    (hstep : x.account.Step cfg e y.account) (hjobs : y.jobs = x.jobs)
    (hstaged : y.staged = x.staged ++ e.pushed) :
  y.Has k h
  := by
  have hcompleted : e.completed = none := by
    obtain ⟨now, pushed, rfl | rfl⟩ := hkind <;> rfl
  have hdispatched : e.dispatched = none := by
    obtain ⟨now, pushed, rfl | rfl⟩ := hkind <;> rfl
  by_cases hk : e.Flushes k
  · have hfree : k ∉ x.held := notMem_held_of_handsOut hstep (Or.inr hk)
    obtain ⟨⟨k', state⟩, hmem, rfl⟩ := List.mem_map.mp hk
    right
    left
    refine ⟨state, by simp [hstaged, hmem], ?_⟩
    have hconserved := (hstep.states k').conserved
    have hout : state ∈ (x.account.book.resident k').toList ++ e.kept k' := by
      rw [hconserved, Event.statesOut, List.mem_append, List.mem_append]
      left
      right
      apply List.mem_map.mpr
      exact ⟨(k', state), by simp [hmem], rfl⟩
    rw [Event.kept, hcompleted] at hout
    simp only [Option.filter_none, Option.bind_none, Option.toList_none, List.append_nil,
      Option.mem_toList] at hout
    rw [hhas.eq_of_notMem hfree, hout]
  · apply hhas.transport
    · rw [hjobs]
      intro job hjob _
      apply hjob
    · intro state hmem
      simp [hstaged, hmem]
    · intro hfree
      constructor
      · rw [held, List.mem_append] at hfree ⊢
        rw [hstaged, hjobs, List.map_append, List.mem_append]
        rintro ((hmem | hmem) | hmem)
        · apply hfree (Or.inl hmem)
        · apply hk hmem
        · apply hfree (Or.inr hmem)
      · apply (hstep.states k).kept
        · rintro ⟨completion, hc, -⟩
          rw [hcompleted] at hc
          cases hc
        · rintro (⟨d, hd, -⟩ | hflushes)
          · rw [hdispatched] at hd
            cases hd
          · apply hk hflushes

/-- A step keeps one holder for the state of a key, and its deeds are in order. -/
theorem Step.has {deeds : List (Deed K I W S)} (hstep : x.Step cfg deeds y) (hhas : x.Has k h) :
  ∃ h', Trail (Custody k) h deeds h' ∧ y.Has k h'
  := by
  cases hstep with
  | accept =>
    refine ⟨h, custody_others ?_, hhas⟩
    simp [Deed.Concerns]
  | coalesce =>
    refine ⟨h, custody_others ?_, hhas⟩
    simp [Deed.Concerns]
  | admitItem hstep hjobs hstaged =>
    refine ⟨h, custody_others (by simp [Deed.Concerns]), hhas.of_step hstep hjobs hstaged ?_ ?_⟩
    · simp [Event.Completes, Event.completed]
    · simp [Event.HandsOut, Event.Dispatches, Event.dispatched, Event.Flushes, Event.pushed]
  | dispatch hstep hjobs hstaged => exact ⟨h, .nil, hhas.dispatch hstep hjobs hstaged⟩
  | pass hstep hjobs hstaged =>
    refine ⟨h, .nil, hhas.of_step hstep hjobs hstaged ?_ ?_⟩
    · simp [Event.Completes, Event.completed]
    · simp [Event.HandsOut, Event.Dispatches, Event.dispatched, Event.Flushes, Event.pushed]
  | shed hstep hjobs hstaged =>
    refine ⟨h, custody_others (by simp [Deed.Concerns]), hhas.of_step hstep hjobs hstaged ?_ ?_⟩
    · simp [Event.Completes, Event.completed]
    · simp [Event.HandsOut, Event.Dispatches, Event.dispatched, Event.Flushes, Event.pushed]
  | flush haccount hjobs hstaged => exact ⟨h, .nil, hhas.flush haccount hjobs hstaged⟩
  | evict hkind hstep hjobs hstaged => exact ⟨h, .nil, hhas.evict hkind hstep hjobs hstaged⟩
  | @poll before after job y hexpired hjobs haccount hjobs' hstaged =>
    by_cases hk : job.key = k
    · subst hk
      rw [hhas.eq_of_job (by simp [hjobs]) rfl]
      refine ⟨_, job.custody_calls, Or.inl ⟨job.polled, by simp [hjobs'], by simp, rfl⟩⟩
    · refine ⟨h, custody_others ?_, hhas.beside [job.polled] hjobs hk hjobs' ?_ hstaged ?_⟩
      · intro deed hdeed hconcerns
        apply hk (Job.key_of_calls hdeed hconcerns)
      · simp
      · rw [haccount]
  | @ran before after d outcome time y hjobs hstep hjobs' hstaged =>
    by_cases hk : d.key = k
    · subst hk
      have hmem : Job.runOne true d ∈ x.jobs := by
        simp [hjobs]
      rw [hhas.eq_of_job hmem rfl]
      refine ⟨_, Trail.nil.snoc .processed, Or.inr (Or.inr ⟨?_, ?_⟩)⟩
      · apply notMem_held_of_finished hjobs hjobs' hstaged
      · rw [(hstep.states d.key).completed _ rfl rfl]
    · refine ⟨h, custody_others ?_, hhas.beside [] hjobs hk hjobs' ?_ hstaged ?_⟩
      · simpa [Deed.Concerns] using hk
      · simp
      · apply (hstep.states k).kept
        · simpa [Event.Completes, Event.completed] using hk
        · simp [Event.HandsOut, Event.Dispatches, Event.dispatched, Event.Flushes, Event.pushed]
  | @flushed before after key state time y hjobs hstep hjobs' hstaged =>
    have hresident : y.account.book.resident k = x.account.book.resident k := by
      apply (hstep.states k).kept
      · simp [Event.Completes, Event.completed]
      · simp [Event.HandsOut, Event.Dispatches, Event.dispatched, Event.Flushes, Event.pushed]
    by_cases hk : key = k
    · subst hk
      have hmem : Job.runFlush true key state ∈ x.jobs := by
        simp [hjobs]
      rw [hhas.eq_of_job hmem rfl]
      refine ⟨_, Trail.nil.snoc .evicted, Or.inr (Or.inr ⟨?_, ?_⟩)⟩
      · apply notMem_held_of_finished hjobs hjobs' hstaged
      · rw [hresident, resident_of_flushing]
        apply x.flushing.mem_iff.mpr
        simp [hjobs, Job.flushing]
    · refine ⟨h, custody_others ?_, hhas.beside [] hjobs hk hjobs' ?_ hstaged hresident⟩
      · simpa [Deed.Concerns] using hk
      · simp

/-- The deeds about a key are in order, and the desk knows who holds its state. -/
theorem custody_of_trail {trace : List (List (Deed K I W S))} (hrun : Trail (Step cfg) empty trace x)
    (k : K) :
  ∃ h, Trail (Custody k) (.desk none) trace.flatten h ∧ x.Has k h
  := by
  apply hrun.invariant fun trace (x : Desk K I W S CLASSES) =>
    ∃ h, Trail (Custody k) (.desk none) trace.flatten h ∧ x.Has k h
  · refine ⟨_, .nil, Or.inr (Or.inr ⟨?_, rfl⟩)⟩
    simp [held, empty]
  · rintro trace x deeds y - ⟨h, htrail, hhas⟩ hstep
    obtain ⟨h', hdeeds, hhas'⟩ := hstep.has hhas
    refine ⟨h', ?_, hhas'⟩
    rw [List.flatten_append, List.flatten_singleton]
    apply htrail.trans hdeeds

end Desk

/-! ### What follows from custody -/

section

variable {k : K} {h h' : Holder S} {t t₁ t₂ t₃ : List (Deed K I W S)} {deed : Deed K I W S}

/-- A key that is processed stays so up to the end of the process. -/
theorem processing_of_custody (htrail : Trail (Custody k) .processing t h) :
  (∃ outcome, .processed k outcome ∈ t) ∨ h = .processing
  := by
  apply htrail.invariant fun t h => (∃ outcome, .processed k outcome ∈ t) ∨ h = .processing
  · right
    rfl
  · rintro t h deed h' - (⟨outcome, hmem⟩ | rfl) hstep
    · left
      exact ⟨outcome, by simp [hmem]⟩
    · cases hstep with
      | other _ =>
        right
        rfl
      | @processed outcome =>
        left
        exact ⟨outcome, by simp⟩

/-- A key that is flushed stays so up to the end of the flush. -/
theorem flushing_of_custody (htrail : Trail (Custody k) .flushing t h) :
  .evicted k ∈ t ∨ h = .flushing
  := by
  apply htrail.invariant fun t h => .evicted k ∈ t ∨ h = .flushing
  · right
    rfl
  · rintro t h deed h' - (hmem | rfl) hstep
    · left
      simp [hmem]
    · cases hstep with
      | other _ =>
        right
        rfl
      | evicted =>
        left
        simp

/-- The deed begins work on the state of the key. -/
def Deed.Begins (deed : Deed K I W S) (k : K) : Prop :=
  (∃ state work, deed = .process k state work) ∨ ∃ state, deed = .onEvict k state

/-- Work on a key begins with its state on the desk. -/
theorem Custody.begins (hstep : Custody k h deed h') (hbegins : deed.Begins k) :
  ∃ state, h = .desk state
  := by
  rcases hbegins with ⟨state, work, rfl⟩ | ⟨state, rfl⟩
  · cases hstep with
    | other hother => exact (hother rfl).elim
    | process => exact ⟨_, rfl⟩
  · cases hstep with
    | other hother => exact (hother rfl).elim
    | onEvict => exact ⟨_, rfl⟩

/-- Work on a key that began has ended before work on it begins again. -/
theorem overlap_of_custody {deed₁ deed₂ : Deed K I W S}
    (htrail : Trail (Custody k) h (t₁ ++ deed₁ :: (t₂ ++ deed₂ :: t₃)) h')
    (hbegins : deed₂.Begins k) :
  ((∃ state work, deed₁ = .process k state work) → ∃ outcome, .processed k outcome ∈ t₂) ∧
    ((∃ state, deed₁ = .onEvict k state) → .evicted k ∈ t₂)
  := by
  obtain ⟨h₁, -, htrail⟩ := htrail.split
  obtain ⟨h₂, hstep₁, htrail⟩ := htrail.first
  obtain ⟨h₃, htrail₂, htrail⟩ := htrail.split
  obtain ⟨h₄, hstep₂, -⟩ := htrail.first
  obtain ⟨state, rfl⟩ := hstep₂.begins hbegins
  constructor
  · rintro ⟨state, work, rfl⟩
    cases hstep₁ with
    | other hother => exact (hother rfl).elim
    | process =>
      rcases processing_of_custody htrail₂ with houtcome | hholder
      · apply houtcome
      · cases hholder
  · rintro ⟨state, rfl⟩
    cases hstep₁ with
    | other hother => exact (hother rfl).elim
    | onEvict =>
      rcases flushing_of_custody htrail₂ with hevicted | hholder
      · apply hevicted
      · cases hholder

variable [DecidableEq K]

/-- The state that is left for a key after a deed, if `left` was before it. -/
def Deed.leaves (k : K) (left : Option S) : Deed K I W S → Option S
  | .processed key outcome => if key = k then outcome.disposition.intoOption else left
  | .evicted key => if key = k then none else left
  | _ => left

/-- The state kept by the last finished `process` of a key, or none after a drop, an error, a
panic or a flush. -/
def stateLeft (k : K) (t : List (Deed K I W S)) : Option S :=
  t.foldl (Deed.leaves k) none

/-- The desk holds the state that was left. -/
theorem stateLeft_of_custody (htrail : Trail (Custody k) (.desk none) t h) :
  ∀ state, h = .desk state → stateLeft k t = state
  := by
  apply htrail.invariant fun t h => ∀ state, h = .desk state → stateLeft k t = state
  · rintro state ⟨⟩
    rfl
  · rintro t h deed h' - ih hstep state rfl
    rw [stateLeft, List.foldl_append, List.foldl_cons, List.foldl_nil]
    cases hstep with
    | other hother =>
      have hsame : ∀ left, deed.leaves k left = left := by
        intro left
        cases deed <;> simp_all [Deed.leaves, Deed.Concerns]
      rw [hsame]
      apply ih state rfl
    | processed => simp [Deed.leaves]
    | evicted => simp [Deed.leaves]

/-- A `process` is called with the state that was left. -/
theorem state_of_custody {state : Option S} {work : W}
    (htrail : Trail (Custody k) (.desk none) (t₁ ++ .process k state work :: t₂) h) :
  state = stateLeft k t₁
  := by
  obtain ⟨h₁, htrail₁, htrail⟩ := htrail.split
  obtain ⟨h₂, hstep, -⟩ := htrail.first
  cases hstep with
  | other hother => exact (hother rfl).elim
  | process => exact (stateLeft_of_custody htrail₁ state rfl).symm

/-! ### What becomes of a state that was kept -/

namespace Deed

/-- The state of the key that a finished `process` keeps. -/
def keeps (k : K) : Deed K I W S → List S
  | .processed key outcome => if key = k then outcome.disposition.intoOption.toList else []
  | _ => []

/-- The state of the key that is passed to `process` or to `on_evict`. -/
def passes (k : K) : Deed K I W S → List S
  | .process key state _ => if key = k then state.toList else []
  | .onEvict key state => if key = k then [state] else []
  | _ => []

theorem keeps_of_other (hother : ¬ deed.Concerns k) :
  deed.keeps k = [] ∧ deed.passes k = []
  := by
  cases deed <;> simp_all [keeps, passes, Concerns]

end Deed

/-- The states that were kept are those that were passed on, in order, and the one that is on
the desk. -/
theorem kept_of_custody (htrail : Trail (Custody k) (.desk none) t h) :
  t.flatMap (Deed.keeps k) = t.flatMap (Deed.passes k) ++ h.state.toList
  := by
  apply htrail.invariant fun t h =>
    t.flatMap (Deed.keeps k) = t.flatMap (Deed.passes k) ++ h.state.toList
  · rfl
  · rintro t h deed h' - ih hstep
    rw [List.flatMap_append, List.flatMap_append, List.flatMap_singleton, List.flatMap_singleton, ih]
    cases hstep with
    | other hother =>
      obtain ⟨hkeeps, hpasses⟩ := Deed.keeps_of_other hother
      simp [hkeeps, hpasses]
    | process => simp [Deed.keeps, Deed.passes, Holder.state]
    | processed => simp [Deed.keeps, Deed.passes, Holder.state]
    | onEvict => simp [Deed.keeps, Deed.passes, Holder.state]
    | evicted => simp [Deed.keeps, Deed.passes, Holder.state]

omit [DecidableEq K] in
/-- A deed about another key leaves the holder alone. -/
theorem Custody.eq_of_other (hstep : Custody k h deed h') (hother : ¬ deed.Concerns k) :
  h' = h
  := by
  cases hstep with
  | other _ => rfl
  | process => exact (hother rfl).elim
  | processed => exact (hother rfl).elim
  | onEvict => exact (hother rfl).elim
  | evicted => exact (hother rfl).elim

omit [DecidableEq K] in
/-- The first deed about a key, unless there is none. -/
theorem first_of_custody (htrail : Trail (Custody k) h t h') :
  h' = h ∨ ∃ t₁ deed t₂ h₁, t = t₁ ++ deed :: t₂ ∧ (∀ deed' ∈ t₁, ¬ deed'.Concerns k) ∧
    deed.Concerns k ∧ Custody k h deed h₁ ∧ Trail (Custody k) h₁ t₂ h'
  := by
  induction t with
  | nil =>
    left
    apply htrail.eq_of_nil
  | cons deed t ih =>
    obtain ⟨h₁, hstep, hrest⟩ := htrail.first
    by_cases hconcerns : deed.Concerns k
    · right
      exact ⟨[], deed, t, h₁, rfl, by simp, hconcerns, hstep, hrest⟩
    · have hsame := hstep.eq_of_other hconcerns
      subst hsame
      rcases ih hrest with hsame | ⟨t₁, deed', t₂, h₂, rfl, hothers, hconcerns', hstep', hrest'⟩
      · left
        apply hsame
      · right
        refine ⟨deed :: t₁, deed', t₂, h₂, rfl, ?_, hconcerns', hstep', hrest'⟩
        rintro deed'' (_ | ⟨_, hmem⟩)
        · apply hconcerns
        · apply hothers deed'' hmem

/-- The state of the key goes to the next `process` of the key, or to a flush that finishes. -/
def HandedOn (k : K) (state : S) (t : List (Deed K I W S)) : Prop :=
  ∃ t₁ deed t₂, t = t₁ ++ deed :: t₂ ∧ (∀ deed' ∈ t₁, ¬ deed'.Concerns k) ∧
    ((∃ work, deed = .process k (some state) work) ∨ deed = .onEvict k state ∧ .evicted k ∈ t₂)

omit [DecidableEq K] in
/-- A state that has left the desk was handed on. -/
theorem handedOn_of_custody {state : S}
    (htrail : Trail (Custody k) (.desk (some state)) t (.desk none)) :
  HandedOn k state t
  := by
  rcases first_of_custody htrail with hsame | ⟨t₁, deed, t₂, h₁, rfl, hothers, hconcerns, hstep, hrest⟩
  · cases hsame
  · refine ⟨t₁, deed, t₂, rfl, hothers, ?_⟩
    cases hstep with
    | other hother => exact (hother hconcerns).elim
    | process =>
      left
      exact ⟨_, rfl⟩
    | onEvict =>
      right
      refine ⟨rfl, ?_⟩
      rcases flushing_of_custody hrest with hevicted | hholder
      · apply hevicted
      · cases hholder

end

end Shard

end Grommet
