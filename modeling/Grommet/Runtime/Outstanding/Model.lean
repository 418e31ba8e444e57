import Grommet.Library.Checked
import Mathlib.Logic.Function.Basic

/-!
# The outstanding set

A set of futures of fixed capacity, owned by one task.  The wakers of its slots publish
readiness in bitmaps that they share with the owner: one bit for each slot, in words of 64
bits, and when there is more than one word, one bit for each word in a summary.  A mark that
finds its word empty announces the word in the summary, and a mark that finds its bit clear
rings the owner.

A harvest takes the announced words, polls the futures whose bits it finds, and puts back what
it took and did not visit.  It visits the summary words, the words and the bits in circular
order from a cursor, and so holds back the part of the first summary word and of the first
word that stands before the cursor.

Every access to a shared location is one step, and so are the registration and the ringing of
the owner.  Any number of notifiers run beside the owner.
-/

open Checked

namespace Grommet.Outstanding

abbrev Word := BitVec 64

/-- A waker, known by its identity. -/
abbrev Waker := ℕ

def WORD_BITS : ℕ := 64

/-- Ready words the summary can address. -/
def MAX_WORDS : ℕ := 1024

/-- Maximum supported population. -/
def MAX_CAPACITY : ℕ := WORD_BITS * MAX_WORDS

def divCeil (n d : ℕ) : ℕ := (n + d - 1) / d

/-- The word of the lowest bits. -/
def lowMask (bits : ℕ) : Word :=
  if bits = 0 then 0#64
  else if 64 ≤ bits then BitVec.allOnes 64
  else (1#64 <<< bits) - 1#64

/-- The word of one bit. -/
def oneBit (bit : ℕ) : Word := 1#64 <<< bit

def trailingZeros (word : Word) : ℕ := word.ctz.toNat

/-! ### Readiness -/

/-- Readiness shared with every slot waker. -/
structure ReadySet where
  words : ℕ → Word
  /-- One bit for each ready word. -/
  summary : ℕ → Word
  slots : ℕ

namespace ReadySet

def new (slots : ℕ) : Checked ReadySet := do
  assert (slots ≤ MAX_CAPACITY) "Outstanding capacity exceeds the maximum"
  .ok ⟨fun _ => 0#64, fun _ => 0#64, slots⟩

/-- The number of ready words. -/
def wordCount (r : ReadySet) : ℕ := divCeil r.slots WORD_BITS

/-- The number of summary words in use, which is zero when there is one ready word. -/
def summaries (r : ReadySet) : ℕ :=
  if 1 < r.wordCount then divCeil r.wordCount WORD_BITS else 0

/-- The bits of a summary word that name ready words. -/
def summaryMask (r : ReadySet) (summary : ℕ) : Word :=
  let remainder := r.wordCount % WORD_BITS
  if summary + 1 = r.summaries ∧ remainder ≠ 0 then lowMask remainder else BitVec.allOnes 64

/-- The bits of a ready word that name slots. -/
def validMask (r : ReadySet) (word : ℕ) : Word :=
  let remainder := r.slots % WORD_BITS
  if word + 1 = r.wordCount ∧ remainder ≠ 0 then lowMask remainder else BitVec.allOnes 64

/-- Set bits of a ready word. -/
def fetchOr (r : ReadySet) (word : ℕ) (bits : Word) : ReadySet :=
  { r with words := Function.update r.words word (r.words word ||| bits) }

/-- Set bits of a summary word. -/
def fetchOrSummary (r : ReadySet) (summary : ℕ) (bits : Word) : ReadySet :=
  { r with summary := Function.update r.summary summary (r.summary summary ||| bits) }

/-- Whether a word that had the given bits before is to be announced. -/
def announces (r : ReadySet) (previous : Word) : Bool :=
  previous = 0#64 && r.summaries ≠ 0

/-- Publish a word as non-empty. -/
def announce (r : ReadySet) (word : ℕ) : ReadySet :=
  r.fetchOrSummary (word / WORD_BITS) (oneBit (word % WORD_BITS))

/-- Take a ready word. -/
def takeWord (r : ReadySet) (word : ℕ) : ReadySet × Word :=
  ({ r with words := Function.update r.words word 0#64 }, r.words word &&& r.validMask word)

/-- Take a summary word. -/
def takeSummary (r : ReadySet) (summary : ℕ) : ReadySet × Word :=
  ({ r with summary := Function.update r.summary summary 0#64 },
    r.summary summary &&& r.summaryMask summary)

/-- Put the bits of a summary word back. -/
def restoreSummary (r : ReadySet) (summary : ℕ) (words : Word) : ReadySet :=
  let words := words &&& r.summaryMask summary
  if words ≠ 0#64 then r.fetchOrSummary summary words else r

/-- One load of `has_ready`: its answer, or that the next summary word is to be loaded. -/
def hasReady (r : ReadySet) (summary : ℕ) : Option Bool :=
  match r.wordCount with
  | 0 => some false
  | 1 => some (r.words 0 &&& r.validMask 0 ≠ 0#64)
  | _ =>
      if r.summary summary &&& r.summaryMask summary ≠ 0#64 then
        some true
      else if summary + 1 < r.summaries then
        none
      else
        some false

end ReadySet

/-! ### The owner -/

/-- Where the owner can be reached. -/
structure Doorbell where
  owner : Option Waker
  closed : Bool
  deriving DecidableEq

/-- Wake the registered owner, unless the receiver has gone. -/
def Doorbell.ring (bell : Doorbell) : Doorbell :=
  if bell.closed then bell else { bell with owner := none }

/-- Whether a ring wakes the owner. -/
def Doorbell.wakes (bell : Doorbell) : Bool := !bell.closed && bell.owner.isSome

/-- Result of one harvest pass. -/
structure Harvest where
  polled : ℕ
  finished : ℕ
  moreReady : Bool
  deriving DecidableEq

/-- The readiness that a harvest has taken and not visited. -/
structure Guard where
  summaryIndex : ℕ
  summary : Word
  /-- The part of the first summary word that stands before the cursor. -/
  deferredSummaryIndex : ℕ
  deferredSummary : Word
  currentWord : ℕ
  currentBits : Word
  /-- The part of the first word that stands before the cursor. -/
  deferredWord : ℕ
  deferredBits : Word
  deriving DecidableEq

namespace Guard

def new : Guard := ⟨0, 0#64, 0, 0#64, 0, 0#64, 0, 0#64⟩

def setSummary (g : Guard) (index : ℕ) (words : Word) : Guard :=
  { g with summaryIndex := index, summary := words }

def deferSummary (g : Guard) (index : ℕ) (words : Word) : Guard :=
  { g with deferredSummaryIndex := index, deferredSummary := words }

def activateDeferredSummary (g : Guard) : Guard :=
  { g with
    summaryIndex := g.deferredSummaryIndex
    summary := g.deferredSummary
    deferredSummary := 0#64 }

/-- Take the next announced word from the summary word in hand. -/
def nextAnnounced (g : Guard) : Option (ℕ × Guard) :=
  if g.summary = 0#64 then
    none
  else
    some (g.summaryIndex * WORD_BITS + trailingZeros g.summary,
      { g with summary := g.summary &&& (g.summary - 1#64) })

def setCurrent (g : Guard) (word : ℕ) (bits : Word) : Guard :=
  { g with currentWord := word, currentBits := bits }

def setDeferred (g : Guard) (word : ℕ) (bits : Word) : Guard :=
  { g with deferredWord := word, deferredBits := bits }

def activateDeferred (g : Guard) : Guard :=
  { g with currentWord := g.deferredWord, currentBits := g.deferredBits, deferredBits := 0#64 }

/-- Whether there is anything to put back. -/
def hadWork (g : Guard) : Bool :=
  g.currentBits ≠ 0#64 || g.deferredBits ≠ 0#64 || g.summary ≠ 0#64 || g.deferredSummary ≠ 0#64

end Guard

/-- A harvest under way. -/
structure Pass where
  cap : ℕ
  startWord : ℕ
  startBit : ℕ
  guard : Guard
  report : Harvest
  deriving DecidableEq

/-- Where a harvest goes on when the bits of the current word are visited. -/
inductive Next where
  /-- The only word: the bits before the cursor are left. -/
  | single
  /-- The announced words of a summary word before the rotation wraps. -/
  | rotate (step : ℕ)
  /-- The announced words before the cursor. -/
  | wrap
  /-- Nothing is left. -/
  | last
  deriving DecidableEq

/-- What a guard puts back, in order. -/
inductive Restore where
  | current
  | announceCurrent
  | deferred
  | announceDeferred
  | summary
  | deferredSummary
  | ring
  deriving DecidableEq

/-- Where the owner stands: at the shared location it accesses next. -/
inductive Phase where
  | idle
  /-- A push marks its slot. -/
  | marking (slot : ℕ)
  | announcing (word : ℕ)
  | taking (pass : Pass)
  | takingSummary (pass : Pass) (step : ℕ)
  | takingStart (pass : Pass)
  | takingWord (pass : Pass) (word : ℕ) (next : Next)
  | polling (pass : Pass) (next : Next)
  | restoring (pass : Pass) (part : Restore) (wakeOwner hadWork : Bool)
  | checking (summary : ℕ) (report : Harvest)
  /-- The set has been dropped. -/
  | gone
  deriving DecidableEq

namespace Pass

def setGuard (p : Pass) (guard : Guard) : Pass := { p with guard := guard }

/-- The words behind the cursor in its own summary word, then the bits behind the cursor. -/
def wrapUp (p : Pass) : Phase :=
  match p.guard.nextAnnounced with
  | some (word, guard) => .takingWord (p.setGuard guard) word .wrap
  | none => .polling (p.setGuard p.guard.activateDeferred) .last

/-- What is accessed when the bits of the current word are visited. -/
def resume (p : Pass) (summaries : ℕ) : Next → Phase
  | .single => .polling (p.setGuard p.guard.activateDeferred) .last
  | .rotate step =>
      match p.guard.nextAnnounced with
      | some (word, guard) => .takingWord (p.setGuard guard) word (.rotate step)
      | none =>
          if step + 1 < summaries then
            .takingSummary p (step + 1)
          else
            (p.setGuard p.guard.activateDeferredSummary).wrapUp
  | .wrap => p.wrapUp
  | .last => .checking 0 p.report

/-- The slot of the lowest bit of the current word. -/
def index (p : Pass) : ℕ := p.guard.currentWord * WORD_BITS + trailingZeros p.guard.currentBits

/-- The lowest bit of the current word is visited. -/
def visited (p : Pass) : Pass :=
  p.setGuard { p.guard with
    currentBits := p.guard.currentBits &&& ~~~oneBit (trailingZeros p.guard.currentBits) }

/-- A future was polled. -/
def polled (p : Pass) : Pass :=
  { p with report := { p.report with polled := p.report.polled + 1 } }

/-- A future finished and its output was handed on. -/
def finished (p : Pass) : Pass :=
  { p with report := { p.report with finished := p.report.finished + 1 } }

/-- The harvest ends before everything is visited. -/
def truncated (p : Pass) : Pass := { p with report := { p.report with moreReady := true } }

end Pass

/-! ### Owner and notifiers -/

/-- Where a notifier stands. -/
inductive Stage where
  | idle
  /-- The set was open. -/
  | marking (slot : ℕ)
  | announcing (word : ℕ)
  | ringing
  deriving DecidableEq

/-- An outstanding set, its owner and the notifiers. -/
structure System (ν : Type) where
  ready : ReadySet
  bell : Doorbell
  occupied : ℕ → Bool
  free : List ℕ
  live : ℕ
  cursor : ℕ
  phase : Phase
  stage : ν → Stage

/-- What is seen of a step. -/
inductive Event where
  | register (waker : Waker)
  /-- The owner was woken. -/
  | woken
  | push
  /-- A harvest returned. -/
  | reported (report : Harvest)
  | close
  | other
  deriving DecidableEq

variable {ν : Type}

namespace System

/-- Construct and fully allocate a set of fixed capacity. -/
def withCapacity (capacity : ℕ) : Checked (System ν) := do
  let ready ← ReadySet.new capacity
  .ok {
    ready := ready
    bell := ⟨none, false⟩
    occupied := fun _ => false
    free := List.range capacity
    live := 0
    cursor := 0
    phase := .idle
    stage := fun _ => .idle }

def capacity (s : System ν) : ℕ := s.ready.slots

def setPhase (s : System ν) (phase : Phase) : System ν := { s with phase := phase }

def setStage [DecidableEq ν] (s : System ν) (n : ν) (stage : Stage) : System ν :=
  { s with stage := Function.update s.stage n stage }

/-- The access with which a harvest begins. -/
def begin (s : System ν) (cap : ℕ) : Phase :=
  let pass : Pass := {
    cap := cap
    startWord := s.cursor / WORD_BITS
    startBit := s.cursor % WORD_BITS
    guard := Guard.new
    report := ⟨0, 0, false⟩ }
  if cap = 0 ∨ s.capacity = 0 then .checking 0 pass.report
  else if s.ready.wordCount = 1 then .taking pass
  else .takingSummary pass 0

/-- The cursor moves behind a slot. -/
def advanceCursor (s : System ν) (index : ℕ) : System ν :=
  { s with cursor := if index + 1 = s.capacity then 0 else index + 1 }

/-- Drop a completed future and free its slot. -/
def remove (s : System ν) (index : ℕ) : System ν :=
  { s with
    occupied := Function.update s.occupied index false
    free := index :: s.free
    live := s.live - 1 }

/-- The doorbell is rung. -/
def ring (s : System ν) : System ν := { s with bell := s.bell.ring }

/-- What is seen of a ring. -/
def rung (s : System ν) : Event := if s.bell.wakes then .woken else .other

/-- Where a notifier goes after it marked a slot. -/
def marked (s : System ν) (slot : ℕ) : Stage :=
  let previous := s.ready.words (slot / WORD_BITS)
  if s.ready.announces previous then .announcing (slot / WORD_BITS)
  else if previous &&& oneBit (slot % WORD_BITS) = 0#64 then .ringing
  else .idle

/-- The bit of a slot is set. -/
def mark (s : System ν) (slot : ℕ) : System ν :=
  { s with ready := s.ready.fetchOr (slot / WORD_BITS) (oneBit (slot % WORD_BITS)) }

/-- A word is announced. -/
def announce (s : System ν) (word : ℕ) : System ν := { s with ready := s.ready.announce word }

/-- A future is stored in the last slot freed. -/
def insert (s : System ν) (index : ℕ) (rest : List ℕ) : System ν :=
  { s with
    occupied := Function.update s.occupied index true
    free := rest
    live := s.live + 1
    phase := .marking index }

/-- Take a word and split it at the cursor. -/
def takeSplit (s : System ν) (pass : Pass) (word : ℕ) (next : Next) : System ν :=
  let (ready, bits) := s.ready.takeWord word
  let guard := pass.guard.setDeferred word (bits &&& lowMask pass.startBit)
  let guard := guard.setCurrent word (bits &&& ~~~lowMask pass.startBit)
  { s with ready := ready, phase := .polling (pass.setGuard guard) next }

/-- Take the summary word of the cursor and split it at the word of the cursor. -/
def takeFirst (s : System ν) (pass : Pass) : System ν :=
  let startSummary := pass.startWord / WORD_BITS
  let startWordBit := pass.startWord % WORD_BITS
  let (ready, announced) := s.ready.takeSummary startSummary
  let guard := pass.guard.deferSummary startSummary (announced &&& lowMask startWordBit)
  let guard := guard.setSummary startSummary (announced &&& ~~~lowMask startWordBit)
  let phase :=
    if guard.summary &&& oneBit startWordBit ≠ 0#64 then
      .takingStart (pass.setGuard { guard with summary := guard.summary &&& ~~~oneBit startWordBit })
    else
      (pass.setGuard guard).resume s.ready.summaries (.rotate 0)
  { s with ready := ready, phase := phase }

/-- Take a later summary word of the rotation. -/
def takeSummary (s : System ν) (pass : Pass) (step : ℕ) : System ν :=
  let summary := (pass.startWord / WORD_BITS + step) % s.ready.summaries
  let (ready, announced) := s.ready.takeSummary summary
  let guard := pass.guard.setSummary summary announced
  { s with
    ready := ready
    phase := (pass.setGuard guard).resume s.ready.summaries (.rotate step) }

/-- Take an announced word. -/
def takeWord (s : System ν) (pass : Pass) (word : ℕ) (next : Next) : System ν :=
  let (ready, bits) := s.ready.takeWord word
  { s with ready := ready, phase := .polling (pass.setGuard (pass.guard.setCurrent word bits)) next }

/-- The guard begins to put back what it holds. -/
def restore (s : System ν) (pass : Pass) (wakeOwner : Bool) : System ν :=
  s.setPhase (.restoring pass .current wakeOwner pass.guard.hadWork)

/-- Put back the bits of a word, and go on. -/
def restoreWord (s : System ν) (word : ℕ) (bits : Word) (announce next : Phase) : System ν :=
  let bits := bits &&& s.ready.validMask word
  if bits = 0#64 then
    s.setPhase next
  else
    { s with
      ready := s.ready.fetchOr word bits
      phase := if s.ready.announces (s.ready.words word) then announce else next }

/-- Put back the bits of a summary word. -/
def restoreSummary (s : System ν) (summary : ℕ) (words : Word) : System ν :=
  { s with ready := s.ready.restoreSummary summary words }

/-- The guard has put everything back. -/
def restored (s : System ν) (pass : Pass) (wakeOwner hadWork : Bool) : System ν :=
  s.setPhase (if wakeOwner && hadWork then .restoring pass .ring wakeOwner hadWork else .idle)

end System

/-- One step of the owner or of a notifier. -/
inductive Step [DecidableEq ν] (s : System ν) : Event → System ν → Prop
  /-- A slot waker finds the set closed. -/
  | notifyClosed {n : ν} {slot : ℕ} : s.stage n = .idle → slot < s.capacity →
      s.bell.closed = true → Step s .other s
  | notify {n : ν} {slot : ℕ} : s.stage n = .idle → slot < s.capacity →
      s.bell.closed = false → Step s .other (s.setStage n (.marking slot))
  | mark {n : ν} {slot : ℕ} : s.stage n = .marking slot →
      Step s .other ((s.mark slot).setStage n (s.marked slot))
  | announce {n : ν} {word : ℕ} : s.stage n = .announcing word →
      Step s .other ((s.announce word).setStage n .ringing)
  | ring {n : ν} : s.stage n = .ringing → Step s s.rung (s.ring.setStage n .idle)
  | register {waker : Waker} : s.phase = .idle →
      Step s (.register waker) { s with bell := { s.bell with owner := some waker } }
  | push {index : ℕ} {rest : List ℕ} : s.phase = .idle → s.free = index :: rest →
      Step s .push (s.insert index rest)
  | pushFull : s.phase = .idle → s.free = [] → Step s .other s
  | pushMark {slot : ℕ} : s.phase = .marking slot →
      Step s .other ((s.mark slot).setPhase
        (if s.ready.announces (s.ready.words (slot / WORD_BITS)) then .announcing (slot / WORD_BITS)
          else .idle))
  | pushAnnounce {word : ℕ} : s.phase = .announcing word →
      Step s .other ((s.announce word).setPhase .idle)
  | harvest {cap : ℕ} : s.phase = .idle → Step s .other (s.setPhase (s.begin cap))
  | takeSingle {pass : Pass} : s.phase = .taking pass → Step s .other (s.takeSplit pass 0 .single)
  | takeFirst {pass : Pass} : s.phase = .takingSummary pass 0 → Step s .other (s.takeFirst pass)
  | takeStart {pass : Pass} : s.phase = .takingStart pass →
      Step s .other (s.takeSplit pass pass.startWord (.rotate 0))
  | takeSummary {pass : Pass} {step : ℕ} : s.phase = .takingSummary pass (step + 1) →
      Step s .other (s.takeSummary pass (step + 1))
  | takeWord {pass : Pass} {word : ℕ} {next : Next} : s.phase = .takingWord pass word next →
      Step s .other (s.takeWord pass word next)
  /-- The bits of the current word are visited. -/
  | resume {pass : Pass} {next : Next} : s.phase = .polling pass next →
      pass.guard.currentBits = 0#64 → Step s .other (s.setPhase (pass.resume s.ready.summaries next))
  /-- A bit names no slot. -/
  | skip {pass : Pass} {next : Next} : s.phase = .polling pass next →
      pass.guard.currentBits ≠ 0#64 → s.capacity ≤ pass.index →
      Step s .other (s.setPhase (.polling pass.visited next))
  /-- A bit names a free slot. -/
  | stale {pass : Pass} {next : Next} : s.phase = .polling pass next →
      pass.guard.currentBits ≠ 0#64 → pass.index < s.capacity → s.occupied pass.index = false →
      Step s .other ((s.advanceCursor pass.index).setPhase (.polling pass.visited next))
  /-- As many futures were polled as may be. -/
  | truncate {pass : Pass} {next : Next} : s.phase = .polling pass next →
      pass.guard.currentBits ≠ 0#64 → pass.index < s.capacity → s.occupied pass.index = true →
      pass.report.polled = pass.cap → Step s .other (s.restore pass.truncated false)
  /-- A future is polled and is not ready. -/
  | pending {pass : Pass} {next : Next} : s.phase = .polling pass next →
      pass.guard.currentBits ≠ 0#64 → pass.index < s.capacity → s.occupied pass.index = true →
      pass.report.polled ≠ pass.cap →
      Step s .other ((s.advanceCursor pass.index).setPhase (.polling pass.polled.visited next))
  | finished {pass : Pass} {next : Next} : s.phase = .polling pass next →
      pass.guard.currentBits ≠ 0#64 → pass.index < s.capacity → s.occupied pass.index = true →
      pass.report.polled ≠ pass.cap →
      Step s .other (((s.remove pass.index).advanceCursor pass.index).setPhase
        (.polling pass.polled.finished.visited next))
  /-- A future panics. -/
  | pollPanics {pass : Pass} {next : Next} : s.phase = .polling pass next →
      pass.guard.currentBits ≠ 0#64 → pass.index < s.capacity → s.occupied pass.index = true →
      pass.report.polled ≠ pass.cap → Step s .other (s.restore pass.polled true)
  /-- The callback that takes the output of a future panics. -/
  | outPanics {pass : Pass} {next : Next} : s.phase = .polling pass next →
      pass.guard.currentBits ≠ 0#64 → pass.index < s.capacity → s.occupied pass.index = true →
      pass.report.polled ≠ pass.cap →
      Step s .other ((s.remove pass.index).restore pass.polled true)
  | restoreCurrent {pass : Pass} {wakeOwner hadWork : Bool} :
      s.phase = .restoring pass .current wakeOwner hadWork →
      Step s .other (s.restoreWord pass.guard.currentWord pass.guard.currentBits
        (.restoring pass .announceCurrent wakeOwner hadWork)
        (.restoring pass .deferred wakeOwner hadWork))
  | announceCurrent {pass : Pass} {wakeOwner hadWork : Bool} :
      s.phase = .restoring pass .announceCurrent wakeOwner hadWork →
      Step s .other ((s.announce pass.guard.currentWord).setPhase
        (.restoring pass .deferred wakeOwner hadWork))
  | restoreDeferred {pass : Pass} {wakeOwner hadWork : Bool} :
      s.phase = .restoring pass .deferred wakeOwner hadWork →
      Step s .other (s.restoreWord pass.guard.deferredWord pass.guard.deferredBits
        (.restoring pass .announceDeferred wakeOwner hadWork)
        (.restoring pass .summary wakeOwner hadWork))
  | announceDeferred {pass : Pass} {wakeOwner hadWork : Bool} :
      s.phase = .restoring pass .announceDeferred wakeOwner hadWork →
      Step s .other ((s.announce pass.guard.deferredWord).setPhase
        (.restoring pass .summary wakeOwner hadWork))
  | restoreSummary {pass : Pass} {wakeOwner hadWork : Bool} :
      s.phase = .restoring pass .summary wakeOwner hadWork →
      Step s .other ((s.restoreSummary pass.guard.summaryIndex pass.guard.summary).setPhase
        (.restoring pass .deferredSummary wakeOwner hadWork))
  | restoreDeferredSummary {pass : Pass} {wakeOwner hadWork : Bool} :
      s.phase = .restoring pass .deferredSummary wakeOwner hadWork →
      Step s (if wakeOwner then .other else .reported pass.report)
        ((s.restoreSummary pass.guard.deferredSummaryIndex pass.guard.deferredSummary).restored
          pass wakeOwner hadWork)
  | restoreRing {pass : Pass} {wakeOwner hadWork : Bool} :
      s.phase = .restoring pass .ring wakeOwner hadWork → Step s s.rung (s.ring.setPhase .idle)
  | check {summary : ℕ} {report : Harvest} : s.phase = .checking summary report →
      s.ready.hasReady summary = none → Step s .other (s.setPhase (.checking (summary + 1) report))
  | report {summary : ℕ} {report : Harvest} {more : Bool} : s.phase = .checking summary report →
      s.ready.hasReady summary = some more →
      Step s (.reported { report with moreReady := more }) (s.setPhase .idle)
  /-- The set is dropped. -/
  | close : s.phase = .idle →
      Step s .close { s with bell := ⟨none, true⟩, phase := .gone }

/-! ### What a parked owner has seen -/

/-- What the owner may rely on: it has registered and has not been woken since, and then a
harvest reported nothing more, with no push after it. -/
inductive Watch where
  | none
  | registered
  | settled
  deriving DecidableEq

def Watch.note : Watch → Event → Watch
  | _, .woken => .none
  | _, .close => .none
  | .none, .register _ => .registered
  | .registered, .reported report => if report.moreReady then .registered else .settled
  | .settled, .push => .registered
  | watch, _ => watch

/-- What the owner may rely on after a run. -/
def watch (trace : List Event) : Watch := trace.foldl Watch.note .none

end Grommet.Outstanding
