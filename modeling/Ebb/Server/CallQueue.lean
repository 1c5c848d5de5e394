import Ebb.Foundation.Machine
import Ebb.Foundation.OrderedMap
import Mathlib.Algebra.GroupWithZero.Nat

namespace Ebb.Server

/-! The calls of the Writer on their way to a reply: prepared in the pool, drained burst by
burst into the pending flush, claimed as a batch and committed. -/

namespace CallQueue

/-! ## State -/

structure EnqueuedAction where
  id : String
  /-- The Action carries Updates. -/
  writes : Bool
deriving DecidableEq

/-- One `write_actions/2` call, by the caller that waits for its reply. -/
structure Call where
  caller : Nat
  actions : List EnqueuedAction
deriving DecidableEq

/-- What the prepare stage left under a call's sequence number. -/
inductive Payload where
  | ready (call : Call)
  | skipped
deriving DecidableEq

inductive BatchPhase where
  | prepared
  | committing
  | committed
  | applying
deriving DecidableEq

structure OpenBatch where
  ref : Nat
  gsnStart : Nat
  pending : List Call
  actionIds : List String
  /-- Its cache plan changes how groups resolve. -/
  movesGroups : Bool
  phase : BatchPhase
deriving DecidableEq

structure Config where
  /-- No cap when zero. -/
  batchMaxSize : Nat
  maxInFlight : Nat
  prepareQueueMax : Nat
  commitTimeoutMs : Int
  someInFlight : 0 < maxInFlight

/-- What the storage answers while one message is handled, by batch. -/
structure Answers where
  /-- Preparing the batch plans a move between groups. -/
  moves : Nat → Bool
  /-- A commit run in the Writer itself lands. -/
  commits : Nat → Bool
  /-- The caches take a committed batch. -/
  applies : Nat → Bool
  /-- A batch that chained an abandoned one is prepared again. -/
  rebuilds : Nat → Bool

end CallQueue

structure CallQueue where
  nextCallSeq : Nat
  nextEnqueueSeq : Nat
  burstMaxSeq : Option Nat
  prepareFlushScheduled : Bool
  /-- The calls at a prepare worker, by sequence number. -/
  preparing : OrderedMap Nat CallQueue.Call
  prepared : OrderedMap Nat CallQueue.Payload
  /-- The calls of the next flush, newest first. -/
  pending : List CallQueue.Call
  flushScheduled : Bool
  /-- The open batches, oldest claim first. -/
  batches : List CallQueue.OpenBatch
  nextRef : Nat
  gsnCounter : Nat
  inFlight : List String
  /-- The ids with a dedup row. -/
  durable : List String
  /-- `:prepare_flush` and `:flush` messages that are queued or due by a timer. -/
  prepareMarkers : Nat
  flushMarkers : Nat
  /-- The calls that arrived so far. -/
  arrived : Nat
  /-- The callers that got a sequence number, in its order. -/
  accepted : List Nat
  /-- The callers whose calls were taken into a flush, in that order. -/
  flushed : List Nat
  /-- The callers that got a reply. -/
  replied : List Nat

namespace CallQueue

def initial (durable : List String) : CallQueue where
  nextCallSeq := 0
  nextEnqueueSeq := 0
  burstMaxSeq := none
  prepareFlushScheduled := false
  preparing := .empty
  prepared := .empty
  pending := []
  flushScheduled := false
  batches := []
  nextRef := 0
  gsnCounter := 0
  inFlight := []
  durable := durable
  prepareMarkers := 0
  flushMarkers := 0
  arrived := 0
  accepted := []
  flushed := []
  replied := []

variable (config : Config)

def reply (s : CallQueue) (callers : List Nat) : CallQueue :=
  { s with replied := s.replied ++ callers }

def callersOf (calls : List Call) : List Nat := calls.map Call.caller

/-! ## Flushing -/

def pendingCount (s : CallQueue) : Nat := (s.pending.map fun call => call.actions.length).sum

def atCapacity (s : CallQueue) : Bool := config.maxInFlight ≤ s.batches.length

def capReached (s : CallQueue) : Bool :=
  0 < config.batchMaxSize && config.batchMaxSize ≤ s.pendingCount

/-- The ids of the Actions a flush of these calls commits: those that write, once each,
neither durable nor in flight. -/
def plan (s : CallQueue) (pending : List Call) : List String :=
  (((pending.flatMap Call.actions).filter EnqueuedAction.writes).map EnqueuedAction.id).eraseDups.filter
    fun id => id ∉ s.durable ∧ id ∉ s.inFlight

def dispatch (answers : Answers) (pending : List Call) (fresh : List String) (s : CallQueue) :
    CallQueue :=
  { s with
    batches := s.batches ++ [{
      ref := s.nextRef
      gsnStart := s.gsnCounter + 1
      pending
      actionIds := fresh
      movesGroups := answers.moves s.nextRef
      phase := .prepared }]
    nextRef := s.nextRef + 1
    gsnCounter := s.gsnCounter + fresh.length
    inFlight := s.inFlight ++ fresh }

/-- Take the pending calls into one batch, which `startNext` then hands on; where nothing is
fresh they are all replied to. -/
def flush (startNext : CallQueue → CallQueue) (answers : Answers) (s : CallQueue) : CallQueue :=
  let pending := s.pending.reverse
  let taken := { s with
    pending := []
    flushScheduled := false
    flushed := s.flushed ++ callersOf pending }
  if s.plan pending = [] then taken.reply (callersOf pending)
  else startNext (taken.dispatch answers pending (s.plan pending))

/-- `schedule_flush/2` without a delay, which is how the Writer calls it. -/
def scheduleFlushNow (startNext : CallQueue → CallQueue) (answers : Answers) (s : CallQueue) :
    CallQueue :=
  if s.atCapacity config then s
  else if s.pending = [] then { s with flushScheduled := false }
  else if s.capReached config then s.flush startNext answers
  else if s.flushScheduled then s
  else { s with flushScheduled := true, flushMarkers := s.flushMarkers + 1 }

/-! ## Bursts -/

/-- Move the prepared prefix of the burst into the pipeline, up to the cap. Every round takes
one entry out of `prepared`, so their number is enough. -/
def takeBurst (last : Nat) : Nat → CallQueue → CallQueue
  | 0, s => s
  | fuel + 1, s =>
      if last < s.nextEnqueueSeq then s
      else if s.capReached config then s
      else
        let popped := { s with
          prepared := s.prepared.erase s.nextEnqueueSeq
          nextEnqueueSeq := s.nextEnqueueSeq + 1 }
        match s.prepared.get? s.nextEnqueueSeq with
        | none => s
        | some .skipped => takeBurst last fuel popped
        | some (.ready call) =>
            takeBurst last fuel { popped with pending := call :: s.pending }

def maybeSchedulePrepareFlush (s : CallQueue) : CallQueue :=
  if s.prepareFlushScheduled then s
  else if s.burstMaxSeq ≠ none then s
  else if s.preparing.entries.length + s.prepared.entries.length = 0 then s
  else { s with prepareFlushScheduled := true, prepareMarkers := s.prepareMarkers + 1 }

def advanceBurst (startNext : CallQueue → CallQueue) (answers : Answers) (s : CallQueue) :
    CallQueue :=
  match s.burstMaxSeq with
  | none => s
  | some last =>
      let taken := takeBurst config last (s.prepared.entries.length + 1) s
      if last < taken.nextEnqueueSeq then
        (scheduleFlushNow config startNext answers
          { taken with burstMaxSeq := none }).maybeSchedulePrepareFlush
      else if taken.capReached config then scheduleFlushNow config startNext answers taken
      else taken

/-! ## Batches -/

/-- Apply and notify the committed prefix: the callers replied to, the batches left, and
whether a cache refused a batch, which leaves it open. -/
def drainReleasable (answers : Answers) : List OpenBatch → List Nat × List OpenBatch × Bool
  | [] => ([], [], false)
  | batch :: rest =>
      if batch.phase = .committed then
        if answers.applies batch.ref then
          let (callers, remaining, escalated) := drainReleasable answers rest
          (callersOf batch.pending ++ callers, remaining, escalated)
        else (callersOf batch.pending, { batch with phase := .applying } :: rest, true)
      else ([], batch :: rest, false)

def advancePipeline (startNext : CallQueue → CallQueue) (answers : Answers) (s : CallQueue) :
    CallQueue :=
  let (callers, batches, escalated) := drainReleasable answers s.batches
  let drained := { s with batches }.reply callers
  if escalated then drained
  else
    let started := startNext (advanceBurst config startNext answers drained)
    (if started.burstMaxSeq = none then scheduleFlushNow config startNext answers started
      else started).maybeSchedulePrepareFlush

def setPhase (batches : List OpenBatch) (ref : Nat) (phase : BatchPhase) : List OpenBatch :=
  batches.map fun batch => if batch.ref = ref then { batch with phase } else batch

/-- The first prepared batch, unless a batch before it that may still abandon plans a move. -/
def readyBatch (batches : List OpenBatch) : Option OpenBatch :=
  (batches.find? fun batch => batch.phase = .prepared).filter fun batch =>
    (batches.takeWhile fun other => other.ref ≠ batch.ref).all fun other =>
      !((other.phase = .prepared || other.phase = .committing) && other.movesGroups)

def abandonBatch (s : CallQueue) (batch : OpenBatch) : CallQueue :=
  { s with
    batches := s.batches.filter fun other => other.ref ≠ batch.ref
    inFlight := s.inFlight.filter fun id => id ∉ batch.actionIds }

/-- Prepare the successors of an abandoned batch again; one that cannot be is abandoned. -/
def rebuildSuccessors (answers : Answers) (abandoned : OpenBatch) (s : CallQueue) : CallQueue :=
  (s.batches.filter fun batch =>
      batch.phase = .prepared ∧ abandoned.gsnStart < batch.gsnStart).foldl
    (fun s batch =>
      if answers.rebuilds batch.ref then
        { s with batches := s.batches.map fun other =>
            if other.ref = batch.ref then { other with movesGroups := answers.moves batch.ref }
            else other }
      else s.abandonBatch batch) s

/-- A commit result: the batch is durable, or its range is abandoned and its callers get the
failure. -/
def handleCommitResult (startNext : CallQueue → CallQueue) (answers : Answers) (landed : Bool)
    (batch : OpenBatch) (s : CallQueue) : CallQueue :=
  if landed then
    advancePipeline config startNext answers { s with
      batches := setPhase s.batches batch.ref .committed
      inFlight := s.inFlight.filter fun id => id ∉ batch.actionIds
      durable := s.durable ++ batch.actionIds }
  else
    advancePipeline config startNext answers
      (((s.abandonBatch batch).rebuildSuccessors answers batch).reply (callersOf batch.pending))

/-- One slot and no watchdog: the Writer commits a batch itself and handles the result at
once. -/
def commitsInline : Bool := config.maxInFlight = 1 && config.commitTimeoutMs ≤ 0

/-- Hand the next batch to a Committer. A commit in the Writer itself starts the next one
from the result of this one; `fuel` bounds how many. -/
def startNextCommit (answers : Answers) : Nat → CallQueue → CallQueue
  | 0, s => s
  | fuel + 1, s =>
      match readyBatch s.batches with
      | none => s
      | some batch =>
          let committing := { s with batches := setPhase s.batches batch.ref .committing }
          if commitsInline config then
            handleCommitResult config (startNextCommit answers fuel) answers
              (answers.commits batch.ref) batch committing
          else committing

def OpenBatch.waits (batch : OpenBatch) : Bool := batch.phase = .prepared

def queued (s : CallQueue) : Nat :=
  s.prepared.entries.length + s.pending.length + s.batches.countP OpenBatch.waits

/-- Every commit takes one of what is queued, so their number bounds the commits. -/
def startNext (answers : Answers) (s : CallQueue) : CallQueue :=
  startNextCommit config answers (s.queued + 1) s

/-! ## Messages -/

def prepareQueueFull (s : CallQueue) : Bool :=
  config.prepareQueueMax ≤ s.preparing.entries.length + s.prepared.entries.length

/-- Nothing else is in flight, so the Writer prepares the call itself. -/
def inlinePrepare (s : CallQueue) : Bool :=
  s.preparing.entries.isEmpty && s.prepared.entries.isEmpty && s.burstMaxSeq.isNone &&
    s.pendingCount = 0 && s.batches.isEmpty

/-- File the outcome of a prepare job; a call that failed is replied to and leaves a hole in
the sequence. -/
def filePayload (s : CallQueue) (seq : Nat) (call : Call) (built : Bool) : CallQueue :=
  if built then { s with prepared := s.prepared.set seq (.ready call) }
  else { s with prepared := s.prepared.set seq .skipped }.reply [call.caller]

inductive Event where
  /-- `write_actions/2`; `built` is the outcome of a prepare in the Writer itself. -/
  | call (actions : List EnqueuedAction) (built : Bool)
  /-- A prepare job ends with its payloads, fails, or times out. -/
  | prepareResult (seq : Nat) (built : Bool) (answers : Answers)
  | prepareFlush (answers : Answers)
  | flush (answers : Answers)
  | committerResult (ref : Nat) (landed : Bool) (answers : Answers)
  /-- The write of an abandoned range lands late. -/
  | lateWrite (actionIds : List String)

def accept (s : CallQueue) (caller : Nat) : CallQueue :=
  { s with nextCallSeq := s.nextCallSeq + 1, accepted := s.accepted ++ [caller] }

def handleCall (actions : List EnqueuedAction) (built : Bool) (s : CallQueue) : CallQueue :=
  let call : Call := { caller := s.arrived, actions }
  let arrived := { s with arrived := s.arrived + 1 }
  if actions = [] ∨ s.prepareQueueFull config then arrived.reply [call.caller]
  else if s.inlinePrepare then
    ((arrived.accept call.caller).filePayload s.nextCallSeq call built).maybeSchedulePrepareFlush
  else
    ({ arrived.accept call.caller with
      preparing := s.preparing.set s.nextCallSeq call }).maybeSchedulePrepareFlush

def handlePrepareResult (seq : Nat) (built : Bool) (answers : Answers) (s : CallQueue) : CallQueue :=
  match s.preparing.get? seq with
  | none => s
  | some call =>
      let filed := ({ s with preparing := s.preparing.erase seq }).filePayload seq call built
      advanceBurst config (startNext config answers) answers filed

def handlePrepareFlush (answers : Answers) (s : CallQueue) : CallQueue :=
  let cleared := { s with
    prepareFlushScheduled := false
    prepareMarkers := s.prepareMarkers - 1 }
  if s.burstMaxSeq ≠ none then cleared
  else if s.nextCallSeq = 0 then cleared
  else
    advanceBurst config (startNext config answers) answers
      { cleared with burstMaxSeq := some (s.nextCallSeq - 1) }

def handleFlush (answers : Answers) (s : CallQueue) : CallQueue :=
  let cleared := { s with flushScheduled := false, flushMarkers := s.flushMarkers - 1 }
  if cleared.atCapacity config then cleared
  else cleared.flush (startNext config answers) answers

def handleCommitterResult (ref : Nat) (landed : Bool) (answers : Answers) (s : CallQueue) :
    CallQueue :=
  match s.batches.find? fun batch => batch.ref = ref with
  | none => s
  | some batch =>
      if batch.phase = .committing then
        handleCommitResult config (startNext config answers) answers landed batch s
      else s

def step (s : CallQueue) : Event → Option CallQueue
  | .call actions built => some (s.handleCall config actions built)
  | .prepareResult seq built answers => some (s.handlePrepareResult config seq built answers)
  | .prepareFlush answers =>
      if s.prepareMarkers = 0 then none else some (s.handlePrepareFlush config answers)
  | .flush answers => if s.flushMarkers = 0 then none else some (s.handleFlush config answers)
  | .committerResult ref landed answers =>
      some (s.handleCommitterResult config ref landed answers)
  | .lateWrite actionIds => some { s with durable := s.durable ++ actionIds }

def machine (durable : List String) : Machine CallQueue Event where
  initial := initial durable
  step := step config

end CallQueue

end Ebb.Server
