import Ebb.Foundation.Machine
import Ebb.Server.CommitPipeline

namespace Ebb.Server

/-! The Writer, its Committer pool, the readers of the entity cache and the
restarts of the storage tree, as one machine. Each event is one step of one
process; the processes interleave freely between them. -/

/-! ## State -/

/-- A durable write handed to a Committer that has neither landed nor failed. It
may outlive the batch it was dispatched for. -/
structure Job where
  ref : Nat
  gsnStart : Nat
  prepared : List PreparedAction
deriving DecidableEq

/-- What the Writer process is in the middle of. Planning reads the dedup index
before it claims ids, and an abandon rebuilds the prepared successors one by one,
clearing each one's marks before it places new ones. -/
inductive WriterTask where
  | idle
  | planning (tagged : List PreparedAction)
  | rebuilding (refs : List Nat)
  | remarking (ref : Nat) (refs : List Nat)
deriving DecidableEq

/-- How far one `EntityStore.get` has come. The observed mark is carried to the
compare-and-clear at the end. -/
inductive ReaderPhase where
  | started
  | clean
  | dirty
  | observed (mark : Option Mark)
  | fetched (mark : Option Mark) (row : Option Nat)
  | scanned (mark : Option Mark) (row : Option Nat) (gsns : List Nat)
  | written (mark : Option Mark) (result : Option Nat)
  | returned (lastGsn : Option Nat)
deriving DecidableEq

/-- A read of one entity, with the GSNs of the Actions touching the entity that
were durable when it started. -/
structure Reader where
  entity : String
  durableBefore : List Nat
  phase : ReaderPhase
deriving DecidableEq

structure StorageTree where
  /-- `cf_actions`, keyed by GSN. -/
  actions : List (Nat × PreparedAction)
  /-- `cf_action_dedup`, keyed by Action id. -/
  dedup : List (String × Nat)
  /-- `cf_entity_actions`: an entity with the GSN of an Action touching it. -/
  entityActions : List (String × Nat)
  /-- The `last_gsn` column of the SQLite rows. -/
  rows : String → Option Nat
  counter : Nat
  frontier : WatermarkTracker
  inFlight : List String
  marks : DirtyTracker.Marks
  nextGeneration : Nat
  nextRef : Nat
  task : WriterTask
  batches : List Batch
  jobs : List Job
  /-- Successful results on their way to the Writer. -/
  acks : List Nat
  readers : List Reader
  /-- Every watermark handed to a client as a position. -/
  handed : List Nat

def StorageTree.initial : StorageTree where
  actions := []
  dedup := []
  entityActions := []
  rows := fun _ => none
  counter := 0
  frontier := { watermark := 0, ranges := [] }
  inFlight := []
  marks := fun _ => none
  nextGeneration := 1
  nextRef := 0
  task := .idle
  batches := []
  jobs := []
  acks := []
  readers := []
  handed := []

inductive Event where
  | plan (burst : List PreparedAction)
  | claim
  | dispatch
  | land (ref : Nat)
  | reject (ref : Nat)
  | ack (ref : Nat)
  | apply
  | abandon (ref : Nat)
  | rebuild
  | startRead (entity : String)
  | advanceRead (index : Nat)
  | handPosition
  | restartWriter
  | restartWatermarkTracker
  | restartSystemCache
  | restartNode
deriving DecidableEq

def Event.isRestart : Event → Bool
  | .restartWriter | .restartWatermarkTracker | .restartSystemCache | .restartNode => true
  | _ => false

namespace StorageTree

/-- The highest GSN of `cf_actions`, or 0 when it is empty. -/
def maxGsn (actions : List (Nat × PreparedAction)) : Nat :=
  (actions.map Prod.fst).foldr max 0

/-- The GSNs of the durable Actions touching an entity. -/
def entityGsns (entityActions : List (String × Nat)) (entity : String) : List Nat :=
  (entityActions.filter fun row => row.1 = entity).map Prod.snd

/-- One atomic `write_batch`: log records, dedup rows and entity index together. -/
def write (job : Job) (s : StorageTree) : StorageTree :=
  { s with
    actions := (gsnEntries job.gsnStart job.prepared).foldl
      (fun actions entry => setEntry entry.1 entry.2 actions) s.actions
    dedup := (gsnEntries job.gsnStart job.prepared).foldl
      (fun dedup entry => setEntry entry.2.id entry.1 dedup) s.dedup
    entityActions := s.entityActions ++
      (gsnEntries job.gsnStart job.prepared).flatMap fun entry =>
        entry.2.affectedEntities.map fun entity => (entity, entry.1) }

/-! ## Writer -/

def uniqById : List PreparedAction → List PreparedAction
  | [] => []
  | action :: rest => action :: (uniqById rest).filter fun other => other.id ≠ action.id

def dropCommitted (dedup : List (String × Nat)) (tagged : List PreparedAction) :
    List PreparedAction :=
  tagged.filter fun action => (dedup.lookup action.id).isNone

def plan (maxInFlight : Nat) (burst : List PreparedAction) (s : StorageTree) : Option StorageTree :=
  if s.task = .idle ∧ s.batches.length < maxInFlight then
    some { s with
      task := .planning (dropCommitted s.dedup
        (uniqById (burst.filter fun action => action.affectedEntities ≠ []))) }
  else none

/-- Claim the ids no other batch holds, then a GSN range for them, and place the
provisional marks of the new batch. -/
def claim (s : StorageTree) : Option StorageTree :=
  match s.task with
  | .planning tagged =>
      let (claimed, inFlight) :=
        InFlightActions.claim (tagged.map PreparedAction.id) s.inFlight
      let fresh := tagged.filter fun action => action.id ∈ claimed
      if fresh = [] then some { s with task := .idle, inFlight }
      else
        let ((gsnStart, _), counter) := GsnCounter.claimGsnRange fresh.length s.counter
        let batch : Batch :=
          { ref := s.nextRef, gsnStart, prepared := fresh,
            generation := s.nextGeneration, phase := .prepared }
        some { s with
          task := .idle
          inFlight
          counter
          marks := DirtyTracker.markPendingBatch batch.entities s.nextGeneration s.marks
          nextGeneration := s.nextGeneration + 1
          nextRef := s.nextRef + 1
          batches := s.batches ++ [batch] }
  | _ => none

def dispatch (s : StorageTree) : Option StorageTree :=
  if s.task = .idle then
    match CommitPipeline.readyBatch s.batches with
    | none => none
    | some batch => some { s with
        batches := CommitPipeline.setPhase s.batches batch.ref .committing
        jobs := s.jobs ++
          [{ ref := batch.ref, gsnStart := batch.gsnStart, prepared := batch.prepared }] }
  else none

def landingJobs (s : StorageTree) : Event → List Job
  | .land ref => s.jobs.filter fun job => job.ref = ref
  | _ => []

def land (ref : Nat) (s : StorageTree) : Option StorageTree :=
  match s.jobs.find? fun job => job.ref = ref with
  | none => none
  | some job => some { s.write job with
      jobs := s.jobs.filter fun job => job.ref ≠ ref
      acks := ref :: s.acks }

def resolve (batch : Batch) (frontier : WatermarkTracker) : WatermarkTracker :=
  (frontier.markRangeCommitted batch.gsnStart batch.gsnEnd).advanceWatermark

/-- Give up on a batch: release its ids, clear its provisional marks, resolve its
range, and queue the prepared successors for a rebuild. -/
def abandonBatch (batch : Batch) (s : StorageTree) : StorageTree :=
  { s with
    batches := CommitPipeline.prune s.batches batch.ref
    inFlight := InFlightActions.release batch.actionIds s.inFlight
    marks := DirtyTracker.clearPendingBatch batch.entities batch.generation s.marks
    frontier := resolve batch s.frontier
    task := .rebuilding (((CommitPipeline.prune s.batches batch.ref).filter fun other =>
      other.phase = .prepared ∧ batch.gsnStart < other.gsnStart).map Batch.ref) }

/-- An abandon whose write is not known to have failed: a commit timeout, a crashed
worker, or a raise on the way. A dispatched write stays outstanding. -/
def abandon (ref : Nat) (s : StorageTree) : Option StorageTree :=
  if s.task = .idle then
    (CommitPipeline.get? s.batches ref).map fun batch => s.abandonBatch batch
  else none

def reject (ref : Nat) (s : StorageTree) : Option StorageTree :=
  if s.task = .idle ∧ ref ∈ s.jobs.map Job.ref then
    match CommitPipeline.get? s.batches ref with
    | some batch =>
        if batch.phase = .committing then
          some { s.abandonBatch batch with jobs := s.jobs.filter fun job => job.ref ≠ ref }
        else none
    | none => none
  else none

def ack (ref : Nat) (s : StorageTree) : Option StorageTree :=
  if s.task = .idle ∧ ref ∈ s.acks then
    match CommitPipeline.get? s.batches ref with
    | some batch =>
        if batch.phase = .committing then
          some { s with
            batches := CommitPipeline.setPhase s.batches ref .committed
            inFlight := InFlightActions.release batch.actionIds s.inFlight
            frontier := resolve batch s.frontier
            acks := s.acks.filter (· ≠ ref) }
        else none
    | none => none
  else none

/-- Apply and release the oldest batch once it is committed, settling its marks. -/
def apply (s : StorageTree) : Option StorageTree :=
  match s.task, s.batches with
  | .idle, batch :: rest =>
      if batch.phase = .committed then
        some { s with
          batches := rest
          marks := DirtyTracker.markDirtyBatch batch.entities s.nextGeneration s.marks
          nextGeneration := s.nextGeneration + 1 }
      else none
  | _, _ => none

def rebuild (s : StorageTree) : Option StorageTree :=
  match s.task with
  | .rebuilding [] => some { s with task := .idle }
  | .rebuilding (ref :: refs) =>
      match CommitPipeline.get? s.batches ref with
      | none => some { s with task := .rebuilding refs }
      | some batch => some { s with
          marks := DirtyTracker.clearPendingBatch batch.entities batch.generation s.marks
          task := .remarking ref refs }
  | .remarking ref refs =>
      match CommitPipeline.get? s.batches ref with
      | none => some { s with task := .rebuilding refs }
      | some batch => some { s with
          marks := DirtyTracker.markPendingBatch batch.entities s.nextGeneration s.marks
          nextGeneration := s.nextGeneration + 1
          batches := s.batches.map fun other =>
            if other.ref = ref then { other with generation := s.nextGeneration } else other
          task := .rebuilding refs }
  | _ => none

/-! ## Readers -/

def startRead (entity : String) (s : StorageTree) : StorageTree :=
  { s with
    readers := s.readers ++
      [{ entity, durableBefore := entityGsns s.entityActions entity, phase := .started }] }

/-- The guarded upsert: a row never goes back to a lower GSN. -/
def upsertRow (entity : String) (lastGsn : Nat) (rows : String → Option Nat) :
    String → Option Nat :=
  fun other =>
    if other = entity then
      match rows other with
      | some existing => if existing ≤ lastGsn then some lastGsn else some existing
      | none => some lastGsn
    else rows other

/-- One step of a read: its next phase, the rows and the marks. -/
def readStep (s : StorageTree) (reader : Reader) :
    Option (ReaderPhase × (String → Option Nat) × DirtyTracker.Marks) :=
  match reader.phase with
  | .started =>
      some (if s.marks reader.entity = none then .clean else .dirty, s.rows, s.marks)
  | .clean => some (.returned (s.rows reader.entity), s.rows, s.marks)
  | .dirty => some (.observed (s.marks reader.entity), s.rows, s.marks)
  | .observed mark => some (.fetched mark (s.rows reader.entity), s.rows, s.marks)
  | .fetched mark row =>
      some (.scanned mark row
        ((entityGsns s.entityActions reader.entity).filter (row.getD 0 < ·)), s.rows, s.marks)
  | .scanned mark row gsns =>
      if gsns = [] then some (.written mark row, s.rows, s.marks)
      else
        let lastGsn := gsns.foldr max 0
        some (.written mark (some lastGsn), upsertRow reader.entity lastGsn s.rows, s.marks)
  | .written mark result =>
      some (.returned result, s.rows,
        if DirtyTracker.isPending mark then s.marks
        else DirtyTracker.clearDirty reader.entity mark s.marks)
  | .returned _ => none

def advanceRead (index : Nat) (s : StorageTree) : Option StorageTree :=
  match s.readers[index]? with
  | none => none
  | some reader =>
      (s.readStep reader).map fun (phase, rows, marks) =>
        { s with
          rows
          marks
          readers := s.readers.set index { reader with phase } }

def handPosition (s : StorageTree) : StorageTree :=
  { s with handed := s.frontier.watermark :: s.handed }

/-! ## Restarts -/

/-- `Writer.init/1`: clear the surviving ids, settle the surviving marks, raise the
counter to the durable log and resolve everything below it. -/
def restartWriter (s : StorageTree) : StorageTree :=
  let counter := GsnCounter.reconcile s.counter (maxGsn s.actions)
  { s with
    inFlight := []
    marks := DirtyTracker.settleAllPending s.nextGeneration s.marks
    nextGeneration := s.nextGeneration + 1
    counter
    frontier :=
      if s.frontier.watermark < counter then
        (s.frontier.markRangeCommitted (s.frontier.watermark + 1) counter).advanceWatermark
      else s.frontier
    task := .idle
    batches := []
    acks := [] }

/-- The tracker seeds its watermark from the durable log, and everything started
after it restarts too. -/
def restartWatermarkTracker (s : StorageTree) : StorageTree :=
  { s with frontier := { watermark := maxGsn s.actions, ranges := [] } }.restartWriter

/-- The cache owner seeds a new counter from the durable log and marks every
indexed entity dirty. -/
def restartSystemCache (s : StorageTree) : StorageTree :=
  { s with
    counter := maxGsn s.actions
    marks := fun entity =>
      if entityGsns s.entityActions entity = [] then none else some (.settled s.nextGeneration)
    nextGeneration := s.nextGeneration + 1 }.restartWatermarkTracker

/-- The whole node restarts: outstanding writes and reads die with it. -/
def restartNode (s : StorageTree) : StorageTree :=
  { s with jobs := [], readers := [] }.restartSystemCache

def step (maxInFlight : Nat) (s : StorageTree) : Event → Option StorageTree
  | .plan burst => s.plan maxInFlight burst
  | .claim => s.claim
  | .dispatch => s.dispatch
  | .land ref => s.land ref
  | .reject ref => s.reject ref
  | .ack ref => s.ack ref
  | .apply => s.apply
  | .abandon ref => s.abandon ref
  | .rebuild => s.rebuild
  | .startRead entity => some (s.startRead entity)
  | .advanceRead index => s.advanceRead index
  | .handPosition => some s.handPosition
  | .restartWriter => some s.restartWriter
  | .restartWatermarkTracker => some s.restartWatermarkTracker
  | .restartSystemCache => some s.restartSystemCache
  | .restartNode => some s.restartNode

def machine (maxInFlight : Nat) : Machine StorageTree Event where
  initial := .initial
  step := step maxInFlight

end StorageTree

end Ebb.Server
