import Ebb.Foundation.Machine
import Ebb.Storage.ContentChanged
import Ebb.Storage.Replica
import Ebb.Storage.ReverseIndex

namespace Ebb.Storage

/-! `createReplica` in full: the base rows with the composed views over them, the rows
opened on demand, the adjacency of the views and the journal of their changes. -/

/-! ## State -/

structure ReplicaChange where
  revision : Nat
  id : String
  type : String
  deleted : Bool
deriving DecidableEq

structure Pin where
  isOpen : Bool
  /-- The release of a closed row is scheduled. -/
  timer : Bool
deriving DecidableEq

/-- The options of a replica; an absent capacity is unbounded. -/
structure ReplicaOptions (V : Type) where
  holds : String → Bool
  journalCapacity : Option Nat
  pinnedCapacity : Option Nat
  /-- Closed rows wait before they leave. -/
  pinnedTtl : Bool
  /-- A reader of the local stores is installed. -/
  readEntity : Bool
  /-- The string a leaf object holds, if it holds one. -/
  asString : V → Option String
  journalPositive : ∀ capacity ∈ journalCapacity, 0 < capacity
  pinnedPositive : ∀ capacity ∈ pinnedCapacity, 0 < capacity

theorem journalPositive_default : ∀ capacity ∈ some 1024, 0 < capacity := by
  rintro capacity ⟨⟩
  decide

theorem pinnedPositive_default : ∀ capacity ∈ some 64, 0 < capacity := by
  rintro capacity ⟨⟩
  decide

structure ReplicaRecord (V : Type) where
  format : Nat
  position : Nat
  revision : Nat
  entities : List (Entity V)

structure LiveReplica (V : Type) where
  entities : OrderedMap String (Entity V)
  /-- The ids of the base rows by their type. -/
  typeIndex : OrderedMap String (List String)
  overlay : OrderedMap String (List (OptimisticWrite V))
  /-- The composed views of the overlaid ids. -/
  effective : OrderedMap String (Option (Entity V))
  orphans : OrderedMap String (List (OrphanUpdate V))
  /-- The least recently opened row first. -/
  pins : OrderedMap String Pin
  /-- The epoch of the cold read in flight for an id. -/
  inFlightOpens : OrderedMap String Nat
  openEpochs : OrderedMap String Nat
  nextOpenEpoch : Nat
  pendingOpens : OrderedMap String (List (OrphanUpdate V))
  /-- The reads that are not settled, cancelled or not. -/
  reads : List (String × Nat)
  /-- The retained changes, oldest first. -/
  journal : List ReplicaChange
  reverseIndex : ReverseIndex
  forwardIndex : ReverseIndex
  revision : Nat
  changeFloor : Nat
  lastPosition : Nat

namespace LiveReplica

def empty : LiveReplica V where
  entities := .empty
  typeIndex := .empty
  overlay := .empty
  effective := .empty
  orphans := .empty
  pins := .empty
  inFlightOpens := .empty
  openEpochs := .empty
  nextOpenEpoch := 0
  pendingOpens := .empty
  reads := []
  journal := []
  reverseIndex := .empty
  forwardIndex := .empty
  revision := 0
  changeFloor := 0
  lastPosition := 0

def addToType (types : OrderedMap String (List String)) (type id : String) :
    OrderedMap String (List String) :=
  match types.get? type with
  | none => types.set type [id]
  | some ids => types.set type (if id ∈ ids then ids else ids ++ [id])

def removeFromType (types : OrderedMap String (List String)) (type id : String) :
    OrderedMap String (List String) :=
  match types.get? type with
  | none => types
  | some ids => if ids.erase id = [] then types.erase type else types.set type (ids.erase id)

/-- Move an id between the types of two versions of its row. -/
def retype (types : OrderedMap String (List String)) (previous : Option (Entity V))
    (next : Entity V) (id : String) : OrderedMap String (List String) :=
  let left := match previous with
    | some row => if row.type ≠ next.type then removeFromType types row.type id else types
    | none => types
  addToType left next.type id

/-! ## Views -/

def viewOf (replica : LiveReplica V) (id : String) : Option (Entity V) :=
  match replica.effective.get? id with
  | some view => view
  | none => replica.entities.get? id

/-- The ids of the base rows of a type, with the views of the overlaid ids laid over. -/
def iterateIds (replica : LiveReplica V) (type : String) : List String :=
  replica.effective.entries.foldl
    (fun ids entry =>
      match entry.2 with
      | some row =>
          if row.type = type then (if entry.1 ∈ ids then ids else ids ++ [entry.1])
          else ids.erase entry.1
      | none => ids.erase entry.1)
    ((replica.typeIndex.get? type).getD [])

def iterate (replica : LiveReplica V) (type : String) : List (Entity V) :=
  (replica.iterateIds type).filterMap replica.viewOf

def composed (replica : LiveReplica V) (id : String) : Option (Entity V) :=
  ((replica.overlay.get? id).getD []).foldl
    (fun row write => applyUpdate row write.update 0 write.hlc) (replica.entities.get? id)

def changesSince (replica : LiveReplica V) (since : Nat) : List ReplicaChange :=
  if since < replica.changeFloor then []
  else replica.journal.filter fun change => since < change.revision

section Operations

variable (options : ReplicaOptions V)

def resident (replica : LiveReplica V) (row : Entity V) : Bool :=
  options.holds row.type || (replica.pins.get? row.id).isSome

/-- Drop what exceeds the capacity; the floor moves to the newest dropped change. -/
def trimJournal (replica : LiveReplica V) : LiveReplica V :=
  match options.journalCapacity with
  | none => replica
  | some capacity =>
      let excess := replica.journal.length - capacity
      match (replica.journal.take excess).getLast? with
      | none => replica
      | some dropped => { replica with
          journal := replica.journal.drop excess
          changeFloor := dropped.revision }

def bump (replica : LiveReplica V) (id type : String) (deleted : Bool) : LiveReplica V :=
  trimJournal options { replica with
    revision := replica.revision + 1
    journal := replica.journal ++ [{ revision := replica.revision + 1, id, type, deleted }] }

/-! ## Folding the base -/

def bufferUpdate (buffer : OrderedMap String (List (OrphanUpdate V)))
    (entry : OrphanUpdate V) : OrderedMap String (List (OrphanUpdate V)) :=
  buffer.set entry.update.subjectId ((buffer.get? entry.update.subjectId).getD [] ++ [entry])

def replayOrphans (replica : LiveReplica V) (id : String) (gsn : Nat) (next : Entity V) :
    LiveReplica V :=
  match replica.orphans.get? id with
  | none => replica
  | some pending =>
      let row := (Replica.survivors pending gsn).foldl Replica.replayOrphan next
      { replica with
        orphans := replica.orphans.erase id
        entities := replica.entities.set id row
        typeIndex := if next.type = row.type then replica.typeIndex
          else addToType (removeFromType replica.typeIndex next.type id) row.type id }

def foldBase (replica : LiveReplica V) (update : Update V) (gsn : Nat) (hlc : HLCTimestamp)
    (position : Nat) : LiveReplica V :=
  let id := update.subjectId
  let unwanted := !options.holds update.subjectType && (replica.pins.get? id).isNone
  if unwanted && (replica.inFlightOpens.get? id).isSome then
    { replica with
      pendingOpens := bufferUpdate replica.pendingOpens { update, gsn, hlc, position } }
  else
    let previous := replica.entities.get? id
    match applyUpdate previous update gsn hlc with
    | none =>
        if unwanted then replica
        else { replica with
          orphans := bufferUpdate replica.orphans { update, gsn, hlc, position } }
    | some next =>
        if replica.resident options next = false then { replica with
          entities := replica.entities.erase id
          typeIndex := match previous with
            | some row => removeFromType replica.typeIndex row.type id
            | none => replica.typeIndex
          orphans :=
            if update.method = .put then replica.orphans.erase id else replica.orphans }
        else
          let installed := { replica with
            entities := replica.entities.set id next
            typeIndex := retype replica.typeIndex previous next id }
          if update.method = .put then installed.replayOrphans id gsn next else installed

/-! ## Recomposing a view -/

def reconcileIndex (replica : LiveReplica V) (previous next : Option (Entity V)) :
    LiveReplica V :=
  { replica with
    reverseIndex := ReverseIndex.applyIndexDelta replica.reverseIndex
      (ReverseIndex.indexDelta (indexEntryFor options.asString) previous next)
    forwardIndex := ReverseIndex.applyIndexDelta replica.forwardIndex
      (ReverseIndex.indexDelta (forwardIndexEntryFor options.asString) previous next) }

def retained (replica : LiveReplica V) (id : String) : Option (Entity V) :=
  (replica.composed id).filter (replica.resident options)

/-- Install the composed view of an id and its adjacency. -/
def recompose (replica : LiveReplica V) (id : String) (previous : Option (Entity V)) :
    LiveReplica V :=
  let retained := replica.retained options id
  reconcileIndex options { replica with
    pins := if retained.all fun row => options.holds row.type then replica.pins.erase id
      else replica.pins
    effective := if (replica.overlay.get? id).getD [] = [] then replica.effective.erase id
      else replica.effective.set id retained } previous retained

variable [DecidableEq V]

def reported (previous next retained : Option (Entity V)) : Option (String × Bool) :=
  match retained with
  | some row =>
      if contentChanged previous (some row) then some (row.type, row.deletedHlc.isSome) else none
  | none =>
      match next with
      | some row => some (row.type, row.deletedHlc.isSome)
      | none => previous.map fun row => (row.type, true)

def resync (replica : LiveReplica V) (id : String) (previous : Option (Entity V)) :
    LiveReplica V :=
  match reported previous (replica.composed id) (replica.retained options id) with
  | some (type, deleted) => (replica.recompose options id previous).bump options id type deleted
  | none => replica.recompose options id previous

/-- Resync ids whose views before the call are known. -/
def resyncAll (before : String → Option (Entity V)) (ids : List String)
    (replica : LiveReplica V) : LiveReplica V :=
  ids.foldl (fun replica id => replica.resync options id (before id)) replica

/-! ## Writes -/

def overlaidBy (replica : LiveReplica V) (actionId : String) : List String :=
  replica.overlay.keys.filter fun id =>
    ((replica.overlay.get? id).getD []).any fun write => write.actionId == actionId

def dropOverlay (replica : LiveReplica V) (actionId : String) : LiveReplica V :=
  { replica with
    overlay := (replica.overlaidBy actionId).foldl (Replica.dropWrites actionId)
      replica.overlay }

def folded (replica : LiveReplica V) (action : Action V) (delta : List (Update V))
    (position : Nat) : LiveReplica V :=
  let folds := delta.foldl
    (fun replica update => replica.foldBase options update action.gsn action.hlc position)
    (replica.dropOverlay action.id)
  { folds with lastPosition := max folds.lastPosition position }

def touched (replica : LiveReplica V) (action : Action V) (delta : List (Update V)) :
    List String :=
  (delta.map Update.subjectId ++ replica.overlaidBy action.id).eraseDups

def ingest (replica : LiveReplica V) (action : Action V) (delta : List (Update V))
    (position : Nat) : LiveReplica V :=
  resyncAll options replica.viewOf (replica.touched action delta)
    (replica.folded options action delta position)

def overlaid (replica : LiveReplica V) (action : Action V) : LiveReplica V :=
  { replica with
    overlay := action.updates.foldl
      (fun overlay update => overlay.set update.subjectId
        ((overlay.get? update.subjectId).getD [] ++
          [{ actionId := action.id, update, hlc := action.hlc }])) replica.overlay }

def optimistic (replica : LiveReplica V) (action : Action V) : LiveReplica V :=
  resyncAll options replica.viewOf (action.updates.map Update.subjectId).eraseDups
    (replica.overlaid action)

def discard (replica : LiveReplica V) (actionId : String) : LiveReplica V :=
  resyncAll options replica.viewOf (replica.overlaidBy actionId) (replica.dropOverlay actionId)

/-! ## Residency -/

def cancelOpen (replica : LiveReplica V) (id : String) : LiveReplica V :=
  match replica.inFlightOpens.get? id with
  | none => replica
  | some _ => { replica with
      inFlightOpens := replica.inFlightOpens.erase id
      pendingOpens := replica.pendingOpens.erase id
      nextOpenEpoch := replica.nextOpenEpoch + 1
      openEpochs := replica.openEpochs.set id (replica.nextOpenEpoch + 1) }

def forget (replica : LiveReplica V) (id : String) : LiveReplica V :=
  let cancelled := replica.cancelOpen id
  reconcileIndex options { cancelled with
    pins := cancelled.pins.erase id
    pendingOpens := cancelled.pendingOpens.erase id
    entities := cancelled.entities.erase id
    overlay := cancelled.overlay.erase id
    effective := cancelled.effective.erase id
    orphans := cancelled.orphans.erase id
    typeIndex := match cancelled.entities.get? id with
      | some base => removeFromType cancelled.typeIndex base.type id
      | none => cancelled.typeIndex } (replica.viewOf id) none

def evictOne (replica : LiveReplica V) (id : String) : LiveReplica V :=
  match (replica.viewOf id).or (replica.entities.get? id) with
  | none => replica.forget options id
  | some row => (replica.forget options id).bump options id row.type true

def evict (replica : LiveReplica V) (ids : List String) : LiveReplica V :=
  ids.eraseDups.foldl (evictOne options) replica

def openPin (replica : LiveReplica V) (id : String) : LiveReplica V :=
  let pins := (replica.pins.erase id).set id { isOpen := true, timer := false }
  let doomed := match options.pinnedCapacity with
    | none => []
    | some capacity => pins.keys.take (pins.keys.length - capacity)
  evict options { replica with pins } doomed

def closePin (replica : LiveReplica V) (id : String) : LiveReplica V :=
  match replica.pins.get? id with
  | none => replica
  | some pin =>
      if pin.isOpen = false then replica
      else if options.pinnedTtl then
        { replica with pins := replica.pins.set id { isOpen := false, timer := true } }
      else
        evict options
          { replica with pins := replica.pins.set id { isOpen := false, timer := pin.timer } } [id]

def install (replica : LiveReplica V) (id : String) (row : Entity V)
    (buffered : List (OrphanUpdate V)) : LiveReplica V :=
  let opened := openPin options { replica with
    entities := replica.entities.set id row
    typeIndex := addToType replica.typeIndex row.type id } id
  (buffered.foldl (fun replica entry =>
    replica.foldBase options entry.update entry.gsn entry.hlc entry.position) opened).resync
      options id (replica.viewOf id)

/-- `open/1` up to its read of the local stores. -/
def openRow (replica : LiveReplica V) (id : String) : LiveReplica V :=
  match replica.viewOf id with
  | some row => if options.holds row.type then replica else replica.openPin options id
  | none =>
      if (replica.inFlightOpens.get? id).isSome || !options.readEntity then replica
      else
        let epoch := replica.nextOpenEpoch + 1
        { replica with
          nextOpenEpoch := epoch
          openEpochs := replica.openEpochs.set id epoch
          inFlightOpens := replica.inFlightOpens.set id epoch
          reads := replica.reads ++ [(id, epoch)] }

/-- A read is no longer in flight, unless another one has taken its place. -/
def landed (replica : LiveReplica V) (id : String) (epoch : Nat) : LiveReplica V :=
  { replica with
    reads := replica.reads.erase (id, epoch)
    inFlightOpens :=
      if replica.inFlightOpens.get? id = some epoch then replica.inFlightOpens.erase id
      else replica.inFlightOpens }

def opened (replica : LiveReplica V) (id : String) (epoch : Nat) (loaded : Option (Entity V)) :
    LiveReplica V :=
  let landed := replica.landed id epoch
  if landed.openEpochs.get? id ≠ some epoch then landed
  else
    let buffered := (landed.pendingOpens.get? id).getD []
    let drained := { landed with pendingOpens := landed.pendingOpens.erase id }
    match loaded with
    | none => drained
    | some row => if options.holds row.type then drained else drained.install options id row buffered

def close (replica : LiveReplica V) (id : String) : LiveReplica V :=
  match replica.viewOf id with
  | none => replica.cancelOpen id
  | some row =>
      if options.holds row.type then replica
      else
        let cancelled := replica.cancelOpen id
        if (cancelled.pins.get? id).isSome then cancelled.closePin options id
        else cancelled.evict options [id]

/-- One row of a record: the base and both directions of the adjacency. -/
def loadRow (replica : LiveReplica V) (row : Entity V) : LiveReplica V :=
  if options.holds row.type then
    { replica with
      entities := replica.entities.set row.id row
      typeIndex := addToType replica.typeIndex row.type row.id
      reverseIndex := match indexEntryFor options.asString row with
        | some entry => ReverseIndex.addEntry replica.reverseIndex entry
        | none => replica.reverseIndex
      forwardIndex := match forwardIndexEntryFor options.asString row with
        | some entry => ReverseIndex.addEntry replica.forwardIndex entry
        | none => replica.forwardIndex }
  else replica

def replicaRecordFormat : Nat := 1

def load (replica : LiveReplica V) (record : ReplicaRecord V) : LiveReplica V :=
  if record.format ≠ replicaRecordFormat then replica
  else
    let revision := if record.revision > replica.revision then record.revision
      else replica.revision + 1
    record.entities.foldl (loadRow options)
      { (empty : LiveReplica V) with
        nextOpenEpoch := replica.nextOpenEpoch
        reads := replica.reads
        revision
        changeFloor := revision
        lastPosition := record.position }

/-! ## Runs -/

inductive Event (V : Type) where
  | ingest (action : Action V) (delta : List (Update V)) (position : Nat)
  | optimistic (action : Action V)
  | discard (actionId : String)
  | evict (ids : List String)
  | load (record : ReplicaRecord V)
  | openRow (id : String)
  /-- A cold read resolves, with a row or without one. -/
  | opened (id : String) (epoch : Nat) (loaded : Option (Entity V))
  | readFailed (id : String) (epoch : Nat)
  | close (id : String)
  /-- The scheduled release of a closed row. -/
  | release (id : String)

def step (replica : LiveReplica V) : Event V → Option (LiveReplica V)
  | .ingest action delta position => some (replica.ingest options action delta position)
  | .optimistic action => some (replica.optimistic options action)
  | .discard actionId => some (replica.discard options actionId)
  | .evict ids => some (replica.evict options ids)
  | .load record => some (replica.load options record)
  | .openRow id => some (replica.openRow options id)
  | .opened id epoch loaded =>
      if (id, epoch) ∈ replica.reads then some (replica.opened options id epoch loaded) else none
  | .readFailed id epoch =>
      if (id, epoch) ∈ replica.reads then some (replica.landed id epoch) else none
  | .close id => some (replica.close options id)
  | .release id =>
      if (replica.pins.get? id).any Pin.timer then some (replica.evict options [id]) else none

def machine : Machine (LiveReplica V) (Event V) where
  initial := .empty
  step := step options

end Operations

end LiveReplica

end Ebb.Storage
