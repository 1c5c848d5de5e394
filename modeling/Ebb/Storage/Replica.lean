import Ebb.Storage.ActionLog

namespace Ebb.Storage

/-! The client replica's base rows, as `packages/storage/src/replica/replica.ts`
folds deliveries into them. The sharded container of a large map field is read
as the map it flattens to. -/

/-- An Update that waits for a base row. -/
structure OrphanUpdate (V : Type) where
  update : Update V
  gsn : Nat
  hlc : HLCTimestamp
  position : Nat

/-- A write of an Action that has not come back from the server yet. -/
structure OptimisticWrite (V : Type) where
  actionId : String
  update : Update V
  hlc : HLCTimestamp

structure Replica (V : Type) where
  entities : OrderedMap String (Entity V)
  /-- Updates that arrived before any base row, by entity. -/
  orphans : OrderedMap String (List (OrphanUpdate V))
  overlay : OrderedMap String (List (OptimisticWrite V))
  /-- The rows kept although the policy does not hold their type. -/
  pins : List String
  inFlightOpens : List String
  /-- Updates that landed while a cold read of their entity was in flight. -/
  pendingOpens : OrderedMap String (List (OrphanUpdate V))
  lastPosition : Nat

namespace Replica

def empty : Replica V where
  entities := .empty
  orphans := .empty
  overlay := .empty
  pins := []
  inFlightOpens := []
  pendingOpens := .empty
  lastPosition := 0

variable (holds : String → Bool)

def resident (replica : Replica V) (row : Entity V) : Bool :=
  holds row.type || decide (row.id ∈ replica.pins)

/-! ## Folding one Update into the base -/

def bufferUpdate (buffer : OrderedMap String (List (OrphanUpdate V)))
    (entry : OrphanUpdate V) : OrderedMap String (List (OrphanUpdate V)) :=
  let pending := (buffer.get? entry.update.subjectId).getD []
  buffer.set entry.update.subjectId (pending ++ [entry])

def replayOrphan (row : Entity V) (orphan : OrphanUpdate V) : Entity V :=
  (applyUpdate (some row) orphan.update orphan.gsn orphan.hlc).getD row

/-- The orphans a put at `gsn` replays: the newer ones, in GSN order. -/
def survivors (pending : List (OrphanUpdate V)) (gsn : Nat) : List (OrphanUpdate V) :=
  sortBy OrphanUpdate.gsn (pending.filter fun orphan => gsn < orphan.gsn)

/-- Install the row of a put and replay the orphans that waited for it. -/
def installPut (replica : Replica V) (id : String) (gsn : Nat) (row : Entity V) : Replica V :=
  match replica.orphans.get? id with
  | none => { replica with entities := replica.entities.set id row }
  | some pending => { replica with
      orphans := replica.orphans.erase id
      entities := replica.entities.set id ((survivors pending gsn).foldl replayOrphan row) }

def foldBase (replica : Replica V) (update : Update V) (gsn : Nat) (hlc : HLCTimestamp)
    (position : Nat) : Replica V :=
  let id := update.subjectId
  let unwanted := !holds update.subjectType && decide (id ∉ replica.pins)
  if unwanted && decide (id ∈ replica.inFlightOpens) then
    { replica with
      pendingOpens := bufferUpdate replica.pendingOpens { update, gsn, hlc, position } }
  else
    match applyUpdate (replica.entities.get? id) update gsn hlc with
    | none =>
        if unwanted then replica
        else { replica with
          orphans := bufferUpdate replica.orphans { update, gsn, hlc, position } }
    | some next =>
        if replica.resident holds next = false then { replica with
          entities := replica.entities.erase id
          orphans :=
            if update.method = .put then replica.orphans.erase id else replica.orphans }
        else if update.method = .put then replica.installPut id gsn next
        else { replica with entities := replica.entities.set id next }

/-! ## Ingesting a delivery -/

def composed (replica : Replica V) (id : String) : Option (Entity V) :=
  ((replica.overlay.get? id).getD []).foldl
    (fun row write => applyUpdate row write.update 0 write.hlc) (replica.entities.get? id)

def resync (replica : Replica V) (id : String) : Replica V :=
  match replica.composed id with
  | none => { replica with pins := replica.pins.erase id }
  | some next =>
      if replica.resident holds next && !holds next.type then replica
      else { replica with pins := replica.pins.erase id }

def overlaidBy (replica : Replica V) (actionId : String) : List String :=
  replica.overlay.keys.filter fun id =>
    ((replica.overlay.get? id).getD []).any fun write => write.actionId == actionId

def dropWrites (actionId : String) (overlay : OrderedMap String (List (OptimisticWrite V)))
    (id : String) : OrderedMap String (List (OptimisticWrite V)) :=
  match ((overlay.get? id).getD []).filter fun write => write.actionId ≠ actionId with
  | [] => overlay.erase id
  | remaining => overlay.set id remaining

def dropOverlay (replica : Replica V) (actionId : String) : Replica V :=
  { replica with
    overlay := (replica.overlaidBy actionId).foldl (dropWrites actionId) replica.overlay }

/-- Fold the delta of a delivery into the base; the echo of an optimistic Action
drops its overlay. -/
def ingest (replica : Replica V) (action : Action V) (delta : List (Update V))
    (position : Nat) : Replica V :=
  let echoed := replica.overlaidBy action.id
  let folded := delta.foldl
    (fun replica update => replica.foldBase holds update action.gsn action.hlc position)
    (replica.dropOverlay action.id)
  (delta.map Update.subjectId ++ echoed).eraseDups.foldl
    (fun replica id => replica.resync holds id)
    { folded with lastPosition := max folded.lastPosition position }

end Replica

/-- The Action log and the replica that follows it. -/
structure Store (V : Type) where
  log : ActionLog V
  replica : Replica V

def Store.empty : Store V := { log := [], replica := .empty }

def Store.deliver (holds : String → Bool) (store : Store V) (action : Action V) : Store V :=
  let appended := store.log.append action
  { log := appended.1
    replica := store.replica.ingest holds appended.2.action appended.2.added
      appended.2.position }

end Ebb.Storage
