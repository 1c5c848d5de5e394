import Ebb.Core.Action

namespace Ebb.Storage

/-! The client's materialization of an entity, as
`packages/storage/src/internal/materialize.ts` folds it. -/

structure Entity (V : Type) where
  id : String
  type : String
  fields : Fields V
  createdHlc : HLCTimestamp
  updatedHlc : HLCTimestamp
  deletedHlc : Option HLCTimestamp
  lastGsn : Nat

def mergeFields (existing : Fields V) (update : Update V) : Fields V :=
  mergeEntries existing (readFields update)

/-- Apply one Update: a put replaces the row, a patch merges into a live row and
a delete tombstones an existing one. -/
def applyUpdate (entity : Option (Entity V)) (update : Update V) (gsn : Nat)
    (hlc : HLCTimestamp) : Option (Entity V) :=
  match update.method, entity with
  | .put, _ => some {
      id := update.subjectId
      type := update.subjectType
      fields := readFields update
      createdHlc := hlc
      updatedHlc := hlc
      deletedHlc := none
      lastGsn := gsn }
  | .patch, none => none
  | .patch, some entity =>
      if entity.deletedHlc.isSome then some entity
      else some { entity with
        fields := mergeFields entity.fields update
        updatedHlc := max entity.updatedHlc hlc
        lastGsn := max entity.lastGsn gsn }
  | .delete, none => none
  | .delete, some entity => some { entity with
      deletedHlc := some hlc
      updatedHlc := hlc
      lastGsn := max entity.lastGsn gsn }

def applyCommitted (entity : Option (Entity V)) (committed : CommittedUpdate V) :
    Option (Entity V) :=
  applyUpdate entity committed.update committed.gsn committed.hlc

def replay (actions : List (Action V)) (entityId : String) : Option (Entity V) :=
  (entityUpdates actions entityId).foldl applyCommitted none

/-- What a reader sees of a row: its type and fields while it is live. -/
def liveView : Option (Entity V) → Option (String × Fields V)
  | some entity =>
      if entity.deletedHlc.isSome then none else some (entity.type, entity.fields)
  | none => none

end Ebb.Storage
