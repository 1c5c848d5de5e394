import Ebb.Server.FieldMerge

namespace Ebb.Server

/-! The replay accumulators of the server's `EntityStore` and the row it
materializes from them. -/

/-- The Actions of the log in GSN order, as the Writer commits them. A JSON object holds
each of its keys once. -/
structure CommittedLog (V : Type) where
  actions : List (Action V)
  positive : ∀ action ∈ actions, 0 < action.gsn
  ordered : actions.Pairwise fun earlier later => earlier.gsn < later.gsn
  wellFormed : ∀ action ∈ actions, ∀ update ∈ action.updates, update.WellFormed
  keyed : ∀ action ∈ actions, ∀ update ∈ action.updates,
    (FieldValue.map (readFields update)).Keyed

namespace EntityStore

/-! ## Replay -/

inductive DataMode where
  | patch
  | replace
deriving DecidableEq

/-- A touched position: a field name followed by map keys. -/
abbrev FieldPath := List String

structure Replay (V : Type) where
  data : Fields V
  type : Option String
  createdHlc : Option HLCTimestamp
  updatedHlc : HLCTimestamp
  deletedHlc : Option HLCTimestamp
  deletedBy : Option String
  maxGsn : Nat
  dataMode : DataMode
  changed : List FieldPath

def Replay.initial (data : Fields V) : Replay V where
  data := data
  type := none
  createdHlc := none
  updatedHlc := 0
  deletedHlc := none
  deletedBy := none
  maxGsn := 0
  dataMode := .patch
  changed := []

mutual

def leafPaths (pathSoFar : FieldPath) : FieldValue V → List FieldPath
  | .leaf _ => [pathSoFar]
  | .map [] => [pathSoFar]
  | .map (entry :: rest) => entryPaths pathSoFar (entry :: rest)

def entryPaths (pathSoFar : FieldPath) : Fields V → List FieldPath
  | [] => []
  | (key, value) :: rest => leafPaths (pathSoFar ++ [key]) value ++ entryPaths pathSoFar rest

end

def stampedFields (update : Update V) : Fields V :=
  FieldMerge.stampEntries update.id (readFields update)

def applyPut (committed : CommittedUpdate V) (acc : Replay V) : Replay V :=
  { acc with
    data := stampedFields committed.update
    type := some committed.update.subjectType
    createdHlc := some (acc.createdHlc.getD committed.hlc)
    updatedHlc := committed.hlc
    maxGsn := max acc.maxGsn committed.gsn
    dataMode := .replace }

def mergeField (fields : Fields V) (field : String × FieldValue V) : Fields V :=
  setEntry field.1 (FieldMerge.merge (fields.lookup field.1) field.2) fields

def applyPatch (committed : CommittedUpdate V) (acc : Replay V) : Replay V :=
  { acc with
    data := (stampedFields committed.update).foldl mergeField acc.data
    type := some (acc.type.getD committed.update.subjectType)
    updatedHlc := committed.hlc
    deletedHlc := none
    deletedBy := none
    maxGsn := max acc.maxGsn committed.gsn
    changed := acc.changed ++
      (stampedFields committed.update).flatMap fun (field, incoming) =>
        leafPaths [field] incoming }

def applyDelete (committed : CommittedUpdate V) (acc : Replay V) : Replay V :=
  { acc with
    deletedHlc := some committed.hlc
    deletedBy := some committed.actorId
    updatedHlc := committed.hlc
    maxGsn := max acc.maxGsn committed.gsn }

def applyCommitted (acc : Replay V) (committed : CommittedUpdate V) : Replay V :=
  match committed.update.method with
  | .put => applyPut committed acc
  | .patch => applyPatch committed acc
  | .delete => applyDelete committed acc

def applyAction (entityId : String) (acc : Replay V) (action : Action V) : Replay V :=
  ((action.updatesOf entityId).map fun update =>
    { gsn := action.gsn, hlc := action.hlc, actorId := action.actorId, update }).foldl
      applyCommitted acc

def replay (data : Fields V) (actions : List (Action V)) (entityId : String) : Replay V :=
  actions.foldl (applyAction entityId) (.initial data)

theorem replay_eq_foldl (data : Fields V) (actions : List (Action V)) (entityId : String) :
    replay data actions entityId =
      (entityUpdates actions entityId).foldl applyCommitted (.initial data) := by
  rw [replay, entityUpdates, List.foldl_flatMap]
  rfl

theorem foldl_mergeField_eq (fields incoming : Fields V) :
    incoming.foldl mergeField fields = FieldMerge.mergeMaps fields incoming := by
  induction incoming generalizing fields with
  | nil => rfl
  | cons field rest induction =>
      rw [List.foldl_cons, induction]
      rfl

/-! ## Rows -/

/-- A row of the `entities` table, with its `data` column decoded. -/
structure EntityRow (V : Type) where
  id : String
  type : String
  data : Fields V
  createdHlc : HLCTimestamp
  updatedHlc : HLCTimestamp
  deletedHlc : Option HLCTimestamp
  deletedBy : Option String
  lastGsn : Nat

def Replay.row (entityId : String) (result : Replay V) : EntityRow V where
  id := entityId
  type := result.type.getD "unknown"
  data := result.data
  createdHlc := result.createdHlc.getD result.updatedHlc
  updatedHlc := result.updatedHlc
  deletedHlc := result.deletedHlc
  deletedBy := result.deletedBy
  lastGsn := result.maxGsn

def formatLiveEntity (row : EntityRow V) : Option (EntityRow V) :=
  if row.deletedHlc.isSome then none else some row

/-- The Actions touching an entity above a GSN, in GSN order. -/
def relevantActions (actions : List (Action V)) (entityId : String) (lastGsn : Nat) :
    List (Action V) :=
  actions.filter fun action => action.touches entityId && decide (lastGsn < action.gsn)

theorem relevantActions_eq_filter {actions : List (Action V)} {lastGsn : Nat}
    (newer : ∀ action ∈ actions, lastGsn < action.gsn) (entityId : String) :
    relevantActions actions entityId lastGsn =
      actions.filter fun action => action.touches entityId := by
  apply List.filter_congr
  intro action member
  simp [newer action member]

/-- A read with no cached row: everything the log holds for the entity is
replayed from an empty document. -/
def coldMaterialize (log : CommittedLog V) (entityId : String) : Option (EntityRow V) :=
  match relevantActions log.actions entityId 0 with
  | [] => none
  | action :: rest => formatLiveEntity ((replay [] (action :: rest) entityId).row entityId)

/-- The type and fields a cold read returns, or nothing when the entity is absent
or deleted. -/
def liveView (log : CommittedLog V) (entityId : String) : Option (String × Fields V) :=
  (coldMaterialize log entityId).map fun row => (row.type, row.data)

theorem liveView_eq (log : CommittedLog V) (entityId : String) :
    liveView log entityId =
      match entityUpdates log.actions entityId with
      | [] => none
      | committed :: rest =>
          let result := (committed :: rest).foldl applyCommitted (.initial [])
          if result.deletedHlc.isSome then none
          else some (result.type.getD "unknown", result.data) := by
  rw [liveView, coldMaterialize, relevantActions_eq_filter log.positive,
    ← entityUpdates_filter_touches]
  cases split : log.actions.filter fun action => action.touches entityId with
  | nil => rfl
  | cons action rest =>
      have touched : action.touches entityId = true :=
        (List.mem_filter.mp (split ▸ List.mem_cons_self :
          action ∈ log.actions.filter fun action => action.touches entityId)).2
      have nonempty : entityUpdates (action :: rest) entityId ≠ [] := by
        intro empty
        rw [entityUpdates, List.flatMap_cons, List.append_eq_nil_iff, List.map_eq_nil_iff,
          Action.updatesOf, List.filter_eq_nil_iff] at empty
        obtain ⟨update, member, same⟩ := List.any_eq_true.mp touched
        exact empty.1 update member same
      simp only [replay_eq_foldl]
      cases flat : entityUpdates (action :: rest) entityId with
      | nil => exact absurd flat nonempty
      | cons committed remaining =>
          rw [formatLiveEntity, apply_ite (Option.map _)]
          rfl

end EntityStore

end Ebb.Server
