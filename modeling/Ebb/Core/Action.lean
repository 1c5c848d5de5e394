import Ebb.Core.FieldValue

namespace Ebb

/-! Updates and the Actions that carry them. -/

inductive UpdateMethod where
  | put
  | patch
  | delete
deriving DecidableEq

structure Update (V : Type) where
  id : String
  subjectId : String
  subjectType : String
  method : UpdateMethod
  data : Option (Fields V)

/-- An Action as the Action log holds it, under the GSN it was committed at. -/
structure Action (V : Type) where
  id : String
  actorId : String
  hlc : HLCTimestamp
  gsn : Nat
  updates : List (Update V)

/-- The fields an Update carries; a missing `data` carries none. -/
def readFields (update : Update V) : Fields V := update.data.getD []

def Update.WellFormed (update : Update V) : Prop := fieldsWellFormed (readFields update)

def Action.touches (action : Action V) (entityId : String) : Bool :=
  action.updates.any fun update => update.subjectId == entityId

def Action.updatesOf (action : Action V) (entityId : String) : List (Update V) :=
  action.updates.filter fun update => update.subjectId == entityId

theorem Action.updatesOf_eq_nil_of_not_touches {action : Action V} {entityId : String}
    (untouched : action.touches entityId = false) : action.updatesOf entityId = [] := by
  simpa [touches, updatesOf, List.filter_eq_nil_iff] using untouched

/-- One Update to an entity with the header it was committed under. -/
structure CommittedUpdate (V : Type) where
  gsn : Nat
  hlc : HLCTimestamp
  actorId : String
  update : Update V

def entityUpdates (log : List (Action V)) (entityId : String) : List (CommittedUpdate V) :=
  log.flatMap fun action =>
    (action.updatesOf entityId).map fun update =>
      { gsn := action.gsn, hlc := action.hlc, actorId := action.actorId, update }

theorem entityUpdates_filter_touches (actions : List (Action V)) (entityId : String) :
    entityUpdates (actions.filter fun action => action.touches entityId) entityId =
      entityUpdates actions entityId := by
  induction actions with
  | nil => rfl
  | cons action rest induction =>
      cases touched : action.touches entityId with
      | true =>
          rw [List.filter_cons_of_pos (by simpa using touched)]
          simp only [entityUpdates, List.flatMap_cons] at induction ⊢
          rw [induction]
      | false =>
          rw [List.filter_cons_of_neg (by simp [touched]), induction]
          simp [entityUpdates, Action.updatesOf_eq_nil_of_not_touches touched]

end Ebb
