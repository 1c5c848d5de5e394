import Ebb.Core.Action
import Mathlib.Data.List.Induction
import Mathlib.Tactic.SplitIfs

namespace Ebb.Functions

/-! The write surface of one function invocation: the buffered Updates and the
indexes its reads and verbs resolve against, as
`packages/functions-runtime/src/writes.ts` keeps them. -/

/-- How the surface reads a leaf's value: as a string, or as an array of strings. -/
class WireValue (V : Type) where
  asString : V → Option String
  asStrings : V → Option (List String)

section Reading

variable [WireValue V]

def stringField (fields : Fields V) (key : String) : Option String :=
  match fields.lookup key with
  | some (.leaf leaf) => WireValue.asString leaf.value
  | _ => none

def stringListField (fields : Fields V) (key : String) : Option (List String) :=
  match fields.lookup key with
  | some (.leaf leaf) => WireValue.asStrings leaf.value
  | _ => none

end Reading

/-! ## The surface -/

/-- A buffered relationship edge, or the mark a buffered delete leaves. -/
inductive Edge where
  | live (relationshipId targetId : String)
  | gone
deriving DecidableEq

def edgeKey (type sourceId field : String) : String :=
  let separator := String.singleton (Char.ofNat 0)
  type ++ separator ++ sourceId ++ separator ++ field

structure WriteSurface (V : Type) where
  updates : List (Update V)
  updatesById : OrderedMap String (List (Update V))
  types : OrderedMap String String
  /-- `entityGroup` row id to the group it scopes to. -/
  membershipGroup : OrderedMap String String
  /-- `entityGroup` row id to the entity it files. -/
  membershipEntity : OrderedMap String String
  groupsByEntity : OrderedMap String (List String)
  /-- Groups this invocation is taken to have created. -/
  createdGroups : List String
  /-- Group id to the member rows this invocation wrote, with their permissions. -/
  membersByGroup : OrderedMap String (OrderedMap String (List String))
  memberGroup : OrderedMap String String
  edges : OrderedMap String Edge
  edgeKeys : OrderedMap String String

namespace WriteSurface

def empty : WriteSurface V where
  updates := []
  updatesById := .empty
  types := .empty
  membershipGroup := .empty
  membershipEntity := .empty
  groupsByEntity := .empty
  createdGroups := []
  membersByGroup := .empty
  memberGroup := .empty
  edges := .empty
  edgeKeys := .empty

/-- `Set.add`: an element keeps its place when it is there already. -/
def addElement (element : String) (elements : List String) : List String :=
  if element ∈ elements then elements else elements ++ [element]

def addGroup (entityId groupId : String) (surface : WriteSurface V) : WriteSurface V :=
  { surface with
    groupsByEntity := surface.groupsByEntity.set entityId
      (addElement groupId ((surface.groupsByEntity.get? entityId).getD [])) }

def removeGroup (entityId groupId : String) (surface : WriteSurface V) : WriteSurface V :=
  match surface.groupsByEntity.get? entityId with
  | none => surface
  | some held =>
      { surface with
        groupsByEntity := surface.groupsByEntity.set entityId (held.filter (· ≠ groupId)) }

def markEdgeGone (relationshipId : String) (surface : WriteSurface V) : WriteSurface V :=
  match surface.edgeKeys.get? relationshipId with
  | none => surface
  | some key =>
      { surface with
        edges := surface.edges.set key .gone
        edgeKeys := surface.edgeKeys.erase relationshipId }

section Indexing

variable [WireValue V]

def indexEntityGroup (update : Update V) (surface : WriteSurface V) : WriteSurface V :=
  if update.method = .delete then
    match surface.membershipGroup.get? update.subjectId,
        surface.membershipEntity.get? update.subjectId with
    | some groupId, some entityId => surface.removeGroup entityId groupId
    | _, _ => surface
  else
    match stringField (readFields update) "group_id",
        stringField (readFields update) "entity_id" with
    | some groupId, some entityId =>
        { surface with
          membershipGroup := surface.membershipGroup.set update.subjectId groupId
          membershipEntity := surface.membershipEntity.set update.subjectId entityId
          }.addGroup entityId groupId
    | _, _ => surface

def indexRelationship (update : Update V) (surface : WriteSurface V) : WriteSurface V :=
  if update.method = .delete then surface.markEdgeGone update.subjectId
  else
    match stringField (readFields update) "source_id", stringField (readFields update) "field",
        stringField (readFields update) "type", stringField (readFields update) "target_id" with
    | some sourceId, some field, some type, some targetId =>
        let key := edgeKey type sourceId field
        { surface with
          edges := surface.edges.set key (.live update.subjectId targetId)
          edgeKeys := surface.edgeKeys.set update.subjectId key }
    | _, _, _, _ => surface

def indexGroup (update : Update V) (surface : WriteSurface V) : WriteSurface V :=
  if update.method = .delete then surface
  else
    { surface with createdGroups := addElement update.subjectId surface.createdGroups
      }.addGroup update.subjectId update.subjectId

def indexGroupMember (update : Update V) (surface : WriteSurface V) : WriteSurface V :=
  if update.method = .delete then
    match surface.memberGroup.get? update.subjectId with
    | none => surface
    | some groupId =>
        match surface.membersByGroup.get? groupId with
        | none => surface
        | some roster =>
            { surface with
              membersByGroup :=
                surface.membersByGroup.set groupId (roster.erase update.subjectId) }
  else
    match stringField (readFields update) "group_id" with
    | none => surface
    | some groupId =>
        let permissions := (stringListField (readFields update) "permissions").getD []
        let roster := (surface.membersByGroup.get? groupId).getD .empty
        { surface with
          memberGroup := surface.memberGroup.set update.subjectId groupId
          membersByGroup :=
            surface.membersByGroup.set groupId (roster.set update.subjectId permissions)
          }.addGroup update.subjectId groupId

/-- Index one buffered Update so later verbs and reads can resolve against it. -/
def indexWrite (update : Update V) (surface : WriteSurface V) : WriteSurface V :=
  if update.subjectType = "entityGroup" then surface.indexEntityGroup update
  else if update.subjectType = "relationship" then surface.indexRelationship update
  else if update.subjectType = "group" then surface.indexGroup update
  else if update.subjectType = "groupMember" then surface.indexGroupMember update
  else surface

def recordUpdate (surface : WriteSurface V) (update : Update V) : WriteSurface V :=
  { surface with
    updates := surface.updates ++ [update]
    updatesById := surface.updatesById.set update.subjectId
      ((surface.updatesById.get? update.subjectId).getD [] ++ [update])
    types := surface.types.set update.subjectId update.subjectType }.indexWrite update

def record (batch : List (Update V)) (surface : WriteSurface V) : WriteSurface V :=
  batch.foldl recordUpdate surface

end Indexing

def updatesFor (surface : WriteSurface V) (id : String) : List (Update V) :=
  (surface.updatesById.get? id).getD []

/-- The `subject_type` of the last buffered write of an id. -/
def typeOf (surface : WriteSurface V) (id : String) : Option String :=
  surface.types.get? id

/-! ## What a recorded batch leaves in the buffer -/

section Buffer

variable [WireValue V]

variable (surface : WriteSurface V) (update : Update V)

theorem indexWrite_buffer (surface : WriteSurface V) :
    (surface.indexWrite update).updates = surface.updates ∧
      (surface.indexWrite update).updatesById = surface.updatesById ∧
      (surface.indexWrite update).types = surface.types := by
  simp only [indexWrite, indexEntityGroup, indexRelationship, indexGroup, indexGroupMember,
    removeGroup, markEdgeGone, addGroup]
  split_ifs <;> repeat' split
  all_goals exact ⟨rfl, rfl, rfl⟩

@[simp] theorem updates_recordUpdate :
    (surface.recordUpdate update).updates = surface.updates ++ [update] :=
  (indexWrite_buffer update _).1

theorem updatesFor_recordUpdate (id : String) :
    (surface.recordUpdate update).updatesFor id =
      surface.updatesFor id ++ if update.subjectId = id then [update] else [] := by
  rw [updatesFor, recordUpdate, (indexWrite_buffer update _).2.1]
  simp only [OrderedMap.get?_set]
  by_cases same : update.subjectId = id
  · rw [if_pos same.symm, if_pos same, ← same]
    rfl
  · rw [if_neg (Ne.symm same), if_neg same, List.append_nil]
    rfl

theorem typeOf_recordUpdate (id : String) :
    (surface.recordUpdate update).typeOf id =
      if update.subjectId = id then some update.subjectType else surface.typeOf id := by
  rw [typeOf, recordUpdate, (indexWrite_buffer update _).2.2, OrderedMap.get?_set]
  simp only [eq_comm (a := id)]
  rfl

theorem record_append (earlier later : List (Update V)) (surface : WriteSurface V) :
    surface.record (earlier ++ later) = (surface.record earlier).record later :=
  List.foldl_append

theorem updatesFor_record (batch : List (Update V)) (surface : WriteSurface V) (id : String) :
    (surface.record batch).updatesFor id =
      surface.updatesFor id ++ batch.filter fun update => update.subjectId == id := by
  induction batch generalizing surface with
  | nil => simp [record]
  | cons update rest induction =>
      have recorded := induction (surface.recordUpdate update)
      rw [updatesFor_recordUpdate, List.append_assoc] at recorded
      refine recorded.trans ?_
      by_cases same : update.subjectId = id <;> simp [same]

theorem typeOf_record (batch : List (Update V)) (surface : WriteSurface V) (id : String) :
    (surface.record batch).typeOf id =
      (((batch.filter fun update => update.subjectId == id).getLast?.map
        Update.subjectType).or (surface.typeOf id)) := by
  induction batch using List.reverseRecOn with
  | nil => simp [record]
  | append_singleton rest update induction =>
      rw [record_append]
      change ((surface.record rest).recordUpdate update).typeOf id = _
      rw [typeOf_recordUpdate, List.filter_append]
      by_cases same : update.subjectId = id
      · simp [same]
      · simp [same, induction]

end Buffer

end WriteSurface

end Ebb.Functions
