import Ebb.Core.Action
import Ebb.Core.FieldSemilattice
import Ebb.Core.JsonValue

namespace Ebb.Sync

open Ebb.Wire

/-! Contested positions, as `packages/client/src/sync/conflict-slots.ts` derives them from a
buffered write and a missed one. Field values are plain objects, so reading a key may give what
the object inherits. -/

/-! ## The fields of Actions -/

/-- The fields of a subject, in a `Map`. -/
abbrev SubjectFields := OrderedMap String (WireField JsonValue)

structure InboundUpdate where
  subjectId : String
  subjectType : String
  method : UpdateMethod
  data : Option (List (String × WireField JsonValue))

structure InboundAction where
  id : String
  gsn : Nat
  updates : List InboundUpdate

structure InboundSubject where
  subjectType : String
  /-- A put or a delete makes the fields the whole field set. -/
  replaced : Bool
  fields : SubjectFields

def updateFields (update : InboundUpdate) : List (String × WireField JsonValue) :=
  update.data.getD []

def mergeUpdateFields (fields : SubjectFields) (update : InboundUpdate) : SubjectFields :=
  (updateFields update).foldl (fun fields entry =>
    fields.set entry.1
      (match fields.get? entry.1 with
      | none => entry.2
      | some previous => merged previous entry.2)) fields

def foldUpdate (subjects : OrderedMap String InboundSubject) (update : InboundUpdate) :
    OrderedMap String InboundSubject :=
  let current := (subjects.get? update.subjectId).getD
    { subjectType := update.subjectType, replaced := false, fields := .empty }
  subjects.set update.subjectId
    (match update.method with
    | .put => { current with replaced := true, fields := mergeUpdateFields .empty update }
    | .delete => { current with replaced := true, fields := .empty }
    | .patch => { current with fields := mergeUpdateFields current.fields update })

def foldAction (subjects : OrderedMap String InboundSubject) (action : InboundAction) :
    OrderedMap String InboundSubject :=
  action.updates.foldl foldUpdate subjects

def inboundSubjects (action : InboundAction) : OrderedMap String InboundSubject :=
  foldAction .empty action

def foldInboundWindow (actions : List InboundAction) : OrderedMap String InboundSubject :=
  actions.foldl foldAction .empty

/-! ## Sides -/

/-- A projected value: the value of a leaf, or the projected entries of a map. -/
inductive Projected where
  | value (json : JsonValue)
  | map (entries : List (String × Projected))

mutual

def projectFieldValue : WireField JsonValue → Projected
  | .leaf leaf => .value leaf.value
  | .map entries => .map (projectEntries entries)

def projectEntries : List (String × WireField JsonValue) → List (String × Projected)
  | [] => []
  | (key, entry) :: rest =>
      match projectFieldValue entry with
      | .value .null => projectEntries rest
      | projected => (key, projected) :: projectEntries rest

end

structure ConflictSide where
  value : Option Projected
  updateId : Option String
  hlc : Option HLCTimestamp

def absentSide : ConflictSide := { value := none, updateId := none, hlc := none }

/-- A tombstone has no value. An inherited object has neither of the three properties. -/
def conflictSide : Property JsonValue → ConflictSide
  | .undefined => absentSide
  | .inherited => absentSide
  | .field (.map entries) =>
      { value := some (projectFieldValue (.map entries)), updateId := none, hlc := none }
  | .field (.leaf leaf) =>
      { value := if leaf.value = .null then none else some (.value leaf.value)
        updateId := leaf.updateId
        hlc := leaf.hlc }

section Positions

variable {V : Type}

def nodeAtPath : Property V → List String → Property V
  | node, [] => node
  | .field (.map entries), key :: path => nodeAtPath (readProperty entries key) path
  | _, _ :: _ => .undefined

mutual

/-- The paths where both values hold something and not both hold a map. An inherited object
counts as something. -/
def overlappingPaths : Property V → WireField V → List String → List (List String)
  | .field (.map pending), .map inbound, path => overlappingKeys pending inbound path
  | _, _, path => [path]

def overlappingKeys (pending : List (String × WireField V)) :
    List (String × WireField V) → List String → List (List String)
  | [], _ => []
  | (key, inboundChild) :: rest, path =>
      match readProperty pending key with
      | .undefined => overlappingKeys pending rest path
      | pendingChild =>
          overlappingPaths pendingChild inboundChild (path ++ [key]) ++
            overlappingKeys pending rest path

end

end Positions

/-! ## Slots -/

structure ConflictSlot where
  subjectId : String
  field : String
  path : List String
  localSide : ConflictSide
  remoteSide : ConflictSide

def conflictSlot (subjectId field : String) (path : List String) (pending : WireField JsonValue)
    (remote : Option (WireField JsonValue)) : ConflictSlot where
  subjectId := subjectId
  field := field
  path := path
  localSide := conflictSide (nodeAtPath (.field pending) path)
  remoteSide :=
    match remote with
    | none => absentSide
    | some remote => conflictSide (nodeAtPath (.field remote) path)

/-- The positions that one missed Action contests of a buffered field. -/
def contestedPaths (pendingValue : WireField JsonValue) (winner : Option (WireField JsonValue))
    (replaced : Bool) : List (List String) :=
  match winner with
  | some winner => overlappingPaths (.field pendingValue) winner []
  | none => if replaced then [[]] else []

/-- The slots that a detection builds for one buffered field and one missed Action, given what
that Action and what the whole window make of the subject. -/
def contestedSlots (subjectId field : String) (pendingValue : WireField JsonValue)
    (actionInbound inbound : InboundSubject) : List ConflictSlot :=
  let winner := actionInbound.fields.get? field
  (contestedPaths pendingValue winner actionInbound.replaced).map fun path =>
    conflictSlot subjectId field path pendingValue
      (if winner.isNone then none else inbound.fields.get? field)

def isLeafSide (side : ConflictSide) : Bool := side.updateId.isSome

def ConflictSide.time (side : ConflictSide) : HLCTimestamp := side.hlc.getD 0

/-- The verdict that `remoteWins` of a slot's view gives. -/
def sideRemoteWins (slot : ConflictSlot) : Bool :=
  if !isLeafSide slot.localSide || !isLeafSide slot.remoteSide then true
  else if slot.localSide.time ≠ slot.remoteSide.time then
    decide (slot.localSide.time < slot.remoteSide.time)
  else updateIdGe slot.remoteSide.updateId slot.localSide.updateId

end Ebb.Sync
