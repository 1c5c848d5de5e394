import Ebb.Functions.WriteSurface
import Ebb.Access.LastGroupMember

namespace Ebb.Functions

open Access

/-! The membership pre-flight of `packages/functions-runtime/src/preflight.ts` and the
verbs of the write surface that run it. Leaves hold decoded JSON terms. -/

def asStringItem : Term → Option String
  | .string value => some value
  | _ => none

instance : WireValue Term where
  asString := asStringItem
  asStrings
    | .list items => items.mapM asStringItem
    | _ => none

/-! ## The Updates of the planner's operations -/

def entityGroupId (entityId groupId : String) : String :=
  "eg_" ++ toString (codeUnits entityId).length ++ "_" ++ entityId ++ groupId

def plainLeaf (value : String) (updateId : String) : FieldValue Term :=
  .leaf { value := .string value, updateId, hlc := none }

def buildEntityGroupUpdate (entityId groupId updateId : String) : Update Term where
  id := updateId
  subjectId := entityGroupId entityId groupId
  subjectType := "entityGroup"
  method := .put
  data := some
    [("entity_id", plainLeaf entityId updateId), ("group_id", plainLeaf groupId updateId)]

def buildEntityGroupUpdates (entityId : String) (groups : List (String × String)) :
    List (Update Term) :=
  groups.map fun group => buildEntityGroupUpdate entityId group.1 group.2

/-- A field of a patch as the caller gives it: a value, the mark that clears the field,
or an object under a field whose keys merge apart. -/
inductive PatchValue where
  | value (term : Term)
  | unset
  | keyed (entries : List (String × Option Term))

def stampedLeaf (updateId : String) (hlc : HLCTimestamp) (value : Term) : FieldValue Term :=
  .leaf { value, updateId, hlc := some hlc }

def wrapValue (updateId : String) (hlc : HLCTimestamp) : PatchValue → FieldValue Term
  | .value term => stampedLeaf updateId hlc term
  | .unset => stampedLeaf updateId hlc .null
  | .keyed entries => .map (entries.map fun (key, value) =>
      (key, stampedLeaf updateId hlc (value.getD .null)))

/-- Flatten a payload into the wire envelope; a field that is not given is not listed. -/
def wrapFields (payload : List (String × PatchValue)) (updateId : String)
    (hlc : HLCTimestamp) : Fields Term :=
  payload.map fun (key, value) => (key, wrapValue updateId hlc value)

/-- A derived body as a create plans it: the document's put, the edge to it and the
Update ids of its membership rows. -/
structure PlannedBody where
  document : Update Term
  edge : Update Term
  updateIds : List String

/-- What a create plans from. The groups are those `normalizeGroupIds` let through, which
are never none. -/
structure CreateInput where
  entity : String
  id : String
  fields : List (String × PatchValue)
  updateId : String
  hlc : HLCTimestamp
  groups : List String
  updateIds : List String
  bodies : List PlannedBody
  pointers : List (Update Term)
  filed : groups ≠ []
  minted : updateIds.length = groups.length

def CreateInput.row (input : CreateInput) : Update Term where
  id := input.updateId
  subjectId := input.id
  subjectType := input.entity
  method := .put
  data := some (wrapFields input.fields input.updateId input.hlc)

def createEntity (input : CreateInput) : List (Update Term) :=
  input.row :: buildEntityGroupUpdates input.id (input.groups.zip input.updateIds) ++
    input.bodies.flatMap (fun body =>
      body.document :: body.edge ::
        buildEntityGroupUpdates body.document.subjectId (input.groups.zip body.updateIds)) ++
    input.pointers

def patchUpdate (entity id : String) (payload : List (String × PatchValue)) (updateId : String)
    (hlc : HLCTimestamp) : Update Term where
  id := updateId
  subjectId := id
  subjectType := entity
  method := .patch
  data := some (wrapFields payload updateId hlc)

def patchEntity (entity id : String) (payload : List (String × PatchValue))
    (updateId : String) (hlc : HLCTimestamp) : List (Update Term) :=
  [patchUpdate entity id payload updateId hlc]

def deleteUpdate (entity id updateId : String) : Update Term where
  id := updateId
  subjectId := id
  subjectType := entity
  method := .delete
  data := none

def deleteEntity (entity id updateId : String) : List (Update Term) :=
  [deleteUpdate entity id updateId]

/-! ## Membership rules -/

structure MembershipDelta where
  puts : List String
  removedGroups : List String

/-- The entity's groups after the delta; a removed group that a put adds again stays. -/
def resultingGroups (currentGroups : List String) (delta : MembershipDelta) : List String :=
  let removed := delta.removedGroups.filter (· ∉ delta.puts)
  ((currentGroups ++ delta.puts).filter (· ∉ removed)).eraseDups

def lastMembershipDetails : String :=
  "removing this membership would leave the entity with no owning group"

def lastMembershipViolation (currentGroups : List String) (delta : MembershipDelta) :
    Option String :=
  if currentGroups = [] then none
  else if resultingGroups currentGroups delta = [] then some lastMembershipDetails
  else none

structure GroupMemberDelta where
  removedIds : List String
  upserts : List (String × List String)

def lastGroupMemberDetails : String :=
  "removing this membership would leave the group with no member that can administer it"

def lastGroupMemberViolation (currentMembers : OrderedMap String (List String))
    (delta : GroupMemberDelta) : Option String :=
  if currentMembers.entries = [] then none
  else
    let removed := delta.removedIds.foldl OrderedMap.erase currentMembers
    let permissions := delta.upserts.foldl (fun rows upsert => rows.set upsert.1 upsert.2) removed
    if permissions.entries.any fun member => member.2 ≠ [] then none
    else some lastGroupMemberDetails

namespace WriteSurface

variable [WireValue V]

def groupsOf (surface : WriteSurface V) (entityId : String) : List String :=
  (surface.groupsByEntity.get? entityId).getD []

/-- The roster of a group this invocation is taken to have created. -/
def groupMembersOf (surface : WriteSurface V) (groupId : String) :
    Option (OrderedMap String (List String)) :=
  if groupId ∈ surface.createdGroups then
    some ((surface.membersByGroup.get? groupId).getD .empty)
  else none

def wireGroupIds (update : Update V) : List String :=
  (stringField (readFields update) "group_id").toList

def resolveUpdateGroups (surface : WriteSurface V) (update : Update V) : List String :=
  if update.subjectType = "group" then [update.subjectId]
  else if update.subjectType = "groupMember" then wireGroupIds update
  else if update.subjectType = "entityGroup" then
    if update.method ≠ .delete then wireGroupIds update
    else (surface.membershipGroup.get? update.subjectId).toList
  else if update.subjectType = "relationship" then
    match stringField (readFields update) "source_id" with
    | none => []
    | some sourceId => surface.groupsOf sourceId
  else surface.groupsOf update.subjectId

/-- The union of the fan-out groups of a batch; only whether it is empty is read, not its
order. -/
def membershipScope (surface : WriteSurface V) (updates : List (Update V)) : List String :=
  (updates.flatMap surface.resolveUpdateGroups).eraseDups

end WriteSurface

/-! ## Refusals -/

/-- The rejection an `ActionRejectedError` carries. -/
structure Refusal where
  id : String
  subjectType : String
  reason : String
  details : String
deriving DecidableEq

section Assertions

variable [WireValue V]

def assertMembershipScope (surface : WriteSurface V) (entity entityId : String)
    (updates : List (Update V)) : Option Refusal :=
  if updates = [] then none
  else if surface.membershipScope updates = [] then
    some {
      id := entityId
      subjectType := entity
      reason := "missing_ownership"
      details := "membership write for \"" ++ entityId ++ "\" resolves to no owning group" }
  else none

def assertLastMembership (surface : WriteSurface V) (entity entityId : String)
    (removedGroups : List String) : Option Refusal :=
  (lastMembershipViolation (surface.groupsOf entityId) ⟨[], removedGroups⟩).map fun details =>
    { id := entityId, subjectType := entity, reason := "last_membership", details }

def assertLastGroupMember (surface : WriteSurface V) (memberId groupId : String)
    (delta : GroupMemberDelta) : Option Refusal :=
  match surface.groupMembersOf groupId with
  | none => none
  | some roster =>
      (lastGroupMemberViolation roster delta).map fun details =>
        { id := memberId, subjectType := "groupMember", reason := "last_group_member", details }

end Assertions

/-! ## The verbs -/

inductive Verb where
  | create (input : CreateInput)
  | update (entity id : String) (payload : List (String × PatchValue)) (updateId : String)
      (hlc : HLCTimestamp)
  | delete (entity id updateId : String)
  /-- `relate` and `unrelate`, by the Updates they plan: no pre-flight reads them. -/
  | relate (planned : List (Update Term))

def Verb.updates : Verb → List (Update Term)
  | .create input => createEntity input
  | .update entity id payload updateId hlc => patchEntity entity id payload updateId hlc
  | .delete entity id updateId => deleteEntity entity id updateId
  | .relate planned => planned

namespace WriteSurface

/-- Refuse a `groupMember` patch that would empty its group's capable members. -/
def guardMemberUpdate (surface : WriteSurface Term) (id : String)
    (payload : List (String × PatchValue)) : Option Refusal :=
  match payload.lookup "permissions", payload.lookup "group_id",
      surface.memberGroup.get? id with
  | some (.value (.list items)), none, some groupId =>
      match items.mapM asStringItem with
      | none => none
      | some permissions => assertLastGroupMember surface id groupId ⟨[], [(id, permissions)]⟩
  | _, _, _ => none

def guardMemberDelete (surface : WriteSurface Term) (id : String) : Option Refusal :=
  match surface.memberGroup.get? id with
  | none => none
  | some groupId => assertLastGroupMember surface id groupId ⟨[id], []⟩

def guardMembershipDelete (surface : WriteSurface Term) (membershipId : String) :
    Option Refusal :=
  match surface.membershipGroup.get? membershipId,
      surface.membershipEntity.get? membershipId with
  | some groupId, some entityId =>
      assertLastMembership surface ((surface.types.get? entityId).getD "") entityId [groupId]
  | _, _ => none

/-- One verb: the refusal it throws, if any, and the surface it leaves. A create is
recorded before its scope is checked. -/
def perform (surface : WriteSurface Term) (verb : Verb) : Option Refusal × WriteSurface Term :=
  match verb with
  | .create input =>
      let recorded := surface.record (createEntity input)
      (assertMembershipScope recorded input.entity input.id
        ((createEntity input).filter fun update => update.subjectType = "entityGroup"),
        recorded)
  | .update entity id payload _ _ =>
      match if entity = "groupMember" then surface.guardMemberUpdate id payload else none with
      | some refusal => (some refusal, surface)
      | none => (none, surface.record verb.updates)
  | .delete entity id _ =>
      match if entity = "entityGroup" then surface.guardMembershipDelete id
        else if entity = "groupMember" then surface.guardMemberDelete id
        else none with
      | some refusal => (some refusal, surface)
      | none => (none, surface.record verb.updates)
  | .relate planned => (none, surface.record planned)

/-- The surface after the verbs of an invocation, refused ones included. -/
def performAll (verbs : List Verb) : WriteSurface Term :=
  verbs.foldl (fun surface verb => (surface.perform verb).2) empty

end WriteSurface

def wireLeaf (leaf : FieldLeaf Term) : Term :=
  .map ((leaf.hlc.map fun hlc => ("hlc", Term.string (toString hlc))).toList ++
    [("update_id", .string leaf.updateId), ("value", leaf.value)])

mutual

def wireField : FieldValue Term → Term
  | .leaf leaf => wireLeaf leaf
  | .map entries => .map [("map", .map (wireFields entries))]

def wireFields : Fields Term → List (String × Term)
  | [] => []
  | (key, value) :: rest => (key, wireField value) :: wireFields rest

end

def wireUpdate (update : Update Term) : ValidatedUpdate where
  id := update.id
  subjectId := update.subjectId
  subjectType := update.subjectType
  method := update.method
  data :=
    match update.data with
    | none => .null
    | some fields => .map [("fields", .map (wireFields fields))]

def commitAction (id actorId : String) (hlc : Nat) (updates : List (Update Term)) :
    ValidatedAction where
  id := id
  actorId := actorId
  hlc := hlc
  updates := updates.map wireUpdate

end Ebb.Functions
