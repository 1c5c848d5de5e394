import Ebb.Access.PermissionHelper

namespace Ebb.Access

/-! Whether an actor may commit the Actions of a request: each Update against the
committed tables, and each Action over what the request's accepted Actions did. -/

namespace Authorizer

open PermissionHelper

/-- A member row as the last-member check counts it. -/
structure MemberRow where
  groupId : Term
  permissions : List Term
deriving DecidableEq

/-- What the request knows on top of the tables, which advance only at the commit. -/
structure RequestSim where
  additions : OrderedMap Term (List Term)
  removals : OrderedMap Term (List Term)
  types : OrderedMap String String
  memberOverlay : OrderedMap String (Option MemberRow)
  membersByGroup : OrderedMap Term (OrderedMap String (List Term))
  membershipRows : OrderedMap (Term × Term) String
  removedMembershipIds : List String
  deletedRelationships : List String

def newSim : RequestSim where
  additions := .empty
  removals := .empty
  types := .empty
  memberOverlay := .empty
  membersByGroup := .empty
  membershipRows := .empty
  removedMembershipIds := []
  deletedRelationships := []

/-- The facts of one Action that its checks share. -/
structure Authz where
  caches : SystemCaches
  intra : OrderedMap Term (List Term)
  intraRelationshipSources : OrderedMap String Term
  bootstrap : OrderedMap Term (List Term)
  bootstrapMembershipIds : List String
  createdIds : List String
  createdTypes : OrderedMap String String
  deletedMemberships : OrderedMap String (Option (Term × Term))
  deletedRelationships : List String
  updates : List ValidatedUpdate

def tableOpts (caches : SystemCaches) : ResolveOpts where
  caches := caches
  intraAction := .empty
  intraRelationshipSources := .empty
  overlay := .empty

def Authz.opts (authz : Authz) : ResolveOpts := tableOpts authz.caches

def Authz.intraOpts (authz : Authz) : ResolveOpts :=
  { authz.opts with
    intraAction := authz.intra
    intraRelationshipSources := authz.intraRelationshipSources }

def deletesOf (type : String) (updates : List ValidatedUpdate) : List ValidatedUpdate :=
  updates.filter fun update => update.subjectType = type ∧ update.method = .delete

/-- Keyed by the row, since two deletes may share an Update id. -/
def resolveDeletedMemberships (updates : List ValidatedUpdate) (opts : ResolveOpts) :
    OrderedMap String (Option (Term × Term)) :=
  (deletesOf "entityGroup" updates).foldl
    (fun rows update => rows.set update.subjectId (EntityIndex.membership opts update.subjectId))
    .empty

def deletedRelationshipIds (updates : List ValidatedUpdate) : List String :=
  (deletesOf "relationship" updates).map (·.subjectId)

def buildAuthz (caches : SystemCaches) (actorId : String) (sim : RequestSim)
    (updates : List ValidatedUpdate) : Authz :=
  let opts := tableOpts caches
  let known := EntityIndex.exists opts
  -- The type index can lag the member table, which proves a row on its own.
  let memberKnown := fun memberId =>
    known memberId || (caches.groups.getGroupMember memberId).isSome
  { caches
    intra := buildIntraActionContext updates
    intraRelationshipSources := buildIntraRelationshipSources updates
    bootstrap := bootstrapGroupPermissions updates actorId known
    bootstrapMembershipIds := bootstrapMembershipRowIds updates actorId memberKnown
    createdIds := createdSubjectIds updates known
    createdTypes := (createdEntityTypes updates).merge sim.types
    deletedMemberships := resolveDeletedMemberships updates opts
    deletedRelationships := sim.deletedRelationships ++ deletedRelationshipIds updates
    updates }

def refuse (reason details : String) : Outcome α := .error (.error reason details)

/-! ## Permissions -/

/-- `Enum.any?` over calls that may raise. -/
def anyOf (holds : α → Outcome Bool) : List α → Outcome Bool
  | [] => .ok false
  | item :: rest => do
      if ← holds item then .ok true else anyOf holds rest

/-- The tables alone: declared bootstrap permissions cover only what the Action
creates. -/
def cachedPermissions (authz : Authz) (actorId : String) (groupId : Term) :
    Outcome (Option (List Permission)) :=
  authz.caches.groups.getPermissions actorId groupId

def permissionsFor (authz : Authz) (actorId : String) (groupId : Term) :
    Outcome (Option (List Permission)) := do
  let cached ← authz.caches.groups.getPermissions actorId groupId
  match cached, authz.bootstrap.get? groupId with
  | none, none => .ok none
  | cached, declared =>
      .ok (some (cached.getD [] ++ (declared.getD []).map Permission.term).eraseDups)

def checkGroupPermission (permissionsOf : Term → Outcome (Option (List Permission)))
    (groupIds : List Term) (type permission : String) : Outcome Unit := do
  let grants := fun groupId => do
    match ← permissionsOf groupId with
    | none => .ok false
    | some permissions => .ok (checkPermission permissions type permission)
  if ← anyOf grants (groupIds.filter (· ≠ .null)) then .ok ()
  else refuse "not_authorized" "missing required permission"

def checkEveryGroupPermission (permissionsOf : Term → Outcome (Option (List Permission)))
    (type permission : String) : List Term → Outcome Unit
  | [] => .ok ()
  | groupId :: rest => do
      checkGroupPermission permissionsOf [groupId] type permission
      checkEveryGroupPermission permissionsOf type permission rest

/-! ## Identity -/

/-- A put may move a membership row to another group, not to another entity. -/
def checkMembershipRowEntity (membershipId : String) (entityId : Term) (authz : Authz) :
    Outcome Unit :=
  match EntityIndex.membership authz.opts membershipId with
  | none => .ok ()
  | some (owner, _) =>
      if owner = entityId then .ok ()
      else refuse "not_authorized" "a membership row cannot be re-pointed at another entity"

def committedRelationshipSource (relationshipId : String) (authz : Authz) : Term :=
  if relationshipId ∈ authz.deletedRelationships then .null
  else EntityIndex.relationshipSource authz.opts relationshipId

def checkRelationshipRowSource (relationshipId : String) (sourceId : Term) (authz : Authz) :
    Outcome Unit :=
  let committed := committedRelationshipSource relationshipId authz
  if sourceId = .null then .ok ()
  else if committed = .null then .ok ()
  else if committed = sourceId then .ok ()
  else refuse "not_authorized" "a relationship row cannot be re-pointed at another source"

def checkUpdateRowIdentity (update : ValidatedUpdate) (authz : Authz) : Outcome Unit :=
  match update.subjectType, update.method with
  | "entityGroup", .put => do
      checkMembershipRowEntity update.subjectId (← Fields.get update.data "entity_id") authz
  | "relationship", .put | "relationship", .patch => do
      checkRelationshipRowSource update.subjectId (← Fields.get update.data "source_id") authz
  | _, _ => .ok ()

/-- A by-id row carries its system type by construction. -/
def cachedSystemType (entityId : String) (authz : Authz) : Option String :=
  if (authz.caches.groups.getGroupMember entityId).isSome then some "groupMember"
  else if (authz.caches.entityGroups.getEntityGroup entityId).isSome then some "entityGroup"
  else if (authz.caches.relationships.getRelationship entityId).isSome then
    some "relationship"
  else none

def committedType (entityId : String) (authz : Authz) : Option String :=
  (EntityIndex.subjectType authz.opts entityId).or (cachedSystemType entityId authz)

def requireWireType (type : String) (update : ValidatedUpdate) : Outcome Unit :=
  if update.subjectType = type then .ok ()
  else refuse "not_authorized"
    "update subject_type does not match the type this entity was committed under"

/-- An owned id is not new, so its wire type may not stand in for a lost one. -/
def checkUnresolvedType (update : ValidatedUpdate) (authz : Authz) : Outcome Unit :=
  if EntityIndex.sourceGroups authz.opts (.string update.subjectId) ≠ [] then
    refuse "not_authorized" "cannot resolve the type this entity was committed under"
  else
    match authz.createdTypes.get? update.subjectId with
    | none => .ok ()
    | some requestType => requireWireType requestType update

def checkUpdateTypeIdentity (update : ValidatedUpdate) (authz : Authz) : Outcome Unit :=
  match committedType update.subjectId authz with
  | none => checkUnresolvedType update authz
  | some committed => requireWireType committed update

/-- A committed type wins over the type the request gave. -/
def entityType (entityId : Term) (authz : Authz) : Option String :=
  match entityId with
  | .string id => (EntityIndex.subjectType authz.opts id).or (authz.createdTypes.get? id)
  | _ => none

/-! ## Updates of each type -/

def authorizeGroupUpdate (update : ValidatedUpdate) (actorId : String) (authz : Authz) :
    Outcome Unit :=
  checkGroupPermission (permissionsFor authz actorId) [.string update.subjectId] "group"
    (methodToPermission update.method)

/-- What the tables know of a member id: nothing, its group, or only that it exists. -/
inductive ExistingMember where
  | new
  | unresolved
  | existing (groupId : Term)

def existingGroupMember (memberId : String) (authz : Authz) : ExistingMember :=
  match authz.caches.groups.getGroupMember memberId with
  | none => if EntityIndex.exists authz.opts memberId then .unresolved else .new
  | some row => .existing row.groupId

def systemEntityGroupIds (update : ValidatedUpdate) (type : String) (authz : Authz) :
    Outcome (List Term) := do
  match ← Fields.get update.data "group_id" with
  | .null => .ok (EntityIndex.resolveGroups authz.opts type update.subjectId)
  | groupId => .ok [groupId]

def wireGroupIds (update : ValidatedUpdate) : Outcome (List Term) := do
  .ok (← Fields.get update.data "group_id").wrap

def authorizeNewGroupMemberUpdate (update : ValidatedUpdate) (actorId : String)
    (authz : Authz) : Outcome Unit := do
  match ← systemEntityGroupIds update "groupMember" authz with
  | [] => refuse "not_authorized" "cannot resolve the group for this groupMember"
  | groupIds =>
      checkGroupPermission (permissionsFor authz actorId) groupIds "groupMember"
        (methodToPermission update.method)

/-- A move needs the permission in the group the row leaves and in the one it
enters. -/
def authorizeExistingGroupMemberUpdate (update : ValidatedUpdate) (existingGroup : Term)
    (actorId : String) (authz : Authz) : Outcome Unit := do
  checkEveryGroupPermission (cachedPermissions authz actorId) "groupMember"
    (methodToPermission update.method) (existingGroup :: (← wireGroupIds update)).eraseDups

def authorizeGroupMemberUpdate (update : ValidatedUpdate) (actorId : String) (authz : Authz) :
    Outcome Unit :=
  match existingGroupMember update.subjectId authz with
  | .new => authorizeNewGroupMemberUpdate update actorId authz
  | .unresolved => refuse "not_authorized" "cannot resolve the group of this groupMember row"
  | .existing groupId => authorizeExistingGroupMemberUpdate update groupId actorId authz

def membershipIdentity (update : ValidatedUpdate) : Outcome (Term × Term) := do
  let entityId ← Fields.get update.data "entity_id"
  let groupId ← Fields.get update.data "group_id"
  if entityId.isBinary && entityId ≠ .string "" && groupId.isBinary && groupId ≠ .string "" then
    .ok (entityId, groupId)
  else refuse "not_authorized" "entityGroup put needs a string entity_id and group_id"

/-- The put names the row the pair already has, and the Action does not delete it. -/
def holdsMembershipRow (entityId groupId : Term) (rowId : String) (authz : Authz) : Bool :=
  (authz.caches.entityGroups.entityGroupEntries entityId).any fun entry =>
    entry.groupId = groupId && entry.id = rowId && !authz.deletedMemberships.contains rowId

def checkExistingOwnership (entityId groupId : Term) (rowId actorId type : String)
    (authz : Authz) : Outcome Unit :=
  match EntityIndex.sourceGroups authz.opts entityId with
  | [] => .ok ()
  | groupIds =>
      if holdsMembershipRow entityId groupId rowId authz then .ok ()
      else checkGroupPermission (cachedPermissions authz actorId) groupIds type "update"

def entityIsKnown (entityId : Term) (authz : Authz) : Bool :=
  match entityId with
  | .string id => EntityIndex.exists authz.opts id
  | _ => false

def checkNotOwnerless (entityId : Term) (authz : Authz) : Outcome Unit :=
  if EntityIndex.sourceGroups authz.opts entityId = [] ∧ entityIsKnown entityId authz then
    refuse "not_authorized" "cannot file an entity that has no owning group"
  else .ok ()

def authorizeEntityGroupPut (entityId groupId : Term) (rowId actorId : String)
    (authz : Authz) : Outcome Unit :=
  match entityType entityId authz with
  | none =>
      refuse "not_authorized" "cannot resolve the type of the entity being added to a group"
  | some type => do
      checkGroupPermission (cachedPermissions authz actorId) [groupId] type "create"
      checkExistingOwnership entityId groupId rowId actorId type authz
      checkNotOwnerless entityId authz

def authorizeMembershipDelete (entityId : Term) (actorId : String) (authz : Authz) :
    Outcome Unit :=
  match entityType entityId authz with
  | none =>
      refuse "not_authorized" "cannot resolve the type of the entity owning this membership"
  | some type =>
      checkGroupPermission (cachedPermissions authz actorId)
        (EntityIndex.sourceGroups authz.opts entityId) type "update"

def methodName : UpdateMethod → String
  | .put => "put"
  | .patch => "patch"
  | .delete => "delete"

def authorizeEntityGroupUpdate (update : ValidatedUpdate) (actorId : String) (authz : Authz) :
    Outcome Unit :=
  match update.method with
  | .put => do
      let (entityId, groupId) ← membershipIdentity update
      authorizeEntityGroupPut entityId groupId update.subjectId actorId authz
  | .delete =>
      match authz.deletedMemberships.get? update.subjectId with
      | some (some (entityId, _)) => authorizeMembershipDelete entityId actorId authz
      | _ => refuse "not_authorized" "cannot resolve the entity for this membership"
  | method =>
      refuse "not_authorized"
        ("entityGroup " ++ methodName method ++
          " is not supported: delete and re-put the membership instead")

def relationshipGroupIds (update : ValidatedUpdate) (authz : Authz) : Outcome (List Term) := do
  .ok (EntityIndex.relationshipGroups authz.intraOpts update.method
    (← Fields.get update.data "source_id") update.subjectId)

def sourceEntityType (update : ValidatedUpdate) (authz : Authz) : Outcome (Option String) := do
  .ok (entityType (← Fields.get update.data "source_id") authz)

/-- A put needs the source's own `update`, by the source's true type. -/
def authorizeRelationshipUpdate (update : ValidatedUpdate) (actorId : String) (authz : Authz) :
    Outcome Unit :=
  match update.method with
  | .put => do
      match ← sourceEntityType update authz with
      | none => refuse "not_authorized" "relationship source type is unresolvable"
      | some sourceType =>
          checkGroupPermission (permissionsFor authz actorId)
            (← relationshipGroupIds update authz) sourceType "update"
  | method => do
      checkGroupPermission (permissionsFor authz actorId) (← relationshipGroupIds update authz)
        "relationship" (methodToPermission method)

def authorizeUserEntityUpdate (type : String) (update : ValidatedUpdate) (actorId : String)
    (authz : Authz) : Outcome Unit :=
  match EntityIndex.resolveGroups authz.intraOpts type update.subjectId with
  | [] =>
      refuse "missing_ownership"
        "entity has no group membership; every write must resolve at least one owning group"
  | groupIds =>
      checkGroupPermission (permissionsFor authz actorId) groupIds type
        (methodToPermission update.method)

def authorizeUpdate (update : ValidatedUpdate) (actorId : String) (authz : Authz) :
    Outcome Unit :=
  match update.subjectType with
  | "group" => authorizeGroupUpdate update actorId authz
  | "groupMember" => authorizeGroupMemberUpdate update actorId authz
  | "entityGroup" => authorizeEntityGroupUpdate update actorId authz
  | "relationship" => authorizeRelationshipUpdate update actorId authz
  | type => authorizeUserEntityUpdate type update actorId authz

def authorizeOrExempt (update : ValidatedUpdate) (actorId : String) (authz : Authz) :
    Outcome Unit :=
  if bootstrapUpdate update actorId authz.bootstrap authz.createdIds
      authz.bootstrapMembershipIds then .ok ()
  else authorizeUpdate update actorId authz

/-- Row and type identity are no permissions, so the bootstrap does not exempt from
them. -/
def checkUpdate (actorId : String) (authz : Authz) (update : ValidatedUpdate) :
    Outcome Unit := do
  checkUpdateRowIdentity update authz
  checkUpdateTypeIdentity update authz
  authorizeOrExempt update actorId authz

def checkAllUpdates (actorId : String) (authz : Authz) : List ValidatedUpdate → Outcome Unit
  | [] => .ok ()
  | update :: rest => do
      checkUpdate actorId authz update
      checkAllUpdates actorId authz rest

/-! ## One membership row per pair -/

/-- The rows the request leaves live for one pair: the table's, less those the
request deletes, and the row an earlier put of the request wrote. -/
def liveMembershipRowIds (entityId groupId : Term) (authz : Authz) (sim : RequestSim) :
    List String :=
  let cached := ((authz.caches.entityGroups.entityGroupEntries entityId).filter fun entry =>
    entry.groupId = groupId && entry.id ∉ sim.removedMembershipIds).map (·.id)
  (cached ++ (sim.membershipRows.get? (entityId, groupId)).toList).eraseDups

def applyMembershipPut (authz : Authz) (sim : RequestSim) (update : ValidatedUpdate) :
    Outcome RequestSim := do
  let entityId ← Fields.get update.data "entity_id"
  let groupId ← Fields.get update.data "group_id"
  if !(entityId.isBinary && groupId.isBinary) then .ok sim
  else if (liveMembershipRowIds entityId groupId authz sim).any (· ≠ update.subjectId) then
    refuse "not_authorized"
      ("the entity is already filed in that group: delete its membership row instead of " ++
        "adding a second one")
  else
    .ok { sim with
      membershipRows := sim.membershipRows.set (entityId, groupId) update.subjectId }

def putsOf (type : String) (updates : List ValidatedUpdate) : List ValidatedUpdate :=
  updates.filter fun update => isPutOf update type

/-- Deletes are read before puts: a delete and a put of one pair replace the row. -/
def checkMembershipRows (authz : Authz) (sim : RequestSim) : Outcome RequestSim :=
  let deleted := (authz.deletedMemberships.entries.map Prod.snd).filterMap id
  let cleared :=
    { sim with
      removedMembershipIds := authz.deletedMemberships.keys ++ sim.removedMembershipIds
      membershipRows := deleted.foldl (fun rows pair => rows.erase pair) sim.membershipRows }
  (putsOf "entityGroup" authz.updates).foldlM (applyMembershipPut authz) cleared

def mergeAdditions (prior added : OrderedMap Term (List Term)) : OrderedMap Term (List Term) :=
  prior.mergeWith (fun earlier later => (earlier ++ later).eraseDups) added

def mergeRemovals (prior removed : OrderedMap Term (List Term)) : OrderedMap Term (List Term) :=
  prior.mergeWith (· ++ ·) removed

def deletedGroupIds (deletedMemberships : OrderedMap String (Option (Term × Term))) :
    OrderedMap Term (List Term) :=
  ((deletedMemberships.entries.map Prod.snd).filterMap id).foldl
    (fun groups pair => groups.set pair.1 (pair.2 :: (groups.get? pair.1).getD [])) .empty

/-- The groups the entity is left with: `--` associates to the right, so a group is
subtracted only when it is removed more often than a put adds it. -/
def resultingGroups (entityId : Term) (additions removals : OrderedMap Term (List Term))
    (opts : ResolveOpts) : List Term :=
  let cached := EntityIndex.sourceGroups opts entityId
  let added := (additions.get? entityId).getD []
  let removed := (removals.get? entityId).getD []
  (cached ++ added).eraseDups.diff (removed.diff added)

def checkLastMembership (authz : Authz) (sim : RequestSim) : Outcome RequestSim :=
  let additions := mergeAdditions sim.additions authz.intra
  let removals := mergeRemovals sim.removals (deletedGroupIds authz.deletedMemberships)
  let touched := (additions.keys ++ removals.keys).eraseDups
  if touched.any fun entityId => resultingGroups entityId additions removals authz.opts = [] then
    refuse "last_membership"
      "removing this membership would leave the entity with no owning group"
  else .ok { sim with additions := additions, removals := removals }

/-! ## The last capable member -/

def memberRowOf (row : GroupMember) : MemberRow := ⟨row.groupId, row.permissions.wrap⟩

def cachedGroupMember (memberId : String) (authz : Authz) : Option MemberRow :=
  (authz.caches.groups.getGroupMember memberId).map memberRowOf

def resolveGroupMember (memberId : String) (authz : Authz) (sim : RequestSim) :
    Option MemberRow :=
  match sim.memberOverlay.get? memberId with
  | some row => row
  | none => cachedGroupMember memberId authz

/-- A put that drops the group is no membership; a patch falls back to the row. -/
def memberGroupId (method : UpdateMethod) (data : Term) (existing : Option MemberRow) :
    Outcome Term :=
  match method with
  | .patch => do
      .ok ((← Fields.get data "group_id").or ((existing.map (·.groupId)).getD .null))
  | _ => Fields.get data "group_id"

def resultingPermissions (method : UpdateMethod) (data : Term) (existing : Option MemberRow) :
    Outcome (List Term) :=
  match method with
  | .patch => do
      match ← Fields.get data "permissions" with
      | .null => .ok ((existing.map (·.permissions)).getD [])
      | permissions => .ok permissions.wrap
  | _ => do .ok (← Fields.get data "permissions").wrap

def loadGroup (groupId : Term) (authz : Authz) : OrderedMap String (List Term) :=
  (authz.caches.groups.groupMemberIds groupId).foldl
    (fun members memberId =>
      match cachedGroupMember memberId authz with
      | none => members
      | some row => members.set memberId row.permissions) .empty

def ensureGroup (membersByGroup : OrderedMap Term (OrderedMap String (List Term)))
    (groupId : Term) (authz : Authz) : OrderedMap String (List Term) :=
  (membersByGroup.get? groupId).getD (loadGroup groupId authz)

def removeGroupMember (sim : RequestSim) (memberId : String) (groupId : Term) (authz : Authz) :
    RequestSim :=
  let members := ensureGroup sim.membersByGroup groupId authz
  { sim with membersByGroup := sim.membersByGroup.set groupId (members.erase memberId) }

def addGroupMember (sim : RequestSim) (memberId : String) (row : MemberRow) (authz : Authz) :
    RequestSim :=
  let members := ensureGroup sim.membersByGroup row.groupId authz
  { sim with
    membersByGroup := sim.membersByGroup.set row.groupId (members.set memberId row.permissions) }

def removeMovedMember (sim : RequestSim) (memberId : String) (existing : Option MemberRow)
    (row : MemberRow) (authz : Authz) : RequestSim :=
  match existing with
  | some previous =>
      if previous.groupId ≠ row.groupId then
        removeGroupMember sim memberId previous.groupId authz
      else sim
  | none => sim

def applyGroupMember (authz : Authz) (sim : RequestSim) (update : ValidatedUpdate) :
    Outcome RequestSim :=
  match update.method with
  | .delete =>
      match resolveGroupMember update.subjectId authz sim with
      | none => .ok sim
      | some row =>
          let removed := removeGroupMember sim update.subjectId row.groupId authz
          .ok { removed with memberOverlay := sim.memberOverlay.set update.subjectId none }
  | method => do
      let data := dataOrEmpty update.data
      let existing := resolveGroupMember update.subjectId authz sim
      let groupId ← memberGroupId method data existing
      if groupId = .null then .ok sim
      else
        let row := MemberRow.mk groupId (← resultingPermissions method data existing)
        let moved := addGroupMember (removeMovedMember sim update.subjectId existing row authz)
          update.subjectId row authz
        .ok { moved with memberOverlay := sim.memberOverlay.set update.subjectId (some row) }

def capableGroup (members : OrderedMap String (List Term)) : Bool :=
  members.entries.any fun entry => entry.2 ≠ []

def checkLastGroupMember (authz : Authz) (sim : RequestSim) : Outcome RequestSim := do
  let sim ← (authz.updates.filter fun update => update.subjectType = "groupMember").foldlM
    (applyGroupMember authz) sim
  if sim.membersByGroup.entries.any fun entry => !capableGroup entry.2 then
    refuse "last_group_member"
      "removing this membership would leave the group with no member that can administer it"
  else .ok sim

/-! ## Requests -/

def authorizeAction (caches : SystemCaches) (actorId : String) (sim : RequestSim)
    (action : ValidatedAction) : Outcome RequestSim := do
  let authz := buildAuthz caches actorId sim action.updates
  checkAllUpdates actorId authz action.updates
  let sim ← checkMembershipRows authz sim
  let sim ← checkLastMembership authz sim
  let sim ← checkLastGroupMember authz sim
  .ok { sim with
    types := authz.createdTypes
    deletedRelationships := authz.deletedRelationships }

structure Rejection where
  action : ValidatedAction
  reason : String
  details : String
deriving DecidableEq

/-- A rejected Action leaves no trace on the Actions after it. -/
def authorizeFrom (caches : SystemCaches) (actorId : String) :
    RequestSim → List ValidatedAction → Outcome (List ValidatedAction × List Rejection)
  | _, [] => .ok ([], [])
  | sim, action :: rest =>
      match authorizeAction caches actorId sim action with
      | .ok next => do
          let (accepted, rejected) ← authorizeFrom caches actorId next rest
          .ok (action :: accepted, rejected)
      | .error (.error reason details) => do
          let (accepted, rejected) ← authorizeFrom caches actorId sim rest
          .ok (accepted, ⟨action, reason, details⟩ :: rejected)
      | .error (.raised exception) => .error (.raised exception)

def authorize (actions : List ValidatedAction) (actorId : String) (caches : SystemCaches) :
    Outcome (List ValidatedAction × List Rejection) :=
  authorizeFrom caches actorId newSim actions

end Authorizer

end Ebb.Access
