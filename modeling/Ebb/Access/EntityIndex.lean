import Ebb.Access.CacheMutationPlanner

namespace Ebb.Access

/-! Which groups own an entity: the one resolution surface of authorization and
fan-out. -/

/-- The lookup options: the tables, the Action's own memberships and relationship
sources, and the planned rows a predecessor has not applied yet. -/
structure ResolveOpts where
  caches : SystemCaches
  intraAction : OrderedMap Term (List Term)
  intraRelationshipSources : OrderedMap String Term
  overlay : Overlay

namespace EntityIndex

def cachedRow (planned : Option (Planned α)) (cached : Option α) : Option α :=
  match planned with
  | some .deleted => none
  | some (.row row) => some row
  | none => cached

def groupMemberRow (opts : ResolveOpts) (id : String) : Option GroupMember :=
  cachedRow (opts.overlay.groupMembersById.get? id) (opts.caches.groups.getGroupMember id)

def entityGroupRow (opts : ResolveOpts) (id : String) : Option EntityGroup :=
  cachedRow (opts.overlay.entityGroupsById.get? id)
    (opts.caches.entityGroups.getEntityGroup id)

def relationshipRow (opts : ResolveOpts) (id : String) : Option Relationship :=
  cachedRow (opts.overlay.relationshipsById.get? id)
    (opts.caches.relationships.getRelationship id)

def sourceGroupsCached (opts : ResolveOpts) (sourceId : Term) : List Term :=
  let entries := opts.caches.entityGroups.entityGroupEntries sourceId
  (opts.overlay.entityGroups sourceId entries).getD (entries.map (·.groupId)).eraseDups

/-- `resolve_groups_cached/3`: the cached groups, and the entity whose memberships
in the Action come on top. -/
def resolveGroupsCached (opts : ResolveOpts) (subjectType subjectId : String) :
    List Term × Term :=
  match subjectType with
  | "group" => ([.string subjectId], .null)
  | "entityGroup" =>
      match entityGroupRow opts subjectId with
      | none => ([], .null)
      | some row => ((row.groupId.or .null).wrap, .null)
  | "relationship" =>
      match relationshipRow opts subjectId with
      | none =>
          match opts.intraRelationshipSources.get? subjectId with
          | none => ([], .null)
          | some sourceId => (sourceGroupsCached opts sourceId, sourceId)
      | some row =>
          let sourceId := row.sourceId.or .null
          (sourceGroupsCached opts sourceId, sourceId)
  | "groupMember" =>
      match groupMemberRow opts subjectId with
      | none => ([], .null)
      | some row => ((row.groupId.or .null).wrap, .null)
  | _ => (sourceGroupsCached opts (.string subjectId), .string subjectId)

def applyIntraAction (opts : ResolveOpts) (groups : List Term) : Term → List Term
  | .null => groups
  | sourceId =>
      match (opts.intraAction.get? sourceId).getD [] with
      | [] => groups
      | intraAction => (groups ++ intraAction).eraseDups

def resolveGroups (opts : ResolveOpts) (subjectType subjectId : String) : List Term :=
  let (groups, sourceId) := resolveGroupsCached opts subjectType subjectId
  applyIntraAction opts groups sourceId

def sourceGroups (opts : ResolveOpts) (sourceId : Term) : List Term :=
  applyIntraAction opts (sourceGroupsCached opts sourceId) sourceId

def subjectType (opts : ResolveOpts) (entityId : String) : Option String :=
  (opts.overlay.entityTypes.get? entityId).or (opts.caches.entityTypes.get? entityId)

def «exists» (opts : ResolveOpts) (entityId : String) : Bool :=
  (subjectType opts entityId).isSome

/-- The entity and the group of an `entityGroup` row. -/
def membership (opts : ResolveOpts) (membershipId : String) : Option (Term × Term) :=
  (entityGroupRow opts membershipId).map fun row => (row.entityId.or .null, row.groupId.or .null)

/-- The source a `relationship` row is bound to, `null` without a row. -/
def relationshipSource (opts : ResolveOpts) (relId : String) : Term :=
  ((relationshipRow opts relId).map fun row => row.sourceId.or .null).getD .null

/-- A put or patch follows its wire source, and a delete the stored one. -/
def scopeSource (opts : ResolveOpts) (method : UpdateMethod) (wireSource : Term)
    (relId : String) : Term :=
  match method with
  | .delete => (relationshipSource opts relId).or wireSource
  | _ => wireSource.or (relationshipSource opts relId)

theorem scopeSource_delete {opts : ResolveOpts} {wire : Term} {id : String} :
    scopeSource opts .delete wire id = (relationshipSource opts id).or wire := rfl

theorem scopeSource_write {opts : ResolveOpts} {method : UpdateMethod} {wire : Term}
    {id : String} (write : method ≠ .delete) :
    scopeSource opts method wire id = wire.or (relationshipSource opts id) := by
  cases method with
  | delete => exact absurd rfl write
  | put => rfl
  | patch => rfl

def relationshipGroups (opts : ResolveOpts) (method : UpdateMethod) (sourceId : Term)
    (relId : String) : List Term :=
  match scopeSource opts method sourceId relId with
  | .null => resolveGroups opts "relationship" relId
  | source => sourceGroups opts source

/-- How the groups an Update fans out to are found. -/
inductive FanOut where
  | wire (groupIds : List Term)
  | source (entityId : Term)
  | byId (subjectType : String)
deriving DecidableEq

def fanOutPreference (opts : ResolveOpts) (update : ValidatedUpdate) : Outcome FanOut :=
  match update.subjectType with
  | "relationship" => do
      let sourceId ← Fields.get update.data "source_id"
      match scopeSource opts update.method sourceId update.subjectId with
      | .null => .ok (.byId "relationship")
      | source => .ok (.source source)
  | "entityGroup" | "groupMember" => do
      match ← Fields.get update.data "group_id" with
      | .null => .ok (.byId update.subjectType)
      | groupId => .ok (.wire [groupId])
  | type => .ok (.byId type)

end EntityIndex

end Ebb.Access
