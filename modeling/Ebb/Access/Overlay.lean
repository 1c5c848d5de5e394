import Ebb.Access.SystemCaches

namespace Ebb.Access

/-! The planned future state of the system caches: one row or tombstone per
touched id, and which memberships of an entity are touched. -/

inductive Planned (α : Type) where
  | deleted
  | row (value : α)
deriving DecidableEq

structure Overlay where
  groupMembersById : OrderedMap String (Planned GroupMember)
  entityGroupsById : OrderedMap String (Planned EntityGroup)
  relationshipsById : OrderedMap String (Planned Relationship)
  entityTypes : OrderedMap String String
  entityGroupIds : OrderedMap Term (List String)
  entityGroupEntities : OrderedMap String Term

namespace Overlay

def empty : Overlay where
  groupMembersById := .empty
  entityGroupsById := .empty
  relationshipsById := .empty
  entityTypes := .empty
  entityGroupIds := .empty
  entityGroupEntities := .empty

/-! ## Memberships of an entity -/

def entityForMembership (overlay : Overlay) (membershipId : String) : Term :=
  match overlay.entityGroupsById.get? membershipId with
  | some (.row row) => row.entityId.or .null
  | _ => (overlay.entityGroupEntities.get? membershipId).getD .null

/-- An entity without touched memberships has no entry. -/
def setIds (entityGroupIds : OrderedMap Term (List String)) (entityId : Term)
    (ids : List String) : OrderedMap Term (List String) :=
  if ids = [] then entityGroupIds.erase entityId else entityGroupIds.set entityId ids

def dropEntityMembership (overlay : Overlay) (id : String) : Overlay :=
  match overlay.entityForMembership id with
  | .null => overlay
  | entityId =>
      let ids := ((overlay.entityGroupIds.get? entityId).getD []).filter (· ≠ id)
      { overlay with
        entityGroupIds := setIds overlay.entityGroupIds entityId ids
        entityGroupEntities := overlay.entityGroupEntities.erase id }

def addEntityMembership (overlay : Overlay) (id : String) : Term → Overlay
  | .null => overlay
  | entityId =>
      let ids := (overlay.entityGroupIds.get? entityId).getD []
      { overlay with
        entityGroupIds :=
          overlay.entityGroupIds.set entityId (if id ∈ ids then ids else ids ++ [id])
        entityGroupEntities := overlay.entityGroupEntities.set id entityId }

/-- The groups the touched memberships of an entity leave it in, over the cached
entries; nothing for an entity no planned row touches. -/
def entityGroups (overlay : Overlay) (entityId : Term) (cachedEntries : List EntityGroup) :
    Option (List Term) :=
  (overlay.entityGroupIds.get? entityId).map fun membershipIds =>
    let cached := cachedEntries.filter fun entry => entry.id ∉ membershipIds
    let planned := membershipIds.filterMap fun id =>
      match overlay.entityGroupsById.get? id with
      | some (.row row) => some row
      | _ => none
    (((cached ++ planned).map fun row => row.groupId.or .null).filter (· ≠ .null)).eraseDups

/-! ## Writes -/

def putGroupMember (overlay : Overlay) (id : String) (row : Planned GroupMember) : Overlay :=
  { overlay with groupMembersById := overlay.groupMembersById.set id row }

def putEntityGroup (overlay : Overlay) (id : String) (row : EntityGroup) : Overlay :=
  let dropped := overlay.dropEntityMembership id
  let written := { dropped with entityGroupsById := dropped.entityGroupsById.set id (.row row) }
  written.addEntityMembership id (row.entityId.or .null)

def deleteEntityGroup (overlay : Overlay) (id : String) (entityId : Term) : Overlay :=
  let owner := entityId.or (overlay.entityForMembership id)
  let dropped := overlay.dropEntityMembership id
  let written := { dropped with entityGroupsById := dropped.entityGroupsById.set id .deleted }
  written.addEntityMembership id owner

def putRelationship (overlay : Overlay) (id : String) (row : Planned Relationship) : Overlay :=
  { overlay with relationshipsById := overlay.relationshipsById.set id row }

def putEntityType (overlay : Overlay) (id type : String) : Overlay :=
  { overlay with entityTypes := overlay.entityTypes.set id type }

/-- Later rows win, and the entities' memberships are rebuilt from the merged
projection. -/
def merge (base overlay : Overlay) : Overlay :=
  let rows : Overlay :=
    { groupMembersById := base.groupMembersById.merge overlay.groupMembersById
      entityGroupsById := base.entityGroupsById.merge overlay.entityGroupsById
      relationshipsById := base.relationshipsById.merge overlay.relationshipsById
      entityTypes := base.entityTypes.merge overlay.entityTypes
      entityGroupIds := .empty
      entityGroupEntities := .empty }
  (base.entityGroupEntities.merge overlay.entityGroupEntities).entries.foldl
    (fun merged entry =>
      { merged with
        entityGroupEntities :=
          merged.entityGroupEntities.set entry.1 entry.2 }.addEntityMembership entry.1 entry.2)
    rows

end Overlay

/-- `merge_overlays/1`. -/
def mergeOverlays (overlays : List Overlay) : Overlay := overlays.foldl Overlay.merge .empty

end Ebb.Access
