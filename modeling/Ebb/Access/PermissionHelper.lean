import Ebb.Access.EntityIndex

namespace Ebb.Access

/-! What an actor may do in a group, and what an Action exempts from it because the
Action creates the group. -/

/-! ## Permissions of a member -/

/-- An element of a permission list; an object enumerates as its pairs. -/
inductive Permission where
  | term (value : Term)
  | pair (key : String) (value : Term)
deriving DecidableEq

namespace Permission

/-- The elements of stored permissions, which need not be a list. -/
def enumerate : Term → Outcome (List Permission)
  | .list items => .ok (items.map .term)
  | .map entries => .ok (entries.map fun entry => .pair entry.1 entry.2)
  | _ => .error (.raised .protocolUndefinedError)

mutual
def flattenTerm : Term → List Permission
  | .list items => flattenItems items
  | value => [.term value]

def flattenItems : List Term → List Permission
  | [] => []
  | item :: rest => flattenTerm item ++ flattenItems rest
end

/-- `List.flatten` of one element. -/
def flatten : Permission → List Permission
  | .term value => flattenTerm value
  | .pair key value => [.pair key value]

end Permission

def grantedBy (groupId : Term) (row : GroupMember) : Outcome (List Permission) :=
  if row.groupId = groupId then Permission.enumerate row.permissions else .ok []

/-- `get_permissions/3`: no membership, or only empty ones, is no permission list. -/
def GroupCache.getPermissions (cache : GroupCache) (actorId : String) (groupId : Term) :
    Outcome (Option (List Permission)) := do
  let granted ← (Bag.lookup (.string actorId) cache.groupMembers).mapM (grantedBy groupId)
  match granted.flatten with
  | [] => .ok none
  | permissions => .ok (some (permissions.flatMap Permission.flatten).eraseDups)

namespace PermissionHelper

def methodToPermission : UpdateMethod → String
  | .put => "create"
  | .patch => "update"
  | .delete => "delete"

def checkPermission (permissions : List Permission) (type permission : String) : Bool :=
  permissions.any fun granted =>
    granted = .term (.string (type ++ "." ++ permission)) ∨
      granted = .term (.string (type ++ ".*"))

/-! ## Groups and rows an Action creates -/

/-- `get_data_field/2`, which reads nothing from data that is no object. -/
def getDataField (update : ValidatedUpdate) (key : String) : Term := fieldOf update.data key

def isPutOf (update : ValidatedUpdate) (type : String) : Bool :=
  update.subjectType = type ∧ update.method = .put

def bootstrappedGroupIds (updates : List ValidatedUpdate) («exists» : String → Bool) :
    List String :=
  ((updates.filter fun update => isPutOf update "group").map (·.subjectId)).filter
    fun groupId => !«exists» groupId

def holds (ids : List String) : Term → Bool
  | .string id => id ∈ ids
  | _ => false

def ownGroupMemberPut (update : ValidatedUpdate) (actorId : String) (groupIds : List String) :
    Bool :=
  isPutOf update "groupMember" && getDataField update "actor_id" = .string actorId &&
    holds groupIds (getDataField update "group_id")

/-- The groups the actor creates and joins, with the permissions it grants itself. -/
def bootstrapGroupPermissions (updates : List ValidatedUpdate) (actorId : String)
    («exists» : String → Bool) : OrderedMap Term (List Term) :=
  (updates.filter fun update =>
      ownGroupMemberPut update actorId (bootstrappedGroupIds updates «exists»)).foldl
    (fun granted update => granted.set (getDataField update "group_id")
      (getDataField update "permissions").wrap) .empty

def bootstrapMembershipRowIds (updates : List ValidatedUpdate) (actorId : String)
    («exists» : String → Bool) : List String :=
  ((updates.filter fun update =>
      ownGroupMemberPut update actorId (bootstrappedGroupIds updates «exists»)).map
    (·.subjectId)).filter fun memberId => !«exists» memberId

def createdEntityTypes (updates : List ValidatedUpdate) : OrderedMap String String :=
  (updates.filter fun update =>
      update.method = .put ∧ update.subjectType ∉ systemEntityTypes).foldl
    (fun types update => types.set update.subjectId update.subjectType) .empty

def createdSubjectIds (updates : List ValidatedUpdate) («exists» : String → Bool) :
    List String :=
  (createdEntityTypes updates).keys.filter fun entityId => !«exists» entityId

/-- The Update is a bootstrap's own write and skips the permission table. -/
def bootstrapUpdate (update : ValidatedUpdate) (actorId : String)
    (bootstrap : OrderedMap Term (List Term)) (createdIds membershipRowIds : List String) :
    Bool :=
  (isPutOf update "group" && bootstrap.contains (.string update.subjectId)) ||
    (isPutOf update "groupMember" && getDataField update "actor_id" = .string actorId &&
      update.subjectId ∈ membershipRowIds) ||
    (isPutOf update "entityGroup" && bootstrap.contains (getDataField update "group_id") &&
      holds createdIds (getDataField update "entity_id"))

def buildIntraRelationshipSources (updates : List ValidatedUpdate) : OrderedMap String Term :=
  (updates.filter fun update =>
      isPutOf update "relationship" && (getDataField update "source_id").isBinary).foldl
    (fun sources update => sources.set update.subjectId (getDataField update "source_id")) .empty

/-- The groups each entity is put in by the Action; only their membership is read,
not their order. -/
def buildIntraActionContext (updates : List ValidatedUpdate) : OrderedMap Term (List Term) :=
  (updates.filter fun update =>
      isPutOf update "entityGroup" && (getDataField update "entity_id").truthy &&
        (getDataField update "group_id").truthy).foldl
    (fun groups update =>
      let entityId := getDataField update "entity_id"
      groups.set entityId
        (getDataField update "group_id" :: (groups.get? entityId).getD []).eraseDups) .empty

end PermissionHelper

end Ebb.Access
