import Ebb.Access.LastGroupMember

namespace Ebb.Access

namespace Authorizer

open PermissionHelper

/-! What an actor without permissions can reach: no accepted Action touches an entity
whose groups it holds nothing in, or grants it anything in a group it may not
administer. -/

/-! ## Permissions held -/

/-- A member row of the actor in the group grants the permission. -/
def Holds (caches : SystemCaches) (actorId : String) (groupId : Term)
    (permission : Permission) : Prop :=
  ∃ id row, caches.rows.members id = some row ∧ row.actorId = .string actorId ∧
    row.groupId = groupId ∧ ∃ granted, Permission.enumerate row.permissions = .ok granted ∧
      permission ∈ granted.flatMap Permission.flatten

theorem mapM_eq_ok {call : α → Outcome β} {items : List α} {results : List β}
    (done : items.mapM call = .ok results) :
    (∀ item ∈ items, ∃ result ∈ results, call item = .ok result) ∧
      ∀ result ∈ results, ∃ item ∈ items, call item = .ok result := by
  induction items generalizing results with
  | nil =>
      cases done
      exact ⟨nofun, nofun⟩
  | cons item rest induction =>
      rw [List.mapM_cons] at done
      rcases bind_eq_ok.mp done with ⟨here, called, done⟩
      rcases bind_eq_ok.mp done with ⟨later, calledRest, done⟩
      cases done
      have tail := induction calledRest
      constructor
      · intro other member
        rcases List.mem_cons.mp member with equal | member
        · exact ⟨here, List.mem_cons_self, equal ▸ called⟩
        · rcases tail.1 other member with ⟨result, inside, calledOther⟩
          exact ⟨result, List.mem_cons_of_mem _ inside, calledOther⟩
      · intro result member
        rcases List.mem_cons.mp member with equal | member
        · exact ⟨item, List.mem_cons_self, equal ▸ called⟩
        · rcases tail.2 result member with ⟨other, inside, calledOther⟩
          exact ⟨other, List.mem_cons_of_mem _ inside, calledOther⟩

theorem mem_getPermissions {caches : SystemCaches} {actorId : String} {groupId : Term}
    {permissions : List Permission}
    (read : caches.groups.getPermissions actorId groupId = .ok (some permissions))
    (permission : Permission) :
    permission ∈ permissions ↔ Holds caches actorId groupId permission := by
  rw [GroupCache.getPermissions] at read
  rcases bind_eq_ok.mp read with ⟨granted, called, read⟩
  have calls := mapM_eq_ok called
  have flattened : permissions = (granted.flatten.flatMap Permission.flatten).eraseDups := by
    split at read
    · cases read
    · cases read
      rfl
  rw [flattened, List.mem_eraseDups, List.mem_flatMap]
  constructor
  · intro found
    rcases found with ⟨element, inGranted, inElement⟩
    rcases List.mem_flatten.mp inGranted with ⟨list, inLists, inList⟩
    rcases calls.2 list inLists with ⟨row, inRows, grants⟩
    rw [Bag.mem_lookup, caches.groups.byActor] at inRows
    rw [grantedBy] at grants
    split at grants
    · next inGroup =>
        exact ⟨row.id, row, inRows.1, inRows.2, inGroup, list, grants,
          List.mem_flatMap.mpr ⟨element, inList, inElement⟩⟩
    · cases grants
      cases inList
  · intro held
    rcases held with ⟨id, row, stored, actor, inGroup, list, enumerates, inList⟩
    have sameId := (caches.groups.named stored).1
    have inRows : row ∈ Bag.lookup (.string actorId) caches.groups.groupMembers := by
      rw [Bag.mem_lookup, caches.groups.byActor]
      exact ⟨sameId ▸ stored, actor⟩
    rcases calls.1 row inRows with ⟨result, inResults, grants⟩
    rw [grantedBy, if_pos inGroup, enumerates] at grants
    cases grants
    rcases List.mem_flatMap.mp inList with ⟨element, inElements, inElement⟩
    exact ⟨element, List.mem_flatten.mpr ⟨list, inResults, inElements⟩, inElement⟩

def permits (permission : Permission) (type method : String) : Bool :=
  permission = .term (.string (type ++ "." ++ method)) ∨
    permission = .term (.string (type ++ ".*"))

section Granting

variable {caches : SystemCaches} {actorId : String} {sim : RequestSim}
  {updates : List ValidatedUpdate} {groupId : Term} {type method : String}

theorem holds_of_granted
    (granted : Granted (cachedPermissions (buildAuthz caches actorId sim updates) actorId)
      groupId type method) :
    ∃ permission, Holds caches actorId groupId permission ∧
      permits permission type method = true := by
  rcases granted with ⟨permissions, read, checked⟩
  rw [checkPermission, List.any_eq_true] at checked
  rcases checked with ⟨permission, member, permitted⟩
  exact ⟨permission, (mem_getPermissions read permission).mp member, permitted⟩

theorem granted_cached_of_undeclared
    (undeclared : (buildAuthz caches actorId sim updates).bootstrap.get? groupId = none)
    (granted : Granted (permissionsFor (buildAuthz caches actorId sim updates) actorId)
      groupId type method) :
    Granted (cachedPermissions (buildAuthz caches actorId sim updates) actorId)
      groupId type method := by
  rcases granted with ⟨permissions, read, checked⟩
  rw [permissionsFor] at read
  rcases bind_eq_ok.mp read with ⟨cached, readCached, read⟩
  rw [undeclared] at read
  cases cached with
  | none => cases read
  | some permissionsCached =>
      cases read
      refine ⟨permissionsCached, readCached, ?_⟩
      rw [checkPermission, List.any_eq_true] at checked ⊢
      rcases checked with ⟨permission, member, permitted⟩
      rw [List.mem_eraseDups] at member
      refine ⟨permission, ?_, permitted⟩
      simpa using member

end Granting

/-! ## Ids that are not new -/

def named (caches : SystemCaches) (groupId : Term) : Bool :=
  caches.groups.groupMembers.any (fun entry => entry.2.groupId = groupId) ||
    caches.entityGroups.entityGroups.any fun entry => entry.2.groupId = groupId

def known (caches : SystemCaches) : Term → Bool
  | .string id => EntityIndex.exists (tableOpts caches) id
  | _ => false

def present (caches : SystemCaches) (groupId : Term) : Bool :=
  known caches groupId || named caches groupId

def lagging (caches : SystemCaches) (id : String) : Bool :=
  !known caches (.string id) && named caches (.string id)

/-- The Update writes a new entity under the id of a group that lags. -/
def retakes (caches : SystemCaches) (actorId : String) (updates : List ValidatedUpdate)
    (update : ValidatedUpdate) : Bool :=
  lagging caches update.subjectId &&
    (update.subjectType ≠ "group" ||
      (buildAuthz caches actorId newSim updates).bootstrap.contains
        (.string update.subjectId))

/-- The Update puts the member row of a bootstrap in a group the Action does not
create. -/
def strays (caches : SystemCaches) (actorId : String) (updates : List ValidatedUpdate)
    (update : ValidatedUpdate) : Bool :=
  isPutOf update "groupMember" && getDataField update "actor_id" = .string actorId &&
    update.subjectId ∈ (buildAuthz caches actorId newSim updates).bootstrapMembershipIds &&
    getDataField update "group_id" ≠ .null &&
    !holds (bootstrappedGroupIds updates (EntityIndex.exists (tableOpts caches)))
      (getDataField update "group_id")

def contained (caches : SystemCaches) (actorId : String) (updates : List ValidatedUpdate) :
    Bool :=
  updates.all fun update =>
    !retakes caches actorId updates update && !strays caches actorId updates update

section Contained

variable {caches : SystemCaches} {actorId : String} {sim : RequestSim}
  {updates : List ValidatedUpdate} {update : ValidatedUpdate}

section

variable (inside : contained caches actorId updates = true)
include inside

theorem not_retakes (member : update ∈ updates) :
    retakes caches actorId updates update = false := by
  rw [contained, List.all_eq_true] at inside
  have both := inside update member
  rw [Bool.and_eq_true, Bool.not_eq_true'] at both
  exact both.1

theorem not_strays (member : update ∈ updates) : strays caches actorId updates update = false := by
  rw [contained, List.all_eq_true] at inside
  have both := inside update member
  rw [Bool.and_eq_true, Bool.not_eq_true', Bool.not_eq_true'] at both
  exact both.2

theorem undeclared {groupId : Term} (isPresent : present caches groupId = true) :
    (buildAuthz caches actorId sim updates).bootstrap.get? groupId = none := by
  cases declared : (buildAuthz caches actorId sim updates).bootstrap.get? groupId with
  | none => rfl
  | some permissions =>
      exfalso
      have declares : (buildAuthz caches actorId newSim updates).bootstrap.contains groupId =
          true := by
        rw [OrderedMap.contains]
        exact Option.isSome_iff_exists.mpr ⟨permissions, declared⟩
      have new := bootstrap_group declares
      cases groupId with
      | string id =>
          rw [holds, bootstrappedGroupIds, decide_eq_true_eq, List.mem_filter, List.mem_map]
            at new
          rcases new with ⟨⟨update, put, subject⟩, unknown⟩
          have unknown' : known caches (.string id) = false := by
            rw [Bool.not_eq_true'] at unknown
            exact unknown
          have lags : lagging caches id = true := by
            rw [present, unknown', Bool.false_or] at isPresent
            rw [lagging, unknown', isPresent]
            rfl
          have taken := not_retakes inside (List.mem_filter.mp put).1
          rw [retakes, subject, lags, declares] at taken
          simp at taken
      | _ => cases new

end

end Contained

/-! ## Entities and their groups -/

/-- The types of system rows that only say something of other entities. -/
def rowTypes : List String := ["groupMember", "entityGroup", "relationship"]

/-- The type an id was committed under, with any lag of the type index. -/
def tableType (caches : SystemCaches) (entityId : String) : Option String :=
  committedType entityId (buildAuthz caches "" newSim [])

/-- The groups of the entity's membership rows, and a group itself. -/
def currentGroups (caches : SystemCaches) (entityId : String) : List Term :=
  EntityIndex.sourceGroups (tableOpts caches) (.string entityId) ++
    if EntityIndex.subjectType (tableOpts caches) entityId = some "group" ∨
        lagging caches entityId = true then
      [.string entityId] else []

/-- A user entity or a group that exists, where the actor holds nothing in its
groups. -/
structure Shut (caches : SystemCaches) (actorId entityId : String) : Prop where
  entity : ∀ type ∈ rowTypes, tableType caches entityId ≠ some type
  here : EntityIndex.sourceGroups (tableOpts caches) (.string entityId) ≠ [] ∨
    present caches (.string entityId) = true
  nothing : ∀ groupId ∈ currentGroups caches entityId, ∀ permission,
    ¬ Holds caches actorId groupId permission

theorem resolveGroups_entity {opts : ResolveOpts} {type id : String} (group : type ≠ "group")
    (member : type ≠ "groupMember") (membership : type ≠ "entityGroup")
    (relationship : type ≠ "relationship") :
    EntityIndex.resolveGroups opts type id = EntityIndex.sourceGroups opts (.string id) := by
  have cached : EntityIndex.resolveGroupsCached opts type id =
      (EntityIndex.sourceGroupsCached opts (.string id), .string id) := by
    rw [EntityIndex.resolveGroupsCached]
    · exact group
    · exact membership
    · exact relationship
    · exact member
  rw [EntityIndex.resolveGroups, cached, EntityIndex.sourceGroups]

section Shut

variable {caches : SystemCaches} {actorId : String} {sim : RequestSim}
  {updates : List ValidatedUpdate} {entityId : String}

theorem opts_buildAuthz :
    (buildAuthz caches actorId sim updates).opts = tableOpts caches := rfl

theorem committedType_eq (entityId : String) :
    committedType entityId (buildAuthz caches actorId sim updates) =
      tableType caches entityId := rfl

theorem mem_currentGroups {groupId : Term}
    (member : groupId ∈ EntityIndex.sourceGroups (tableOpts caches) (.string entityId)) :
    groupId ∈ currentGroups caches entityId :=
  List.mem_append_left _ member

theorem present_of_mem_currentGroups {groupId : Term}
    (member : groupId ∈ currentGroups caches entityId) : present caches groupId = true := by
  rw [currentGroups, List.mem_append] at member
  rcases member with filed | itself
  · rw [sourceGroups_tableOpts, List.mem_eraseDups, List.mem_map] at filed
    rcases filed with ⟨row, inRows, same⟩
    rw [EntityGroupCache.entityGroupEntries, Bag.mem_lookup] at inRows
    have names : caches.entityGroups.entityGroups.any
        (fun entry => entry.2.groupId = groupId) = true :=
      List.any_eq_true.mpr ⟨_, inRows, decide_eq_true same⟩
    rw [present, named, names, Bool.or_true, Bool.or_true]
  · split at itself
    · next group =>
        rw [List.mem_singleton.mp itself, present, known]
        rcases group with typed | lags
        · rw [EntityIndex.exists, typed]
          rfl
        · rw [lagging, Bool.and_eq_true] at lags
          rw [lags.2, Bool.or_true]
    · cases itself

theorem Shut.ungranted (shut : Shut caches actorId entityId)
    (inside : contained caches actorId updates = true) {groupId : Term}
    (member : groupId ∈ currentGroups caches entityId) {type method : String} :
    ¬ Granted (permissionsFor (buildAuthz caches actorId sim updates) actorId)
      groupId type method := by
  intro granted
  have nothing : (buildAuthz caches actorId sim updates).bootstrap.get? groupId = none :=
    undeclared inside (present_of_mem_currentGroups member)
  rcases holds_of_granted (granted_cached_of_undeclared nothing granted) with
    ⟨permission, held, _⟩
  exact shut.nothing groupId member permission held

theorem Shut.uncached (shut : Shut caches actorId entityId) {groupId : Term}
    (member : groupId ∈ currentGroups caches entityId) {type method : String} :
    ¬ Granted (cachedPermissions (buildAuthz caches actorId sim updates) actorId)
      groupId type method := by
  intro granted
  rcases holds_of_granted granted with ⟨permission, held, _⟩
  exact shut.nothing groupId member permission held

theorem Shut.committed (shut : Shut caches actorId entityId)
    (inside : contained caches actorId updates = true) {update : ValidatedUpdate}
    (member : update ∈ updates) (subject : update.subjectId = entityId)
    (typed : checkUpdateTypeIdentity update (buildAuthz caches actorId sim updates) = .ok ()) :
    update.subjectType ∉ rowTypes ∧
      (update.subjectType = "group" → .string entityId ∈ currentGroups caches entityId) ∧
      (update.subjectType ≠ "group" → known caches (.string entityId) = true) := by
  rw [checkUpdateTypeIdentity, subject, committedType_eq] at typed
  cases committed : tableType caches entityId with
  | none =>
      rw [committed] at typed
      dsimp only at typed
      rw [checkUnresolvedType, subject, opts_buildAuthz] at typed
      rw [tableType, committedType, Option.or_eq_none_iff] at committed
      have unknown : known caches (.string entityId) = false := by
        have untyped : EntityIndex.subjectType (tableOpts caches) entityId = none := committed.1
        rw [known, EntityIndex.exists, untyped]
        rfl
      have unfiled : EntityIndex.sourceGroups (tableOpts caches) (.string entityId) = [] := by
        split at typed
        · cases typed
        · next none => exact Decidable.not_not.mp none
      have lags : lagging caches entityId = true := by
        have isPresent := shut.here.resolve_left (fun filed => filed unfiled)
        rw [present, unknown, Bool.false_or] at isPresent
        rw [lagging, unknown, isPresent]
        rfl
      have kept := not_retakes inside member
      rw [retakes, subject, lags, Bool.true_and, Bool.or_eq_false_iff, decide_eq_false_iff_not,
        Decidable.not_not] at kept
      refine ⟨?_, fun _ => ?_, fun other => absurd kept.1 other⟩
      · rw [kept.1]
        decide
      · rw [currentGroups, if_pos (.inr lags)]
        simp
  | some type =>
      rw [committed] at typed
      dsimp only at typed
      rw [requireWireType, ite_ok_refuse_eq_ok] at typed
      have noRow : type ∉ rowTypes := fun inside => shut.entity type inside committed
      rw [typed.1]
      rw [tableType, committedType, Option.or_eq_some_iff] at committed
      rcases committed with indexed | cached
      · have indexed : EntityIndex.subjectType (tableOpts caches) entityId = some type := indexed
        refine ⟨noRow, fun isGroup => ?_, fun _ => ?_⟩
        · rw [currentGroups, indexed, isGroup]
          simp
        · rw [known, EntityIndex.exists, indexed]
          rfl
      · exfalso
        apply noRow
        have read := cached.2
        rw [cachedSystemType] at read
        split at read
        · cases read
          decide
        · split at read
          · cases read
            decide
          · split at read
            · cases read
              decide
            · cases read

theorem mem_createdEntityTypes {updates : List ValidatedUpdate} {id : String}
    (created : (createdEntityTypes updates).contains id = true) :
    ∃ update ∈ updates, update.subjectId = id ∧ update.subjectType ∉ systemEntityTypes := by
  rw [OrderedMap.contains, createdEntityTypes, OrderedMap.get?_foldl_set,
    OrderedMap.get?_empty, Option.or_none, Option.isSome_iff_exists] at created
  rcases created with ⟨type, found⟩
  rcases exists_of_lastSome found with ⟨update, member, reads⟩
  rw [List.mem_filter, decide_eq_true_eq] at member
  split at reads
  · next same => exact ⟨update, member.1, same, member.2.2⟩
  · cases reads

theorem Shut.uncreated (shut : Shut caches actorId entityId)
    (inside : contained caches actorId updates = true)
    (checked : ∀ update ∈ updates,
      checkUpdate actorId (buildAuthz caches actorId sim updates) update = .ok ())
    (created : (createdEntityTypes updates).contains entityId = true) :
    known caches (.string entityId) = true := by
  rcases mem_createdEntityTypes created with ⟨put, member, subject, user⟩
  apply (shut.committed inside member subject (checkUpdate_eq_ok (checked put member)).2.1).2.2
  intro isGroup
  apply user
  rw [isGroup]
  decide

/-- The request has given the entity no type of its own. -/
def Untyped (caches : SystemCaches) (entityId : String) (sim : RequestSim) : Prop :=
  known caches (.string entityId) = false → sim.types.get? entityId = none

section

variable (shut : Shut caches actorId entityId)
include shut

theorem Shut.untyped (inside : contained caches actorId updates = true)
    (checked : ∀ update ∈ updates, checkUpdate actorId (buildAuthz caches actorId sim updates)
      update = .ok ())
    (untyped : Untyped caches entityId sim) (unknown : known caches (.string entityId) = false) :
    ((createdEntityTypes updates).merge sim.types).get? entityId = none := by
  rw [OrderedMap.get?_merge, untyped unknown, Option.none_or]
  cases created : (createdEntityTypes updates).get? entityId with
  | none => rfl
  | some type =>
      have known' := shut.uncreated inside checked (by
        rw [OrderedMap.contains, created]
        rfl)
      rw [unknown] at known'
      cases known'

theorem Shut.unfiled (inside : contained caches actorId updates = true)
    (checked : ∀ update ∈ updates, checkUpdate actorId (buildAuthz caches actorId sim updates)
      update = .ok ())
    (untyped : Untyped caches entityId sim) {update : ValidatedUpdate} (member : update ∈ updates)
    (isPut : isPutOf update "entityGroup" = true) :
    fieldOf update.data "entity_id" ≠ .string entityId := by
  intro names
  have isPut' := isPutOf_iff.mp isPut
  rcases checkUpdate_eq_ok (checked update member) with ⟨_, _, exempt | authorized⟩
  · simp only [bootstrapUpdate, isPutOf, isPut', Bool.or_eq_true, Bool.and_eq_true,
      decide_eq_true_eq] at exempt
    rcases exempt with (⟨⟨impossible, _⟩, _⟩ | ⟨⟨⟨impossible, _⟩, _⟩, _⟩) | ⟨_, created⟩
    · exact absurd impossible (by decide)
    · exact absurd impossible (by decide)
    · -- The Action creates the entity, under a type it does not have.
      rw [getDataField, names, holds, decide_eq_true_eq] at created
      have new := List.mem_filter.mp created
      have known' : known caches (.string entityId) = true := by
        apply shut.uncreated inside checked
        rw [OrderedMap.contains, Option.isSome_iff_exists]
        exact (OrderedMap.mem_keys_iff _ _).mp new.1
      have unknown := new.2
      rw [Bool.not_eq_true'] at unknown
      exact absurd known' (by rw [known]; exact ne_true_of_eq_false unknown)
  · simp only [authorizeUpdate, isPut'.1, authorizeEntityGroupUpdate, isPut'.2] at authorized
    rcases bind_eq_ok.mp authorized with ⟨ends, filed, authorized⟩
    rw [membershipIdentity] at filed
    rcases bind_eq_ok.mp filed with ⟨entity, readEntity, filed⟩
    rcases bind_eq_ok.mp filed with ⟨groupId, readGroup, filed⟩
    rw [ite_ok_refuse_eq_ok] at filed
    rw [← filed.2] at authorized
    rw [Fields.get_eq_ok, names] at readEntity
    rw [← readEntity.2] at authorized
    dsimp only at authorized
    rw [authorizeEntityGroupPut] at authorized
    split at authorized
    · cases authorized
    · next type resolved =>
        rcases bind_eq_ok.mp authorized with ⟨_, mayCreate, authorized⟩
        rcases bind_eq_ok.mp authorized with ⟨_, ownership, ownerless⟩
        rw [checkNotOwnerless, opts_buildAuthz, ite_refuse_eq_ok] at ownerless
        rw [checkExistingOwnership, opts_buildAuthz] at ownership
        split at ownership
        · next empty =>
            cases index : known caches (.string entityId) with
            | true => exact ownerless.1 ⟨empty, index⟩
            | false =>
                -- Neither the tables nor the request know a type for the entity.
                have noType := shut.untyped inside checked untyped index
                have unindexed : EntityIndex.subjectType (tableOpts caches) entityId = none := by
                  rw [known, EntityIndex.exists, Option.isSome_eq_false_iff,
                    Option.isNone_iff_eq_none] at index
                  exact index
                rw [entityType, opts_buildAuthz, unindexed, Option.none_or] at resolved
                have none : (buildAuthz caches actorId sim updates).createdTypes.get? entityId =
                    none := noType
                rw [none] at resolved
                cases resolved
        · rw [holdsMembershipRow] at ownership
          split at ownership
          · next holdsRow =>
              rw [List.any_eq_true] at holdsRow
              rcases holdsRow with ⟨row, inRows, same⟩
              simp only [Bool.and_eq_true, decide_eq_true_eq] at same
              rcases granted_of_checkGroupPermission mayCreate with ⟨only, isGroup, granted⟩
              apply shut.uncached _ granted
              apply mem_currentGroups
              rw [List.mem_singleton.mp isGroup, sourceGroups_tableOpts, List.mem_eraseDups,
                List.mem_map]
              exact ⟨row, inRows, same.1.1⟩
          · rcases granted_of_checkGroupPermission ownership with ⟨group, inGroups, granted⟩
            exact shut.uncached (mem_currentGroups inGroups) granted

theorem Shut.sourceGroups_intra (inside : contained caches actorId updates = true)
    (checked : ∀ update ∈ updates, checkUpdate actorId (buildAuthz caches actorId sim updates)
      update = .ok ())
    (untyped : Untyped caches entityId sim) {groupId : Term}
    (member : groupId ∈ EntityIndex.sourceGroups (buildAuthz caches actorId sim updates).intraOpts
      (.string entityId)) :
    groupId ∈ currentGroups caches entityId := by
  rw [EntityIndex.sourceGroups, mem_applyIntraAction] at member
  rcases member with cached | intra
  · exact mem_currentGroups cached
  · exfalso
    rcases mem_buildIntraActionContext.mp intra.2 with ⟨_, _, update, inUpdates, filed⟩
    exact shut.unfiled inside checked untyped inUpdates filed.1 filed.2.1

theorem Shut.unwritten (inside : contained caches actorId updates = true)
    (checked : ∀ update ∈ updates, checkUpdate actorId (buildAuthz caches actorId sim updates)
      update = .ok ())
    (untyped : Untyped caches entityId sim) {update : ValidatedUpdate} (member : update ∈ updates)
    : update.subjectId ≠ entityId := by
  intro subject
  rcases checkUpdate_eq_ok (checked update member) with ⟨_, typed, allowed⟩
  have committed := shut.committed inside member subject typed
  have notRow : ∀ type ∈ rowTypes, update.subjectType ≠ type :=
    fun type inside equal => committed.1 (equal ▸ inside)
  rcases allowed with exempt | authorized
  · simp only [bootstrapUpdate, isPutOf, Bool.or_eq_true, Bool.and_eq_true,
      decide_eq_true_eq] at exempt
    rcases exempt with (⟨isGroup, declared⟩ | ⟨⟨⟨isMember, _⟩, _⟩, _⟩) |
      ⟨⟨⟨isMembership, _⟩, _⟩, _⟩
    · have isPresent := present_of_mem_currentGroups (committed.2.1 isGroup.1)
      rw [subject, OrderedMap.contains, undeclared inside isPresent] at declared
      cases declared
    · exact notRow _ (by decide) isMember
    · exact notRow _ (by decide) isMembership
  · rw [authorizeUpdate] at authorized
    split at authorized
    · next isGroup =>
        rw [authorizeGroupUpdate, subject] at authorized
        rcases granted_of_checkGroupPermission authorized with ⟨groupId, inGroups, granted⟩
        rw [List.mem_singleton] at inGroups
        exact shut.ungranted inside (inGroups ▸ committed.2.1 isGroup) granted
    · next isMember => exact notRow _ (by decide) isMember
    · next isMembership => exact notRow _ (by decide) isMembership
    · next isRelationship => exact notRow _ (by decide) isRelationship
    · next notGroup notMember notMembership notRelationship =>
        rw [authorizeUserEntityUpdate] at authorized
        split at authorized
        · cases authorized
        · next groups resolved =>
            rcases granted_of_checkGroupPermission authorized with ⟨groupId, inGroups, granted⟩
            apply shut.ungranted inside _ granted
            apply shut.sourceGroups_intra inside checked untyped
            rw [← subject]
            rw [resolveGroups_entity notGroup notMember notMembership notRelationship] at inGroups
            exact inGroups

theorem Shut.unscoped (inside : contained caches actorId updates = true)
    (checked : ∀ update ∈ updates, checkUpdate actorId (buildAuthz caches actorId sim updates)
      update = .ok ())
    (untyped : Untyped caches entityId sim) {update : ValidatedUpdate} (member : update ∈ updates)
    (type : update.subjectType = "relationship") :
    EntityIndex.scopeSource (tableOpts caches) update.method
      (fieldOf update.data "source_id") update.subjectId ≠ .string entityId := by
  intro scopes
  have refused : ∀ wire type permission, fieldOf update.data "source_id" = wire →
      checkGroupPermission (permissionsFor (buildAuthz caches actorId sim updates) actorId)
        (EntityIndex.relationshipGroups (buildAuthz caches actorId sim updates).intraOpts
          update.method wire update.subjectId) type permission ≠ .ok () := by
    intro wire type permission read granted
    rcases granted_of_checkGroupPermission granted with ⟨groupId, inGroups, granted⟩
    apply shut.ungranted inside _ granted
    apply shut.sourceGroups_intra inside checked untyped
    have scope : EntityIndex.scopeSource (buildAuthz caches actorId sim updates).intraOpts
        update.method wire update.subjectId = .string entityId := read ▸ scopes
    rw [EntityIndex.relationshipGroups, scope] at inGroups
    exact inGroups
  rcases checkUpdate_eq_ok (checked update member) with ⟨_, _, exempt | authorized⟩
  · simp [bootstrapUpdate, isPutOf, type] at exempt
  · simp only [authorizeUpdate, type, authorizeRelationshipUpdate] at authorized
    split at authorized
    · next isPut =>
        rcases bind_eq_ok.mp authorized with ⟨sourceType, _, authorized⟩
        cases sourceType with
        | none => cases authorized
        | some sourceType =>
            rcases bind_eq_ok.mp authorized with ⟨groupIds, groups, granted⟩
            rcases bind_eq_ok.mp groups with ⟨wire, read, groups⟩
            cases groups
            rw [Fields.get_eq_ok] at read
            exact refused wire sourceType "update" read.2 granted
    · rcases bind_eq_ok.mp authorized with ⟨groupIds, groups, granted⟩
      rcases bind_eq_ok.mp groups with ⟨wire, read, groups⟩
      cases groups
      rw [Fields.get_eq_ok] at read
      exact refused wire "relationship" _ read.2 granted

theorem Shut.unstored (inside : contained caches actorId updates = true)
    (checked : ∀ update ∈ updates, checkUpdate actorId (buildAuthz caches actorId sim updates)
      update = .ok ())
    (untyped : Untyped caches entityId sim) {update : ValidatedUpdate} (member : update ∈ updates)
    (type : update.subjectType = "relationship")
    (kept : update.subjectId ∉ (buildAuthz caches actorId sim updates).deletedRelationships ∨
      update.method = .delete) :
    EntityIndex.relationshipSource (tableOpts caches) update.subjectId ≠ .string entityId := by
  intro stored
  have unscoped := shut.unscoped inside checked untyped member type
  cases isDelete : decide (update.method = .delete) with
  | true =>
      rw [of_decide_eq_true isDelete, EntityIndex.scopeSource_delete, stored] at unscoped
      exact unscoped rfl
  | false =>
      have write := of_decide_eq_false isDelete
      have undeleted := kept.resolve_right write
      have identity := (checkUpdate_eq_ok (checked update member)).1
      have checkedSource : ∃ wire, Fields.get update.data "source_id" = .ok wire ∧
          checkRelationshipRowSource update.subjectId wire
            (buildAuthz caches actorId sim updates) = .ok () := by
        cases method : update.method with
        | delete => exact absurd method write
        | _ =>
            simp only [checkUpdateRowIdentity, type, method] at identity
            exact bind_eq_ok.mp identity
      rcases checkedSource with ⟨wire, read, same⟩
      rw [Fields.get_eq_ok] at read
      rw [EntityIndex.scopeSource_write write, stored, read.2] at unscoped
      rw [checkRelationshipRowSource, committedRelationshipSource, if_neg undeleted,
        opts_buildAuthz, stored] at same
      split at same
      · next isNull =>
          rw [isNull] at unscoped
          exact unscoped rfl
      · have notNull : Term.string entityId ≠ .null := by rintro ⟨⟩
        rw [if_neg notNull, ite_ok_refuse_eq_ok] at same
        rw [← same.1] at unscoped
        exact unscoped rfl

theorem Shut.unmoved (inside : contained caches actorId updates = true)
    (checked : ∀ update ∈ updates, checkUpdate actorId (buildAuthz caches actorId sim updates)
      update = .ok ())
    (untyped : Untyped caches entityId sim) {update : ValidatedUpdate} (member : update ∈ updates)
    (type : update.subjectType = "entityGroup") {row : EntityGroup}
    (stored : caches.entityGroups.getEntityGroup update.subjectId = some row) :
    row.entityId ≠ .string entityId := by
  intro entity
  have accepted := membershipAccepted_of_checkUpdate type (checked update member)
  cases method : update.method with
  | patch => exact accepted.noPatch method
  | put =>
      apply shut.unfiled inside checked untyped member (isPutOf_iff.mpr ⟨type, method⟩)
      rw [← (accepted.put method).2.2 row stored, entity]
  | delete =>
      rcases checkUpdate_eq_ok (checked update member) with ⟨_, _, exempt | authorized⟩
      · simp [bootstrapUpdate, isPutOf, method] at exempt
      · simp only [authorizeUpdate, type, authorizeEntityGroupUpdate, method] at authorized
        split at authorized
        · next found =>
            have entry : (resolveDeletedMemberships updates (tableOpts caches)).get?
                update.subjectId = some (some _) := found
            rw [get?_resolveDeletedMemberships] at entry
            split at entry
            · rw [membership_tableOpts, stored, Option.some.injEq, Option.map_some,
                Option.some.injEq, entity] at entry
              rw [Prod.mk.injEq] at entry
              rw [authorizeMembershipDelete] at authorized
              split at authorized
              · cases authorized
              · rcases granted_of_checkGroupPermission authorized with
                  ⟨groupId, inGroups, granted⟩
                rw [← entry.1] at inGroups
                exact shut.uncached (mem_currentGroups inGroups) granted
            · cases entry
        · cases authorized

end

end Shut

/-! ## Touching an entity -/

/-- The source an Update declares; a delete of a stored row follows the row. -/
def declaredSource (caches : SystemCaches) (update : ValidatedUpdate) : Term :=
  if update.method = .delete ∧
      EntityIndex.relationshipSource (tableOpts caches) update.subjectId ≠ .null then .null
  else fieldOf update.data "source_id"

/-- The Update has the entity as its subject, adds or removes a membership row of it,
or touches a relationship with the entity as its stored or declared source. -/
def Touches (caches : SystemCaches) (entityId : String) (update : ValidatedUpdate) : Prop :=
  update.subjectId = entityId ∨
    (update.subjectType = "entityGroup" ∧
      ((update.method = .put ∧ fieldOf update.data "entity_id" = .string entityId) ∨
        ∃ row, caches.rows.memberships update.subjectId = some row ∧
          row.entityId = .string entityId)) ∨
    (update.subjectType = "relationship" ∧
      (EntityIndex.relationshipSource (tableOpts caches) update.subjectId = .string entityId ∨
        declaredSource caches update = .string entityId))

/-- What holds of an entity that is shut after a request's accepted Actions. -/
structure Untouched (caches : SystemCaches) (entityId : String)
    (updates : List ValidatedUpdate) (sim : RequestSim) : Prop where
  updates : ∀ update ∈ updates, ¬ Touches caches entityId update
  deleted : ∀ id ∈ sim.deletedRelationships,
    EntityIndex.relationshipSource (tableOpts caches) id ≠ .string entityId
  untyped : Untyped caches entityId sim

theorem untouched_of_acceptAll {caches : SystemCaches} {actorId entityId : String}
    (shut : Shut caches actorId entityId) {actions : List ValidatedAction} {sim : RequestSim}
    (accepts : acceptAll caches actorId actions = .ok sim)
    (inside : ∀ action ∈ actions, contained caches actorId action.updates = true) :
    Untouched caches entityId (updatesOf actions) sim := by
  induction actions using List.reverseRecOn generalizing sim with
  | nil =>
      cases accepts
      exact ⟨nofun, nofun, fun _ => rfl⟩
  | append_singleton actions action induction =>
      rcases acceptAll_concat accepts with ⟨before, acceptsBefore, authorized⟩
      have step := accepts_of_authorizeAction authorized
      have earlier := induction acceptsBefore
        fun action member => inside action (List.mem_append_left _ member)
      have insideHere := inside action
        (List.mem_append_right _ (List.mem_singleton_self action))
      have deletedHere : ∀ id ∈ deletedRelationshipIds action.updates,
          EntityIndex.relationshipSource (tableOpts caches) id ≠ .string entityId := by
        intro id deleted
        rcases List.mem_map.mp deleted with ⟨update, member, same⟩
        rw [mem_deletesOf] at member
        rw [← same]
        exact shut.unstored insideHere step.checked earlier.untyped member.1 member.2.1
          (.inr member.2.2)
      constructor
      case updates =>
        intro update member
        rw [updatesOf_concat] at member
        rcases List.mem_append.mp member with member | member
        · exact earlier.updates update member
        · intro touches
          rcases touches with subject | ⟨type, put | stored⟩ | ⟨type, stored | declared⟩
          · exact shut.unwritten insideHere step.checked earlier.untyped member subject
          · exact shut.unfiled insideHere step.checked earlier.untyped member
              (isPutOf_iff.mpr ⟨type, put.1⟩) put.2
          · rcases stored with ⟨row, stored, entity⟩
            exact shut.unmoved insideHere step.checked earlier.untyped member type stored entity
          · apply shut.unstored insideHere step.checked earlier.untyped member type _ stored
            left
            intro deleted
            rcases List.mem_append.mp deleted with deletedBefore | deleted
            · exact earlier.deleted _ deletedBefore stored
            · exact deletedHere _ deleted stored
          · apply shut.unscoped insideHere step.checked earlier.untyped member type
            rw [declaredSource] at declared
            split at declared
            · cases declared
            · next counts =>
                rw [declared]
                cases isDelete : decide (update.method = .delete) with
                | true =>
                    have isDelete := of_decide_eq_true isDelete
                    have none : EntityIndex.relationshipSource (tableOpts caches)
                        update.subjectId = .null :=
                      Decidable.byContradiction fun present => counts ⟨isDelete, present⟩
                    rw [isDelete, EntityIndex.scopeSource_delete, none]
                    rfl
                | false =>
                    rw [EntityIndex.scopeSource_write (of_decide_eq_false isDelete)]
                    rfl
      case deleted =>
        intro id deleted
        rw [step.deletedRelationships] at deleted
        rcases List.mem_append.mp deleted with deletedBefore | deleted
        · exact earlier.deleted id deletedBefore
        · exact deletedHere id deleted
      case untyped =>
        intro unknown
        rw [step.types]
        exact shut.untyped insideHere step.checked earlier.untyped unknown

/-! ## Rows of a group -/

/-- The actor may neither create nor update members in the group. -/
def Powerless (caches : SystemCaches) (actorId groupId : String) : Prop :=
  ∀ permission, Holds caches actorId (.string groupId) permission →
    permits permission "groupMember" "create" = false ∧
      permits permission "groupMember" "update" = false

section Powerless

variable {caches : SystemCaches} {actorId groupId : String} {sim : RequestSim}
  {updates : List ValidatedUpdate} {update : ValidatedUpdate}

theorem Powerless.uncached (powerless : Powerless caches actorId groupId)
    (write : update.method ≠ .delete) :
    ¬ Granted (cachedPermissions (buildAuthz caches actorId sim updates) actorId)
      (.string groupId) "groupMember" (methodToPermission update.method) := by
  intro granted
  rcases holds_of_granted granted with ⟨permission, held, permitted⟩
  have lacks := powerless permission held
  cases method : update.method with
  | delete => exact write method
  | put =>
      rw [method, methodToPermission, lacks.1] at permitted
      cases permitted
  | patch =>
      rw [method, methodToPermission, lacks.2] at permitted
      cases permitted

theorem bootstrap_contains (member : update ∈ updates)
    (own : ownGroupMemberPut update actorId
      (bootstrappedGroupIds updates (EntityIndex.exists (tableOpts caches))) = true) :
    (buildAuthz caches actorId sim updates).bootstrap.contains
      (getDataField update "group_id") = true := by
  change (bootstrapGroupPermissions updates actorId
    (EntityIndex.exists (tableOpts caches))).contains (getDataField update "group_id") = true
  rw [OrderedMap.contains, bootstrapGroupPermissions, OrderedMap.get?_foldl_set,
    OrderedMap.get?_empty, Option.or_none, Option.isSome_iff_ne_none, ne_eq, lastSome_eq_none]
  intro none
  have here := none update (List.mem_filter.mpr ⟨member, own⟩)
  rw [if_pos rfl] at here
  cases here

theorem Powerless.outside (powerless : Powerless caches actorId groupId)
    (isPresent : present caches (.string groupId) = true)
    (inside : contained caches actorId updates = true) (member : update ∈ updates)
    (checked : checkUpdate actorId (buildAuthz caches actorId sim updates) update = .ok ())
    (type : update.subjectType = "groupMember") {before : Option GroupMember}
    (frozen : ∀ row, before = some row → row.groupId = .string groupId →
      caches.rows.members update.subjectId = some row)
    {row : GroupMember} (left : memberAfter update before = some row) :
    row.groupId ≠ .string groupId := by
  intro inGroup
  have write : update.method ≠ .delete := by
    intro isDelete
    simp only [memberAfter, isDelete] at left
    cases left
  have origin : fieldOf update.data "group_id" = .string groupId ∨
      ∃ previous, caches.groups.getGroupMember update.subjectId = some previous ∧
        previous.groupId = .string groupId := by
    rcases groupId_memberAfter left with wire | ⟨previous, stored, same⟩
    · exact .inl (wire.symm.trans inGroup)
    · have inGroup' := same.symm.trans inGroup
      exact .inr ⟨previous, frozen previous stored inGroup', inGroup'⟩
  have nothing : (buildAuthz caches actorId sim updates).bootstrap.get? (.string groupId) =
      none := undeclared inside isPresent
  rcases checkUpdate_eq_ok checked with ⟨_, _, exempt | authorized⟩
  · simp only [bootstrapUpdate, isPutOf, type, Bool.or_eq_true, Bool.and_eq_true,
      decide_eq_true_eq] at exempt
    rcases exempt with (⟨⟨impossible, _⟩, _⟩ | ⟨⟨isPut, own⟩, new⟩) | ⟨⟨⟨impossible, _⟩, _⟩, _⟩
    · exact absurd impossible (by decide)
    · rcases origin with wire | ⟨previous, stored, _⟩
      · have declares : holds
            (bootstrappedGroupIds updates (EntityIndex.exists (tableOpts caches)))
            (getDataField update "group_id") = true := by
          have kept := not_strays inside member
          have isOwn : (isPutOf update "groupMember" &&
              decide (getDataField update "actor_id" = .string actorId) &&
              decide (update.subjectId ∈
                (buildAuthz caches actorId newSim updates).bootstrapMembershipIds) &&
              decide (getDataField update "group_id" ≠ .null)) = true := by
            simp only [Bool.and_eq_true, decide_eq_true_eq]
            refine ⟨⟨⟨isPutOf_iff.mpr ⟨type, isPut.2⟩, own⟩, new⟩, ?_⟩
            rw [getDataField, wire]
            rintro ⟨⟩
          rw [strays, isOwn, Bool.true_and, Bool.not_eq_false'] at kept
          exact kept
        have contains := @bootstrap_contains caches actorId sim updates update member (by
          rw [ownGroupMemberPut, declares, isPutOf_iff.mpr ⟨type, isPut.2⟩, Bool.true_and,
            Bool.and_true]
          exact decide_eq_true own)
        rw [getDataField, wire, OrderedMap.contains, nothing] at contains
        cases contains
      · have unknown := (List.mem_filter.mp new).2
        dsimp only at unknown
        rw [stored] at unknown
        simp at unknown
    · exact absurd impossible (by decide)
  · simp only [authorizeUpdate, type, authorizeGroupMemberUpdate] at authorized
    split at authorized
    · next isNew =>
        rcases origin with wire | ⟨previous, stored, _⟩
        · rw [authorizeNewGroupMemberUpdate] at authorized
          rcases bind_eq_ok.mp authorized with ⟨groupIds, resolved, authorized⟩
          rw [systemEntityGroupIds] at resolved
          rcases bind_eq_ok.mp resolved with ⟨read, readGroup, resolved⟩
          rw [Fields.get_eq_ok, wire] at readGroup
          rw [← readGroup.2] at resolved
          cases resolved
          rcases granted_of_checkGroupPermission authorized with ⟨only, isGroup, granted⟩
          rw [List.mem_singleton.mp isGroup] at granted
          exact powerless.uncached write (granted_cached_of_undeclared nothing granted)
        · rw [existingGroupMember] at isNew
          have stored' : (buildAuthz caches actorId sim updates).caches.groups.getGroupMember
              update.subjectId = some previous := stored
          rw [stored'] at isNew
          cases isNew
    · cases authorized
    · next rowGroup existing =>
        rw [authorizeExistingGroupMemberUpdate] at authorized
        rcases bind_eq_ok.mp authorized with ⟨wireIds, readWire, authorized⟩
        apply powerless.uncached write
        apply granted_of_checkEveryGroupPermission authorized
        rw [List.mem_eraseDups, List.mem_cons]
        rcases origin with wire | ⟨previous, stored, same⟩
        · right
          rw [wireGroupIds] at readWire
          rcases bind_eq_ok.mp readWire with ⟨read, readGroup, readWire⟩
          cases readWire
          rw [Fields.get_eq_ok, wire] at readGroup
          rw [← readGroup.2]
          exact List.mem_singleton_self _
        · left
          rw [existingGroupMember] at existing
          have stored' : (buildAuthz caches actorId sim updates).caches.groups.getGroupMember
              update.subjectId = some previous := stored
          rw [stored'] at existing
          cases existing
          exact same.symm

theorem Powerless.frozen (powerless : Powerless caches actorId groupId)
    (isPresent : present caches (.string groupId) = true) {actions : List ValidatedAction}
    (accepts : acceptAll caches actorId actions = .ok sim)
    (inside : ∀ action ∈ actions, contained caches actorId action.updates = true)
    {id : String} {row : GroupMember}
    (left : plannedRow caches (updatesOf actions) id = some row)
    (inGroup : row.groupId = .string groupId) : caches.rows.members id = some row := by
  induction actions using List.reverseRecOn generalizing sim id row with
  | nil => exact left
  | append_singleton actions action induction =>
      rcases acceptAll_concat accepts with ⟨before, acceptsBefore, authorized⟩
      have checked := (accepts_of_authorizeAction authorized).checked
      have earlier := fun id row => @induction before acceptsBefore
        (fun action member => inside action (List.mem_append_left _ member)) id row
      have insideHere := inside action
        (List.mem_append_right _ (List.mem_singleton_self action))
      have general : ∀ updates, (∀ update ∈ updates, update ∈ action.updates) →
          ∀ id row, plannedRow caches (updatesOf actions ++ updates) id = some row →
            row.groupId = .string groupId → caches.rows.members id = some row := by
        intro updates
        induction updates using List.reverseRecOn with
        | nil =>
            intro _ id row left inGroup
            rw [List.append_nil] at left
            exact earlier id row left inGroup
        | append_singleton updates update induction =>
            intro members id row left inGroup
            have before := induction fun update member =>
              members update (List.mem_append_left _ member)
            rw [← List.append_assoc, plannedRow_concat] at left
            split at left
            · next writes =>
                exfalso
                rw [writesMember, decide_eq_true_eq] at writes
                have member := members update
                  (List.mem_append_right _ (List.mem_singleton_self update))
                apply powerless.outside isPresent insideHere member (checked update member)
                  writes.1 _ left inGroup
                intro row stored inGroup
                rw [writes.2]
                exact before id row stored inGroup
            · exact before id row left inGroup
      rw [updatesOf_concat] at left
      exact general action.updates (fun _ member => member) id row left inGroup

end Powerless

/-! ## Confinement -/

/-- What an actor's accepted Updates keep it from: entities it is shut out of, and
permissions in groups whose members it may not write. -/
structure Confines (caches : SystemCaches) (actorId : String)
    (updates : List ValidatedUpdate) (committed : SystemCaches) : Prop where
  untouched : ∀ entityId, Shut caches actorId entityId →
    ∀ update ∈ updates, ¬ Touches caches entityId update
  ungained : ∀ groupId, present caches (.string groupId) = true →
    Powerless caches actorId groupId → ∀ permission,
      Holds committed actorId (.string groupId) permission →
        Holds caches actorId (.string groupId) permission

theorem confines_of_contained {caches : SystemCaches} {actorId : String}
    {actions accepted : List ValidatedAction} {rejected : List Rejection}
    (authorized : authorize actions actorId caches = .ok (accepted, rejected))
    {plans : List (List Mutation × Overlay)}
    (planned : planAll caches (accepted.map (·.updates)) = .ok plans)
    (inside : ∀ action ∈ accepted, contained caches actorId action.updates = true) :
    Confines caches actorId (updatesOf accepted)
      (applyCacheMutations caches (mutationsOf plans)) := by
  rcases acceptAll_of_authorize authorized with ⟨sim, accepts⟩
  constructor
  case untouched =>
    intro entityId shut
    exact (untouched_of_acceptAll shut accepts inside).updates
  case ungained =>
    intro groupId isPresent powerless permission held
    rcases held with ⟨id, row, stored, actor, inGroup, granted⟩
    have left : plannedRow caches (updatesOf accepted) id = some row := by
      rw [rows_planAll planned, ← List.flatMap_def] at stored
      exact stored
    exact ⟨id, row, powerless.frozen isPresent accepts inside left inGroup, actor, inGroup,
      granted⟩

/-- A group `h` that its only member `b` administers, with its entity `e`. -/
def foreignGroup : SystemCaches :=
  applyCacheMutations .empty
    [.entityType "h" "group", .entityType "e" "task", .entityType "k" "groupMember",
      .groupMemberPut ⟨"k", .string "h", .string "b", .list [.string "groupMember.*"]⟩,
      .entityGroupPut ⟨"m", .string "e", .string "h"⟩]

def groupPut (groupId : String) : ValidatedUpdate where
  id := "u-group"
  subjectId := groupId
  subjectType := "group"
  method := .put
  data := .map [("fields", .map [])]

/-- The actor's own member row in a group. -/
def ownMemberPut (row : String × String) : ValidatedUpdate where
  id := "u-member"
  subjectId := row.1
  subjectType := "groupMember"
  method := .put
  data := .map [("fields", .map
    [("actor_id", .map [("value", .string "a")]),
      ("group_id", .map [("value", .string row.2)]),
      ("permissions", .map [("value", .list [.string "task.*"])])])]

/-- Create the group and put the rows in turn. -/
def foundGroup (groupId : String) (rows : List (String × String)) : ValidatedAction where
  id := "act"
  actorId := "a"
  hlc := 1
  updates := groupPut groupId :: rows.map ownMemberPut

theorem memberRows_foreignGroup {id : String} {row : GroupMember}
    (stored : foreignGroup.rows.members id = some row) : row.actorId = .string "b" := by
  have only : foreignGroup.rows.members id =
      if id = "k" then some ⟨"k", .string "h", .string "b", .list [.string "groupMember.*"]⟩
      else none := by
    change (OrderedMap.empty.set "k" _).get? id = _
    rw [OrderedMap.get?_set]
    rfl
  rw [only] at stored
  split at stored
  · cases stored
    rfl
  · cases stored

theorem holds_foreignGroup {groupId : Term} {permission : Permission} :
    ¬ Holds foreignGroup "a" groupId permission := by
  intro held
  rcases held with ⟨id, row, stored, actor, _⟩
  rw [memberRows_foreignGroup stored] at actor
  exact absurd actor (by decide)

theorem shut_foreignGroup : Shut foreignGroup "a" "e" where
  entity := by
    intro type member committed
    have isTask : tableType foreignGroup "e" = some "task" := rfl
    rw [isTask] at committed
    cases committed
    revert member
    decide
  here := .inl nofun
  nothing := fun _ _ _ => holds_foreignGroup

/-- The actor founds its own group, and stays out of the foreign one. -/
theorem confines_bootstrap :
    (Shut foreignGroup "a" "e" ∧ present foreignGroup (.string "h") = true ∧
        Powerless foreignGroup "a" "h") ∧
      Confines foreignGroup "a" (updatesOf [foundGroup "n" [("r", "n")]])
        (applyCacheMutations foreignGroup
          (mutationsOf (plansOf foreignGroup [foundGroup "n" [("r", "n")]]))) := by
  have authorized : authorize [foundGroup "n" [("r", "n")]] "a" foreignGroup =
      .ok ([foundGroup "n" [("r", "n")]], []) := rfl
  refine ⟨⟨shut_foreignGroup, rfl, fun _ held => absurd held holds_foreignGroup⟩,
    confines_of_contained authorized rfl ?_⟩
  intro action member
  rw [List.mem_singleton.mp member]
  rfl

def strayRows : List (String × String) := [("s", "n"), ("r", "n"), ("r", "h")]

/-- The second put of row `r` is exempt like the first, and moves it into the foreign
group. -/
theorem bootstrap_row_enters_foreign_group :
    ¬ ∀ caches actorId actions accepted rejected plans,
      authorize actions actorId caches = .ok (accepted, rejected) →
      planAll caches (accepted.map (·.updates)) = .ok plans →
      Confines caches actorId (updatesOf accepted)
        (applyCacheMutations caches (mutationsOf plans)) := by
  intro confines
  have confined := confines foreignGroup "a" [foundGroup "n" strayRows]
    [foundGroup "n" strayRows] [] (plansOf foreignGroup [foundGroup "n" strayRows]) rfl rfl
  apply holds_foreignGroup
  apply confined.ungained "h" rfl (fun _ held => absurd held holds_foreignGroup)
    (.term (.string "task.*"))
  exact ⟨"r", ⟨"r", .string "h", .string "a", .list [.string "task.*"]⟩, rfl, rfl, rfl,
    [.term (.string "task.*")], rfl, by decide⟩

-- Nor does the bootstrap see that a group exists while the type index lags.
example : authorize [foundGroup "h" [("r", "h")]] "a"
    { foreignGroup with entityTypes := .empty } = .ok ([foundGroup "h" [("r", "h")]], []) := rfl

end Authorizer

end Ebb.Access
