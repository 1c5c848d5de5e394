import Ebb.Access.OverlayAgreement

namespace Ebb.Access

/-! The tables as the live server leaves them: what each Update makes of the row it
names, whatever was planned and applied in between. -/

/-- What the tables hold, each row under its id. -/
@[ext] structure Rows where
  members : String → Option GroupMember
  memberships : String → Option EntityGroup
  relationships : String → Option Relationship
  types : String → Option String

def SystemCaches.rows (caches : SystemCaches) : Rows where
  members := caches.groups.getGroupMember
  memberships := caches.entityGroups.getEntityGroup
  relationships := caches.relationships.getRelationship
  types := caches.entityTypes.get?

/-! ## Updates -/

/-- The row an Update merges over: only a patch has one. -/
def patchedRow (method : UpdateMethod) (row : Option α) : Option α :=
  match method with
  | .patch => row
  | _ => none

/-- The member row an Update leaves: a patch merges over the row, and an Update that
names no actor or no group is dropped. -/
def memberAfter (update : ValidatedUpdate) (row : Option GroupMember) : Option GroupMember :=
  match update.method with
  | .delete => none
  | method =>
      let existing := patchedRow method row
      let actorId := (fieldOf update.data "actor_id").or ((existing.map (·.actorId)).getD .null)
      let groupId := (fieldOf update.data "group_id").or ((existing.map (·.groupId)).getD .null)
      let permissions := (fieldOf update.data "permissions").or
        ((existing.map (·.permissions)).getD .null)
      if actorId = .null ∨ groupId = .null then row
      else some ⟨update.subjectId, groupId, actorId, permissions.or .null⟩

def membershipAfter (update : ValidatedUpdate) (row : Option EntityGroup) :
    Option EntityGroup :=
  match update.method with
  | .delete => none
  | method =>
      let existing := patchedRow method row
      let entityId := (fieldOf update.data "entity_id").or
        ((existing.map (·.entityId)).getD .null)
      let groupId := (fieldOf update.data "group_id").or ((existing.map (·.groupId)).getD .null)
      if entityId = .null ∨ groupId = .null then row
      else some ⟨update.subjectId, entityId, groupId⟩

/-- A put and a patch alike write a whole relationship row, where they name both of
its ends. -/
def relationshipAfter (update : ValidatedUpdate) (row : Option Relationship) :
    Option Relationship :=
  match update.method with
  | .delete => none
  | _ =>
      let sourceId := fieldOf update.data "source_id"
      let targetId := fieldOf update.data "target_id"
      if sourceId.truthy = true ∧ targetId.truthy = true then
        some ⟨update.subjectId, sourceId, targetId, (fieldOf update.data "type").or .null,
          (fieldOf update.data "field").or .null⟩
      else row

def Rows.after (rows : Rows) (update : ValidatedUpdate) : Rows where
  members id :=
    if update.subjectType = "groupMember" ∧ update.subjectId = id then
      memberAfter update (rows.members id)
    else rows.members id
  memberships id :=
    if update.subjectType = "entityGroup" ∧ update.subjectId = id then
      membershipAfter update (rows.memberships id)
    else rows.memberships id
  relationships id :=
    if update.subjectType = "relationship" ∧ update.subjectId = id then
      relationshipAfter update (rows.relationships id)
    else rows.relationships id
  types id := if update.subjectId = id then some update.subjectType else rows.types id

/-! ## Mutations -/

def GroupMember.stored (row : GroupMember) : GroupMember :=
  { row with permissions := row.permissions.or .null }

def Relationship.stored (row : Relationship) : Relationship :=
  { row with type := row.type.or .null, field := row.field.or .null }

namespace Rows

/-- The rows as one mutation leaves them; a relationship the table refuses leaves its
row alone. -/
def write (rows : Rows) : Mutation → Rows
  | .entityType id type => { rows with types := Function.update rows.types id (some type) }
  | .groupMemberPut row =>
      { rows with members := Function.update rows.members row.id (some row.stored) }
  | .groupMemberDelete id => { rows with members := Function.update rows.members id none }
  | .entityGroupPut row =>
      { rows with memberships := Function.update rows.memberships row.id (some row) }
  | .entityGroupDelete id =>
      { rows with memberships := Function.update rows.memberships id none }
  | .relationshipPut row =>
      if row.sourceId.truthy = true ∧ row.targetId.truthy = true then
        { rows with relationships := Function.update rows.relationships row.id (some row.stored) }
      else rows
  | .relationshipDelete id =>
      { rows with relationships := Function.update rows.relationships id none }

end Rows

theorem rows_applyCacheMutation (caches : SystemCaches) {mutation : Mutation}
    (sound : mutation.Sound) :
    (applyCacheMutation caches mutation).rows = caches.rows.write mutation := by
  cases mutation with
  | entityType id type =>
      simp only [SystemCaches.rows, applyCacheMutation, Rows.write]
      congr 1
      funext other
      rw [OrderedMap.get?_set, Function.update_apply]
  | groupMemberPut row =>
      have ends : row.actorId.truthy = true ∧ row.groupId.truthy = true := sound
      simp only [SystemCaches.rows, applyCacheMutation, Rows.write]
      congr 1
      funext other
      simp only [GroupCache.getGroupMember_put, Function.update_apply, ends, and_true]
      rfl
  | groupMemberDelete id =>
      simp only [SystemCaches.rows, applyCacheMutation, Rows.write]
      congr 1
      funext other
      rw [GroupCache.getGroupMember_delete, Function.update_apply]
  | entityGroupPut row =>
      have ends : row.entityId.truthy = true ∧ row.groupId.truthy = true := sound
      simp only [SystemCaches.rows, applyCacheMutation, Rows.write]
      congr 1
      funext other
      simp only [EntityGroupCache.getEntityGroup_put, Function.update_apply, ends, and_true]
  | entityGroupDelete id =>
      simp only [SystemCaches.rows, applyCacheMutation, Rows.write]
      congr 1
      funext other
      rw [EntityGroupCache.getEntityGroup_delete, Function.update_apply]
  | relationshipPut row =>
      simp only [SystemCaches.rows, applyCacheMutation, Rows.write]
      split
      · next ends =>
          congr 1
          funext other
          simp only [RelationshipCache.getRelationship_put, Function.update_apply, ends, and_true]
          rfl
      · next ends =>
          congr 1
          funext other
          rw [RelationshipCache.getRelationship_put, if_neg fun both => ends both.2]
  | relationshipDelete id =>
      simp only [SystemCaches.rows, applyCacheMutation, Rows.write]
      congr 1
      funext other
      rw [RelationshipCache.getRelationship_delete, Function.update_apply]

theorem rows_applyCacheMutations (caches : SystemCaches) {mutations : List Mutation}
    (sound : ∀ mutation ∈ mutations, mutation.Sound) :
    (applyCacheMutations caches mutations).rows = mutations.foldl Rows.write caches.rows := by
  induction mutations generalizing caches with
  | nil => rfl
  | cons mutation rest induction =>
      have here := rows_applyCacheMutation caches (sound mutation List.mem_cons_self)
      have later := induction (applyCacheMutation caches mutation)
        fun other member => sound other (List.mem_cons_of_mem _ member)
      rw [here] at later
      exact later

/-! ## Rows by their last mutation -/

def Planned.map (change : α → β) : Planned α → Planned β
  | .deleted => .deleted
  | .row value => .row (change value)

/-- The last mutation of a relationship that the table does not refuse. -/
def storedRelationshipAt (id : String) : Mutation → Option (Planned Relationship)
  | .relationshipPut row =>
      if row.id = id ∧ row.sourceId.truthy = true ∧ row.targetId.truthy = true then
        some (.row row.stored)
      else none
  | .relationshipDelete deleted => if deleted = id then some .deleted else none
  | _ => none

section Written

variable (rows : Rows) (mutations : List Mutation) (id : String)

theorem members_written :
    (mutations.foldl Rows.write rows).members id =
      EntityIndex.cachedRow
        ((lastSome (memberAt id) mutations).map (Planned.map GroupMember.stored))
        (rows.members id) := by
  induction mutations using List.reverseRecOn with
  | nil => rfl
  | append_singleton mutations mutation induction =>
      rw [List.foldl_concat, lastSome_concat]
      cases mutation with
      | groupMemberPut row =>
          by_cases same : row.id = id
          · subst same
            simp [Rows.write, memberAt, Planned.map, EntityIndex.cachedRow]
          · have different : id ≠ row.id := fun equal => same equal.symm
            simpa [Rows.write, memberAt, same, different] using induction
      | groupMemberDelete deleted =>
          by_cases same : deleted = id
          · subst same
            simp [Rows.write, memberAt, Planned.map, EntityIndex.cachedRow]
          · have different : id ≠ deleted := fun equal => same equal.symm
            simpa [Rows.write, memberAt, same, different] using induction
      | relationshipPut row =>
          simp only [Rows.write, memberAt, Option.none_or]
          split
          · exact induction
          · exact induction
      | _ => exact induction

theorem memberships_written :
    (mutations.foldl Rows.write rows).memberships id =
      EntityIndex.cachedRow (lastSome (membershipAt id) mutations) (rows.memberships id) := by
  induction mutations using List.reverseRecOn with
  | nil => rfl
  | append_singleton mutations mutation induction =>
      rw [List.foldl_concat, lastSome_concat]
      cases mutation with
      | entityGroupPut row =>
          by_cases same : row.id = id
          · subst same
            simp [Rows.write, membershipAt, EntityIndex.cachedRow]
          · have different : id ≠ row.id := fun equal => same equal.symm
            simpa [Rows.write, membershipAt, same, different] using induction
      | entityGroupDelete deleted =>
          by_cases same : deleted = id
          · subst same
            simp [Rows.write, membershipAt, EntityIndex.cachedRow]
          · have different : id ≠ deleted := fun equal => same equal.symm
            simpa [Rows.write, membershipAt, same, different] using induction
      | relationshipPut row =>
          simp only [Rows.write, membershipAt, Option.none_or]
          split
          · exact induction
          · exact induction
      | _ => exact induction

theorem relationships_written :
    (mutations.foldl Rows.write rows).relationships id =
      EntityIndex.cachedRow (lastSome (storedRelationshipAt id) mutations)
        (rows.relationships id) := by
  induction mutations using List.reverseRecOn with
  | nil => rfl
  | append_singleton mutations mutation induction =>
      rw [List.foldl_concat, lastSome_concat]
      cases mutation with
      | relationshipPut row =>
          simp only [Rows.write, storedRelationshipAt]
          by_cases ends : row.sourceId.truthy = true ∧ row.targetId.truthy = true
          · by_cases same : row.id = id
            · subst same
              simp [ends, EntityIndex.cachedRow]
            · have different : id ≠ row.id := fun equal => same equal.symm
              simpa [ends, same, different] using induction
          · rw [if_neg ends, if_neg fun both => ends both.2]
            exact induction
      | relationshipDelete deleted =>
          by_cases same : deleted = id
          · subst same
            simp [Rows.write, storedRelationshipAt, EntityIndex.cachedRow]
          · have different : id ≠ deleted := fun equal => same equal.symm
            simpa [Rows.write, storedRelationshipAt, same, different] using induction
      | _ => exact induction

theorem types_written :
    (mutations.foldl Rows.write rows).types id =
      (lastSome (typeAt id) mutations).or (rows.types id) := by
  induction mutations using List.reverseRecOn with
  | nil => rfl
  | append_singleton mutations mutation induction =>
      rw [List.foldl_concat, lastSome_concat]
      cases mutation with
      | entityType typed type =>
          by_cases same : typed = id
          · subst same
            simp [Rows.write, typeAt]
          · have different : id ≠ typed := fun equal => same equal.symm
            simpa [Rows.write, typeAt, same, different] using induction
      | relationshipPut row =>
          simp only [Rows.write, typeAt, Option.none_or]
          split
          · exact induction
          · exact induction
      | _ => exact induction

theorem write_dropRepeats :
    (dropRepeats Mutation.key (fun _ => none) mutations).foldl Rows.write rows =
      mutations.foldl Rows.write rows := by
  have keyed : ∀ id mutation planned, storedRelationshipAt id mutation = some planned →
      mutation.key = .relationshipsById id := by
    intro id mutation planned reads
    cases mutation with
    | _ => grind [storedRelationshipAt, Mutation.key]
  apply Rows.ext
  · funext id
    rw [members_written, members_written, lastSome_kept (keyed_memberAt id)]
  · funext id
    rw [memberships_written, memberships_written, lastSome_kept (keyed_membershipAt id)]
  · funext id
    rw [relationships_written, relationships_written, lastSome_kept (keyed id)]
  · funext id
    rw [types_written, types_written, lastSome_kept (keyed_typeAt id)]

end Written

/-! ## Plans -/

theorem fieldOf_dataOrEmpty (data : Term) (field : String) :
    fieldOf (dataOrEmpty data) field = fieldOf data field := by
  cases data with
  | bool value =>
      cases value with
      | _ => rfl
  | _ => rfl

theorem Term.or_or_null (wire earlier : Term) :
    (wire.or (earlier.or .null)).or .null = (wire.or earlier).or .null := by
  cases wireTruthy : wire.truthy with
  | true => simp only [Term.or_of_truthy wireTruthy]
  | false =>
      rw [Term.or_of_not_truthy wireTruthy, Term.or_of_not_truthy wireTruthy]
      cases truthy : earlier.truthy with
      | true => rw [Term.or_null_of_truthy truthy, Term.or_null_of_truthy truthy]
      | false => rw [Term.or_of_not_truthy truthy, Term.or_of_not_truthy rfl]

theorem patchExisting_eq (method : UpdateMethod) (effect : Option (Planned α))
    (cached : Option α) :
    patchExisting method effect cached =
      patchedRow method (EntityIndex.cachedRow effect cached) := by
  cases method with
  | patch =>
      cases effect with
      | none => rfl
      | some effect =>
          cases effect with
          | _ => rfl
  | _ => rfl

theorem patchExisting_stored (method : UpdateMethod) (effect : Option (Planned GroupMember))
    (cached : Option GroupMember) :
    let stored := patchedRow method
      (EntityIndex.cachedRow (effect.map (Planned.map GroupMember.stored)) cached)
    let existing := patchExisting method effect cached
    stored.map (·.actorId) = existing.map (·.actorId) ∧
      stored.map (·.groupId) = existing.map (·.groupId) ∧
      ∀ wire : Term, (wire.or ((stored.map (·.permissions)).getD .null)).or .null =
        (wire.or ((existing.map (·.permissions)).getD .null)).or .null := by
  dsimp only
  rw [patchExisting_eq]
  cases method with
  | patch =>
      cases effect with
      | none => exact ⟨rfl, rfl, fun _ => rfl⟩
      | some effect =>
          cases effect with
          | deleted => exact ⟨rfl, rfl, fun _ => rfl⟩
          | row row => exact ⟨rfl, rfl, fun wire => Term.or_or_null wire row.permissions⟩
  | _ => exact ⟨rfl, rfl, fun _ => rfl⟩

namespace Rows

variable {rows : Rows} {update : ValidatedUpdate}

theorem after_groupMember (type : update.subjectType = "groupMember") :
    rows.after update = { rows.write (.entityType update.subjectId update.subjectType) with
      members := Function.update rows.members update.subjectId
        (memberAfter update (rows.members update.subjectId)) } := by
  apply Rows.ext
  · funext id
    simp only [after, type, true_and, Function.update_apply, eq_comm]
    split
    · next same => rw [same]
    · rfl
  · funext id
    simp [after, type, write]
  · funext id
    simp [after, type, write]
  · funext id
    simp only [after, write, Function.update_apply, eq_comm]

theorem after_entityGroup (type : update.subjectType = "entityGroup") :
    rows.after update = { rows.write (.entityType update.subjectId update.subjectType) with
      memberships := Function.update rows.memberships update.subjectId
        (membershipAfter update (rows.memberships update.subjectId)) } := by
  apply Rows.ext
  · funext id
    simp [after, type, write]
  · funext id
    simp only [after, type, true_and, Function.update_apply, eq_comm]
    split
    · next same => rw [same]
    · rfl
  · funext id
    simp [after, type, write]
  · funext id
    simp only [after, write, Function.update_apply, eq_comm]

theorem after_relationship (type : update.subjectType = "relationship") :
    rows.after update = { rows.write (.entityType update.subjectId update.subjectType) with
      relationships := Function.update rows.relationships update.subjectId
        (relationshipAfter update (rows.relationships update.subjectId)) } := by
  apply Rows.ext
  · funext id
    simp [after, type, write]
  · funext id
    simp [after, type, write]
  · funext id
    simp only [after, type, true_and, Function.update_apply, eq_comm]
    split
    · next same => rw [same]
    · rfl
  · funext id
    simp only [after, write, Function.update_apply, eq_comm]

theorem after_other (member : update.subjectType ≠ "groupMember")
    (membership : update.subjectType ≠ "entityGroup")
    (relationship : update.subjectType ≠ "relationship") :
    rows.after update = rows.write (.entityType update.subjectId update.subjectType) := by
  apply Rows.ext
  · funext id
    simp [after, member, write]
  · funext id
    simp [after, membership, write]
  · funext id
    simp [after, relationship, write]
  · funext id
    simp only [after, write, Function.update_apply, eq_comm]

end Rows

section Plans

variable {caches : SystemCaches} {overlay : Overlay} {update : ValidatedUpdate}
  {planned : List Mutation × Overlay} {rows : Rows}

theorem write_planGroupMember (type : update.subjectType = "groupMember")
    (members : rows.members update.subjectId = EntityIndex.cachedRow
      ((overlay.groupMembersById.get? update.subjectId).map (Planned.map GroupMember.stored))
      (caches.groups.getGroupMember update.subjectId))
    (plans : planGroupMember caches overlay update = .ok planned) :
    planned.1.foldl Rows.write
        (rows.write (.entityType update.subjectId update.subjectType)) =
      rows.after update := by
  rw [Rows.after_groupMember type]
  rw [planGroupMember] at plans
  cases method : update.method with
  | delete =>
      rw [method] at plans
      cases plans
      simp only [List.foldl_cons, List.foldl_nil, Rows.write, memberAfter, method]
  | _ =>
      rw [method] at plans
      rcases bind_eq_ok.mp plans with ⟨actor, readActor, plans⟩
      rcases bind_eq_ok.mp plans with ⟨group, readGroup, plans⟩
      rcases bind_eq_ok.mp plans with ⟨permissions, readPermissions, plans⟩
      rw [Fields.get_eq_ok, fieldOf_dataOrEmpty] at readActor readGroup readPermissions
      have stored := patchExisting_stored update.method
        (overlay.groupMembersById.get? update.subjectId)
        (caches.groups.getGroupMember update.subjectId)
      rw [method] at stored
      dsimp only at stored plans
      simp only [memberAfter, method, members, stored.1, stored.2.1, stored.2.2, readActor.2,
        readGroup.2, readPermissions.2]
      split at plans
      · next dropped =>
          cases plans
          rw [if_pos dropped, ← members, Function.update_eq_self]
          rfl
      · next kept =>
          cases plans
          rw [if_neg kept]
          rfl

theorem write_planEntityGroup (type : update.subjectType = "entityGroup")
    (memberships : rows.memberships update.subjectId = EntityIndex.cachedRow
      (overlay.entityGroupsById.get? update.subjectId)
      (caches.entityGroups.getEntityGroup update.subjectId))
    (plans : planEntityGroup caches overlay update = .ok planned) :
    planned.1.foldl Rows.write
        (rows.write (.entityType update.subjectId update.subjectType)) =
      rows.after update := by
  rw [Rows.after_entityGroup type]
  rw [planEntityGroup] at plans
  cases method : update.method with
  | delete =>
      rw [method] at plans
      cases plans
      simp only [List.foldl_cons, List.foldl_nil, Rows.write, membershipAfter, method]
  | _ =>
      rw [method] at plans
      rcases bind_eq_ok.mp plans with ⟨entity, readEntity, plans⟩
      rcases bind_eq_ok.mp plans with ⟨group, readGroup, plans⟩
      rw [Fields.get_eq_ok, fieldOf_dataOrEmpty] at readEntity readGroup
      dsimp only at plans
      rw [patchExisting_eq] at plans
      simp only [membershipAfter, method, memberships, readEntity.2, readGroup.2]
      split at plans
      · next dropped =>
          cases plans
          rw [if_pos dropped, ← memberships, Function.update_eq_self]
          rfl
      · next kept =>
          cases plans
          rw [if_neg kept]
          rfl

theorem write_planRelationship (type : update.subjectType = "relationship")
    (plans : planRelationship overlay update = .ok planned) :
    planned.1.foldl Rows.write
        (rows.write (.entityType update.subjectId update.subjectType)) =
      rows.after update := by
  rw [Rows.after_relationship type]
  rw [planRelationship] at plans
  cases method : update.method with
  | delete =>
      rw [method] at plans
      cases plans
      simp only [List.foldl_cons, List.foldl_nil, Rows.write, relationshipAfter, method]
  | _ =>
      rw [method] at plans
      rcases bind_eq_ok.mp plans with ⟨source, readSource, plans⟩
      rcases bind_eq_ok.mp plans with ⟨target, readTarget, plans⟩
      rcases bind_eq_ok.mp plans with ⟨type, readType, plans⟩
      rcases bind_eq_ok.mp plans with ⟨field, readField, plans⟩
      rw [Fields.get_eq_ok, fieldOf_dataOrEmpty] at readSource readTarget readType readField
      simp only [relationshipAfter, method, readSource.2, readTarget.2, readType.2, readField.2]
      split at plans
      · next dropped =>
          cases plans
          have unnamed : ¬ (source.truthy = true ∧ target.truthy = true) := by
            rcases dropped with isNull | isNull
            · simp [isNull]
            · simp [isNull]
          rw [if_neg unnamed, Function.update_eq_self]
          rfl
      · cases plans
        simp only [List.foldl_cons, List.foldl_nil, Rows.write, Relationship.stored]
        split
        · rfl
        · rw [Function.update_eq_self]

theorem write_planSystemMutation
    (members : rows.members update.subjectId = EntityIndex.cachedRow
      ((overlay.groupMembersById.get? update.subjectId).map (Planned.map GroupMember.stored))
      (caches.groups.getGroupMember update.subjectId))
    (memberships : rows.memberships update.subjectId = EntityIndex.cachedRow
      (overlay.entityGroupsById.get? update.subjectId)
      (caches.entityGroups.getEntityGroup update.subjectId))
    (plans : planSystemMutation caches overlay update = .ok planned) :
    planned.1.foldl Rows.write
        (rows.write (.entityType update.subjectId update.subjectType)) =
      rows.after update := by
  rw [planSystemMutation] at plans
  split at plans
  · next type => exact write_planGroupMember type members plans
  · next type => exact write_planEntityGroup type memberships plans
  · next type => exact write_planRelationship type plans
  · next member membership relationship =>
      cases plans
      exact (Rows.after_other member membership relationship).symm

theorem write_planUpdates {earlier : List Mutation} (consistent : overlay.Consistent)
    (viewed : overlay.view = viewOf caches [] earlier)
    (sound : ∀ mutation ∈ earlier, mutation.Sound) {updates : List ValidatedUpdate}
    (plans : planUpdates caches overlay updates = .ok planned) :
    (earlier ++ planned.1).foldl Rows.write caches.rows =
      updates.foldl Rows.after (earlier.foldl Rows.write caches.rows) := by
  induction updates using List.reverseRecOn generalizing planned with
  | nil =>
      cases plans
      rw [List.append_nil]
      rfl
  | append_singleton updates update induction =>
      rw [planUpdates, List.foldlM_append] at plans
      rcases bind_eq_ok.mp plans with ⟨before, planBefore, step⟩
      rw [List.foldlM_cons] at step
      rcases bind_eq_ok.mp step with ⟨next, step, finished⟩
      cases finished
      rcases bind_eq_ok.mp step with ⟨system, planSystem, step⟩
      cases step
      have soFar := induction planBefore
      have spec := planUpdates_spec consistent viewed sound planBefore
      have soundBefore : ∀ mutation ∈ earlier ++ before.1, mutation.Sound := by
        intro mutation member
        rcases List.mem_append.mp member with member | member
        · exact sound mutation member
        · exact spec.2 mutation member
      have reached := (extend_foldl consistent viewed before.1 soundBefore).2
      rw [← spec.1] at reached
      have here := @write_planSystemMutation caches _ update system
        ((earlier ++ before.1).foldl Rows.write caches.rows)
        (by
          rw [members_written]
          exact congrArg (fun effect => EntityIndex.cachedRow (Option.map _ effect) _)
            (congrFun (congrArg Overlay.View.groupMembers reached) update.subjectId).symm)
        (by
          rw [memberships_written]
          exact congrArg (fun effect => EntityIndex.cachedRow effect _)
            (congrFun (congrArg Overlay.View.entityGroups reached) update.subjectId).symm)
        planSystem
      rw [List.foldl_concat, ← soFar, ← here, ← List.append_assoc, List.foldl_append,
        List.foldl_cons]

end Plans

theorem rows_planAll {caches : SystemCaches} {actions : List (List ValidatedUpdate)}
    {plans : List (List Mutation × Overlay)} (planned : planAll caches actions = .ok plans) :
    (applyCacheMutations caches (mutationsOf plans)).rows =
      actions.flatten.foldl Rows.after caches.rows := by
  rw [rows_applyCacheMutations caches (chained_planAll planned).sound]
  induction actions using List.reverseRecOn generalizing plans with
  | nil =>
      cases planned
      rfl
  | append_singleton actions updates induction =>
      rw [planAll, List.foldlM_append] at planned
      rcases bind_eq_ok.mp planned with ⟨before, planBefore, step⟩
      rw [List.foldlM_cons] at step
      rcases bind_eq_ok.mp step with ⟨next, step, finished⟩
      cases finished
      rcases bind_eq_ok.mp step with ⟨here, planHere, step⟩
      cases step
      have chained := chained_planAll planBefore
      have merged := chained.merged
      rcases bind_eq_ok.mp planHere with ⟨⟨all, extended⟩, planUpdated, kept⟩
      cases kept
      have written := write_planUpdates merged.1 merged.2 chained.sound planUpdated
      rw [List.flatten_append, List.foldl_append, ← induction planBefore]
      rw [mutationsOf, List.flatMap_append, List.foldl_append, List.flatMap_singleton,
        write_dropRepeats, ← mutationsOf, ← List.foldl_append]
      simpa using written

theorem rows_plan {caches : SystemCaches} {updates : List ValidatedUpdate}
    {planned : List Mutation × Overlay} (plans : plan updates caches .empty = .ok planned) :
    (applyCacheMutations caches planned.1).rows = updates.foldl Rows.after caches.rows := by
  have all : planAll caches [updates] = .ok [(planned.1, slice planned.2 planned.1)] := by
    rw [planAll, List.foldlM_cons, planNext]
    change (plan updates caches .empty >>= _) >>= _ = _
    rw [plans]
    rfl
  have rows := rows_planAll all
  rw [mutationsOf, List.flatMap_singleton, List.flatten_singleton] at rows
  exact rows

end Ebb.Access
