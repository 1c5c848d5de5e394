import Ebb.Access.LiveRows
import Ebb.Server.EntityStore
import Mathlib.Data.List.Sort

namespace Ebb.Access

/-! The tables a server rebuilds from its log when it starts, and the tables its Writer
keeps while it runs. -/

/-! ## Committed fields as terms -/

mutual

def fieldTerm : FieldValue Term → Term
  | .leaf leaf =>
      .map (("value", leaf.value) ::
        (if leaf.updateId = "" then [] else [("update_id", .string leaf.updateId)]) ++
          (leaf.hlc.map fun hlc => ("hlc", .string (toString hlc))).toList)
  | .map entries => .map [("map", .map (fieldTerms entries))]

def fieldTerms : Fields Term → List (String × Term)
  | [] => []
  | (key, value) :: rest => (key, fieldTerm value) :: fieldTerms rest

end

def dataTerm (fields : Fields Term) : Term := .map [("fields", .map (fieldTerms fields))]

def decoded (update : Update Term) : ValidatedUpdate where
  id := update.id
  subjectId := update.subjectId
  subjectType := update.subjectType
  method := update.method
  data := (update.data.map dataTerm).getD .null

/-- What `Fields.get` reads of a field. -/
def valueOf : Option (FieldValue Term) → Term
  | none => .null
  | some value => unwrapValue (fieldTerm value)

theorem lookup_fieldTerms (fields : Fields Term) (field : String) :
    (fieldTerms fields).lookup field = (fields.lookup field).map fieldTerm := by
  induction fields with
  | nil => rfl
  | cons entry rest induction =>
      rcases entry with ⟨key, value⟩
      rw [fieldTerms, lookup_cons_eq, lookup_cons_eq, induction]
      split
      · rfl
      · rfl

theorem fieldOf_dataTerm (fields : Fields Term) (field : String) :
    fieldOf (dataTerm fields) field = valueOf (fields.lookup field) := by
  have read : fieldOf (dataTerm fields) field =
      unwrapValue (entryOf (fieldTerms fields) field) := rfl
  rw [read, entryOf, lookup_fieldTerms]
  cases fields.lookup field with
  | none => rfl
  | some value => rfl

theorem fieldOf_decoded (update : Update Term) (field : String) :
    fieldOf (decoded update).data field = valueOf ((readFields update).lookup field) := by
  rw [decoded, readFields]
  cases update.data with
  | none => rfl
  | some fields => exact fieldOf_dataTerm fields field

namespace SystemCache

open Ebb.Server Ebb.Server.EntityStore

def applyAction (caches : SystemCaches) (action : Action Term) : Outcome SystemCaches := do
  let (mutations, _) ← plan (action.updates.map decoded) caches .empty
  .ok (applyCacheMutations caches mutations)

def liveCaches (log : CommittedLog Term) : Outcome SystemCaches :=
  log.actions.foldlM applyAction .empty

/-! ## When it starts -/

/-- `cf_type_entities`, the types and ids of all Updates, in the order of their keys. -/
def typeEntities (log : CommittedLog Term) : List (String × String) :=
  let key := fun (entry : String × String) =>
    FieldMerge.codePoints entry.1 ++ 0 :: FieldMerge.codePoints entry.2
  ((log.actions.flatMap (·.updates)).map fun update =>
    (update.subjectType, update.subjectId)).eraseDups.insertionSort
      fun left right => !(key right).lex (key left)

def populateEntityTypes (log : CommittedLog Term) (caches : SystemCaches) : SystemCaches :=
  { caches with
    entityTypes := (typeEntities log).foldl (fun types entry => types.set entry.2 entry.1)
      caches.entityTypes }

def populateType (type : String) (log : CommittedLog Term)
    (insert : SystemCaches → EntityRow Term → SystemCaches) (caches : SystemCaches) :
    SystemCaches :=
  ((typeEntities log).filter fun entry => entry.1 = type).foldl
    (fun caches entry =>
      match coldMaterialize log entry.2 with
      | some entity => insert caches entity
      | none => caches) caches

def entityField (entity : EntityRow Term) (field : String) : Term :=
  fieldOf (dataTerm entity.data) field

def memberOf (entity : EntityRow Term) : GroupMember where
  id := entity.id
  groupId := entityField entity "group_id"
  actorId := entityField entity "actor_id"
  permissions := entityField entity "permissions"

def entityGroupOf (entity : EntityRow Term) : EntityGroup where
  id := entity.id
  entityId := entityField entity "entity_id"
  groupId := entityField entity "group_id"

def relationshipOf (entity : EntityRow Term) : Relationship where
  id := entity.id
  sourceId := entityField entity "source_id"
  targetId := entityField entity "target_id"
  type := entityField entity "type"
  field := entityField entity "field"

def putGroupMember (caches : SystemCaches) (entity : EntityRow Term) : SystemCaches :=
  { caches with groups := caches.groups.putGroupMember (memberOf entity) }

def putEntityGroup (caches : SystemCaches) (entity : EntityRow Term) : SystemCaches :=
  { caches with entityGroups := caches.entityGroups.putEntityGroup (entityGroupOf entity) }

def putRelationship (caches : SystemCaches) (entity : EntityRow Term) : SystemCaches :=
  { caches with relationships := caches.relationships.putRelationship (relationshipOf entity) }

def populateSystemCaches (log : CommittedLog Term) : SystemCaches :=
  populateType "relationship" log putRelationship
    (populateType "entityGroup" log putEntityGroup
      (populateType "groupMember" log putGroupMember
        (populateEntityTypes log .empty)))

/-! ## Rows of a rebuilt table -/

/-- The rows a table takes from one materialized entity. -/
def keptMember (entity : EntityRow Term) : Option GroupMember :=
  if (memberOf entity).actorId.truthy = true ∧ (memberOf entity).groupId.truthy = true then
    some (memberOf entity).stored
  else none

def keptEntityGroup (entity : EntityRow Term) : Option EntityGroup :=
  if (entityGroupOf entity).entityId.truthy = true ∧
      (entityGroupOf entity).groupId.truthy = true then
    some (entityGroupOf entity)
  else none

def keptRelationship (entity : EntityRow Term) : Option Relationship :=
  if (relationshipOf entity).sourceId.truthy = true ∧
      (relationshipOf entity).targetId.truthy = true then
    some (relationshipOf entity).stored
  else none

theorem coldMaterialize_id {log : CommittedLog Term} {entityId : String}
    {entity : EntityRow Term} (live : coldMaterialize log entityId = some entity) :
    entity.id = entityId := by
  rw [coldMaterialize] at live
  split at live
  · cases live
  · rw [formatLiveEntity] at live
    split at live
    · cases live
    · cases live
      rfl

variable {type : String} {insert : SystemCaches → EntityRow Term → SystemCaches}
  (caches : SystemCaches) (entity : EntityRow Term)

theorem mem_typeEntities {log : CommittedLog Term} {id : String} :
    (type, id) ∈ typeEntities log ↔
      ∃ update ∈ log.actions.flatMap (·.updates),
        update.subjectType = type ∧ update.subjectId = id := by
  rw [typeEntities, List.mem_insertionSort, List.mem_eraseDups, List.mem_map]
  simp only [Prod.mk.injEq]

theorem populateType_rows {α : Type} {log : CommittedLog Term}
    (rowOf : SystemCaches → String → Option α) (kept : EntityRow Term → Option α)
    (inserted : ∀ caches entity id, rowOf (insert caches entity) id = if id = entity.id then
      (kept entity).or (rowOf caches id) else rowOf caches id)
    (caches : SystemCaches) (id : String) (absent : rowOf caches id = none) :
    rowOf (populateType type log insert caches) id =
      if (type, id) ∈ typeEntities log then (coldMaterialize log id).bind kept else none := by
  have general : ∀ (entries : List (String × String)) (caches : SystemCaches),
      (rowOf caches id = none ∨ rowOf caches id = (coldMaterialize log id).bind kept) →
      rowOf (entries.foldl (fun caches entry =>
          match coldMaterialize log entry.2 with
          | some entity => insert caches entity
          | none => caches) caches) id =
        if id ∈ entries.map Prod.snd then (coldMaterialize log id).bind kept
        else rowOf caches id := by
    intro entries
    induction entries with
    | nil => exact fun _ _ => rfl
    | cons entry rest induction =>
        intro caches before
        have step : rowOf (match coldMaterialize log entry.2 with
            | some entity => insert caches entity
            | none => caches) id =
              if id = entry.2 then (coldMaterialize log id).bind kept else rowOf caches id := by
          by_cases here : id = entry.2
          · rw [if_pos here, ← here]
            cases live : coldMaterialize log id with
            | none =>
                rw [live] at before
                exact before.elim (fun none => none) (fun same => same)
            | some entity =>
                rw [live] at before
                dsimp only
                rw [inserted, if_pos (coldMaterialize_id live).symm]
                cases keeps : kept entity with
                | some row => simp [keeps]
                | none =>
                    rw [Option.none_or]
                    rw [Option.bind_some, keeps] at before
                    rw [Option.bind_some, keeps]
                    exact before.elim (fun none => none) (fun same => same)
          · rw [if_neg here]
            cases live : coldMaterialize log entry.2 with
            | none => rfl
            | some entity =>
                dsimp only
                rw [inserted, if_neg]
                rw [coldMaterialize_id live]
                exact here
        rw [List.foldl_cons, induction, step]
        · simp only [List.map_cons, List.mem_cons]
          by_cases here : id = entry.2
          · simp [here]
          · simp only [here, if_false, false_or]
        · rw [step]
          split
          · exact .inr rfl
          · exact before
  rw [populateType, general _ caches (.inl absent), absent]
  congr 1
  rw [eq_iff_iff, List.mem_map]
  constructor
  · intro found
    rcases found with ⟨entry, member, same⟩
    rw [List.mem_filter, decide_eq_true_eq] at member
    rw [← same, ← member.2]
    exact member.1
  · intro member
    exact ⟨(type, id), List.mem_filter.mpr ⟨member, decide_eq_true rfl⟩, rfl⟩

theorem populateType_frame {α : Type} (part : SystemCaches → α) {log : CommittedLog Term}
    (kept : ∀ caches entity, part (insert caches entity) = part caches) (caches : SystemCaches)
    : part (populateType type log insert caches) = part caches := by
  rw [populateType]
  generalize (typeEntities log).filter (fun entry => entry.1 = type) = entries
  induction entries generalizing caches with
  | nil => rfl
  | cons entry rest induction =>
      rw [List.foldl_cons, induction]
      cases coldMaterialize log entry.2 with
      | none => rfl
      | some entity => exact kept caches entity

theorem getGroupMember_inserted (id : String) :
    (putGroupMember caches entity).rows.members id =
      if id = entity.id then (keptMember entity).or (caches.rows.members id)
      else caches.rows.members id := by
  change (caches.groups.putGroupMember (memberOf entity)).getGroupMember id = _
  rw [GroupCache.getGroupMember_put, keptMember]
  by_cases here : id = entity.id
  · by_cases ends : (memberOf entity).actorId.truthy = true ∧
        (memberOf entity).groupId.truthy = true
    · rw [if_pos ⟨here, ends⟩, if_pos here, if_pos ends]
      rfl
    · rw [if_neg fun both => ends both.2, if_pos here, if_neg ends]
      rfl
  · rw [if_neg fun both => here both.1, if_neg here]
    rfl

theorem getEntityGroup_inserted (id : String) :
    (putEntityGroup caches entity).rows.memberships id =
      if id = entity.id then (keptEntityGroup entity).or (caches.rows.memberships id)
      else caches.rows.memberships id := by
  change (caches.entityGroups.putEntityGroup (entityGroupOf entity)).getEntityGroup id = _
  rw [EntityGroupCache.getEntityGroup_put, keptEntityGroup]
  by_cases here : id = entity.id
  · by_cases ends : (entityGroupOf entity).entityId.truthy = true ∧
        (entityGroupOf entity).groupId.truthy = true
    · rw [if_pos ⟨here, ends⟩, if_pos here, if_pos ends]
      rfl
    · rw [if_neg fun both => ends both.2, if_pos here, if_neg ends]
      rfl
  · rw [if_neg fun both => here both.1, if_neg here]
    rfl

theorem getRelationship_inserted (id : String) :
    (putRelationship caches entity).rows.relationships id =
      if id = entity.id then (keptRelationship entity).or (caches.rows.relationships id)
      else caches.rows.relationships id := by
  change (caches.relationships.putRelationship (relationshipOf entity)).getRelationship id = _
  rw [RelationshipCache.getRelationship_put, keptRelationship]
  by_cases here : id = entity.id
  · by_cases ends : (relationshipOf entity).sourceId.truthy = true ∧
        (relationshipOf entity).targetId.truthy = true
    · rw [if_pos ⟨here, ends⟩, if_pos here, if_pos ends]
      rfl
    · rw [if_neg fun both => ends both.2, if_pos here, if_neg ends]
      rfl
  · rw [if_neg fun both => here both.1, if_neg here]
    rfl

section Rebuilt

variable (log : CommittedLog Term) (id : String)

theorem members_populated :
    (populateSystemCaches log).rows.members id =
      if ("groupMember", id) ∈ typeEntities log then (coldMaterialize log id).bind keptMember
      else none := by
  have later : (populateSystemCaches log).groups =
      (populateType "groupMember" log putGroupMember (populateEntityTypes log .empty)).groups := by
    rw [populateSystemCaches, populateType_frame SystemCaches.groups,
      populateType_frame SystemCaches.groups]
    · exact fun _ _ => rfl
    · exact fun _ _ => rfl
  have rows : (populateSystemCaches log).rows.members id =
      (populateSystemCaches log).groups.getGroupMember id := rfl
  rw [rows, later]
  exact populateType_rows (fun caches => caches.rows.members) keptMember getGroupMember_inserted
    _ id rfl

theorem memberships_populated :
    (populateSystemCaches log).rows.memberships id =
      if ("entityGroup", id) ∈ typeEntities log then
        (coldMaterialize log id).bind keptEntityGroup
      else none := by
  have later : (populateSystemCaches log).entityGroups =
      (populateType "entityGroup" log putEntityGroup
        (populateType "groupMember" log putGroupMember
          (populateEntityTypes log .empty))).entityGroups := by
    rw [populateSystemCaches, populateType_frame SystemCaches.entityGroups]
    exact fun _ _ => rfl
  have rows : (populateSystemCaches log).rows.memberships id =
      (populateSystemCaches log).entityGroups.getEntityGroup id := rfl
  rw [rows, later]
  apply populateType_rows (fun caches => caches.rows.memberships) keptEntityGroup
    getEntityGroup_inserted
  have earlier : (populateType "groupMember" log putGroupMember
      (populateEntityTypes log .empty)).entityGroups = EntityGroupCache.empty := by
    rw [populateType_frame SystemCaches.entityGroups]
    · rfl
    · exact fun _ _ => rfl
  change EntityGroupCache.getEntityGroup (populateType "groupMember" log putGroupMember
    (populateEntityTypes log .empty)).entityGroups id = none
  rw [earlier]
  rfl

theorem relationships_populated :
    (populateSystemCaches log).rows.relationships id =
      if ("relationship", id) ∈ typeEntities log then
        (coldMaterialize log id).bind keptRelationship
      else none := by
  apply populateType_rows (fun caches => caches.rows.relationships) keptRelationship
    getRelationship_inserted
  have earlier : (populateType "entityGroup" log putEntityGroup
      (populateType "groupMember" log putGroupMember
        (populateEntityTypes log .empty))).relationships = RelationshipCache.empty := by
    rw [populateType_frame SystemCaches.relationships,
      populateType_frame SystemCaches.relationships]
    · rfl
    · exact fun _ _ => rfl
    · exact fun _ _ => rfl
  change RelationshipCache.getRelationship (populateType "entityGroup" log putEntityGroup
    (populateType "groupMember" log putGroupMember
      (populateEntityTypes log .empty))).relationships id = none
  rw [earlier]
  rfl

theorem types_populated :
    (populateSystemCaches log).rows.types id =
      lastSome (fun entry => if entry.2 = id then some entry.1 else none)
        (typeEntities log) := by
  have kept : (populateSystemCaches log).entityTypes =
      (populateEntityTypes log .empty).entityTypes := by
    rw [populateSystemCaches, populateType_frame SystemCaches.entityTypes,
      populateType_frame SystemCaches.entityTypes,
      populateType_frame SystemCaches.entityTypes]
    · exact fun _ _ => rfl
    · exact fun _ _ => rfl
    · exact fun _ _ => rfl
  change (populateSystemCaches log).entityTypes.get? id = _
  rw [kept, populateEntityTypes, OrderedMap.get?_foldl_set]
  exact Option.or_none

end Rebuilt

end SystemCache

end Ebb.Access
