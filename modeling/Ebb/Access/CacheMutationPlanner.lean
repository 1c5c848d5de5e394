import Ebb.Access.Overlay
import Ebb.Foundation.KeyedWrites

namespace Ebb.Access

/-! The cache writes a list of Updates implies, planned before the commit, and the
overlay of rows those writes would leave behind. -/

inductive Mutation where
  | entityType (id type : String)
  | groupMemberPut (row : GroupMember)
  | groupMemberDelete (id : String)
  | entityGroupPut (row : EntityGroup)
  | entityGroupDelete (id : String)
  | relationshipPut (row : Relationship)
  | relationshipDelete (id : String)
deriving DecidableEq

inductive CacheKey where
  | entityTypes (id : String)
  | groupMembersById (id : String)
  | entityGroupsById (id : String)
  | relationshipsById (id : String)
deriving DecidableEq

def Mutation.key : Mutation → CacheKey
  | .entityType id _ => .entityTypes id
  | .groupMemberPut row => .groupMembersById row.id
  | .groupMemberDelete id => .groupMembersById id
  | .entityGroupPut row => .entityGroupsById row.id
  | .entityGroupDelete id => .entityGroupsById id
  | .relationshipPut row => .relationshipsById row.id
  | .relationshipDelete id => .relationshipsById id

/-! ## Planning one Update -/

/-- `update.data || %{}`. -/
def dataOrEmpty (data : Term) : Term := data.or (.map [])

/-- The row a patch merges over: the plan's own effect first, then the cache. -/
def patchExisting (method : UpdateMethod) (planned : Option (Planned α))
    (cached : Option α) : Option α :=
  match method with
  | .patch =>
      match planned with
      | some .deleted => none
      | some (.row row) => some row
      | none => cached
  | _ => none

def planGroupMember (caches : SystemCaches) (overlay : Overlay) (update : ValidatedUpdate) :
    Outcome (List Mutation × Overlay) :=
  match update.method with
  | .delete =>
      .ok ([.groupMemberDelete update.subjectId],
        overlay.putGroupMember update.subjectId .deleted)
  | method => do
      let data := dataOrEmpty update.data
      let existing := patchExisting method (overlay.groupMembersById.get? update.subjectId)
        (caches.groups.getGroupMember update.subjectId)
      let actorId := (← Fields.get data "actor_id").or ((existing.map (·.actorId)).getD .null)
      let groupId := (← Fields.get data "group_id").or ((existing.map (·.groupId)).getD .null)
      let permissions := (← Fields.get data "permissions").or
        ((existing.map (·.permissions)).getD .null)
      if actorId = .null ∨ groupId = .null then .ok ([], overlay)
      else
        let row := GroupMember.mk update.subjectId groupId actorId permissions
        .ok ([.groupMemberPut row], overlay.putGroupMember update.subjectId (.row row))

/-- The entity of a membership named only by its id: the chain first, then the
cache. -/
def entityGroupEntity (caches : SystemCaches) (overlay : Overlay) (membershipId : String) :
    Term :=
  (overlay.entityForMembership membershipId).or
    (((caches.entityGroups.getEntityGroup membershipId).map (·.entityId)).getD .null)

def planEntityGroup (caches : SystemCaches) (overlay : Overlay) (update : ValidatedUpdate) :
    Outcome (List Mutation × Overlay) :=
  match update.method with
  | .delete =>
      .ok ([.entityGroupDelete update.subjectId],
        overlay.deleteEntityGroup update.subjectId
          (entityGroupEntity caches overlay update.subjectId))
  | method => do
      let data := dataOrEmpty update.data
      let existing := patchExisting method (overlay.entityGroupsById.get? update.subjectId)
        (caches.entityGroups.getEntityGroup update.subjectId)
      let entityId := (← Fields.get data "entity_id").or ((existing.map (·.entityId)).getD .null)
      let groupId := (← Fields.get data "group_id").or ((existing.map (·.groupId)).getD .null)
      if entityId = .null ∨ groupId = .null then .ok ([], overlay)
      else
        let row := EntityGroup.mk update.subjectId entityId groupId
        .ok ([.entityGroupPut row], overlay.putEntityGroup update.subjectId row)

/-- Relationship rows never merge with the cached row. -/
def planRelationship (overlay : Overlay) (update : ValidatedUpdate) :
    Outcome (List Mutation × Overlay) :=
  match update.method with
  | .delete =>
      .ok ([.relationshipDelete update.subjectId],
        overlay.putRelationship update.subjectId .deleted)
  | _ => do
      let data := dataOrEmpty update.data
      let sourceId ← Fields.get data "source_id"
      let targetId ← Fields.get data "target_id"
      let type ← Fields.get data "type"
      let field ← Fields.get data "field"
      if sourceId = .null ∨ targetId = .null then .ok ([], overlay)
      else
        let row := Relationship.mk update.subjectId sourceId targetId type field
        .ok ([.relationshipPut row], overlay.putRelationship update.subjectId (.row row))

def planSystemMutation (caches : SystemCaches) (overlay : Overlay)
    (update : ValidatedUpdate) : Outcome (List Mutation × Overlay) :=
  match update.subjectType with
  | "groupMember" => planGroupMember caches overlay update
  | "entityGroup" => planEntityGroup caches overlay update
  | "relationship" => planRelationship overlay update
  | _ => .ok ([], overlay)

def planUpdate (caches : SystemCaches) (planned : List Mutation × Overlay)
    (update : ValidatedUpdate) : Outcome (List Mutation × Overlay) := do
  let overlay := planned.2.putEntityType update.subjectId update.subjectType
  let (mutations, overlay) ← planSystemMutation caches overlay update
  .ok (planned.1 ++ .entityType update.subjectId update.subjectType :: mutations, overlay)

/-! ## Plans -/

def planUpdates (caches : SystemCaches) (overlay : Overlay) (updates : List ValidatedUpdate) :
    Outcome (List Mutation × Overlay) :=
  updates.foldlM (planUpdate caches) ([], overlay)

/-- `plan/3`: the mutations of the Updates and `overlay` extended with them. -/
def plan (updates : List ValidatedUpdate) (caches : SystemCaches) (overlay : Overlay) :
    Outcome (List Mutation × Overlay) := do
  let (mutations, extended) ← planUpdates caches overlay updates
  .ok (dropRepeats Mutation.key (fun _ => none) mutations, extended)

/-- The part of `cumulative` that one mutation contributed. -/
def sliceMutation (cumulative : Overlay) (slice : Overlay) : Mutation → Overlay
  | .entityType id type => slice.putEntityType id type
  | .groupMemberPut row => slice.putGroupMember row.id (.row row)
  | .groupMemberDelete id => slice.putGroupMember id .deleted
  | .entityGroupPut row => slice.putEntityGroup row.id row
  | .entityGroupDelete id => slice.deleteEntityGroup id (cumulative.entityForMembership id)
  | .relationshipPut row => slice.putRelationship row.id (.row row)
  | .relationshipDelete id => slice.putRelationship id .deleted

def slice (cumulative : Overlay) (mutations : List Mutation) : Overlay :=
  mutations.foldl (sliceMutation cumulative) .empty

/-- `apply_cache_mutation/2` of the Writer. -/
def applyCacheMutation (caches : SystemCaches) : Mutation → SystemCaches
  | .entityType id type => { caches with entityTypes := caches.entityTypes.set id type }
  | .groupMemberPut row => { caches with groups := caches.groups.putGroupMember row }
  | .groupMemberDelete id => { caches with groups := caches.groups.deleteGroupMember id }
  | .entityGroupPut row => { caches with entityGroups := caches.entityGroups.putEntityGroup row }
  | .entityGroupDelete id =>
      { caches with entityGroups := caches.entityGroups.deleteEntityGroup id }
  | .relationshipPut row =>
      { caches with relationships := caches.relationships.putRelationship row }
  | .relationshipDelete id =>
      { caches with relationships := caches.relationships.deleteRelationship id }

def applyCacheMutations (caches : SystemCaches) (mutations : List Mutation) : SystemCaches :=
  mutations.foldl applyCacheMutation caches

/-! ## Plans that do not raise -/

theorem planSystemMutation_ok {caches : SystemCaches} {update : ValidatedUpdate}
    (reads : readable (dataOrEmpty update.data) = true) (overlay : Overlay) :
    ∃ planned, planSystemMutation caches overlay update = .ok planned := by
  have get : ∀ field, Fields.get (dataOrEmpty update.data) field =
      .ok (fieldOf (dataOrEmpty update.data) field) := by
    intro field
    rw [Fields.get_eq_ok]
    exact ⟨reads, rfl⟩
  have refused : ∀ {condition : Prop} [Decidable condition]
      (dropped planned : List Mutation × Overlay),
      ∃ result, (if condition then .ok dropped else .ok planned : Outcome _) = .ok result := by
    intro condition _ dropped planned
    split
    · exact ⟨dropped, rfl⟩
    · exact ⟨planned, rfl⟩
  rw [planSystemMutation]
  split
  · rw [planGroupMember]
    split
    · exact ⟨_, rfl⟩
    · simp only [get]
      exact refused _ _
  · rw [planEntityGroup]
    split
    · exact ⟨_, rfl⟩
    · simp only [get]
      exact refused _ _
  · rw [planRelationship]
    split
    · exact ⟨_, rfl⟩
    · simp only [get]
      exact refused _ _
  · exact ⟨_, rfl⟩

theorem planUpdates_ok {caches : SystemCaches} {updates : List ValidatedUpdate}
    (reads : ∀ update ∈ updates, readable (dataOrEmpty update.data) = true)
    (planned : List Mutation × Overlay) :
    ∃ result, updates.foldlM (planUpdate caches) planned = .ok result := by
  induction updates generalizing planned with
  | nil => exact ⟨planned, rfl⟩
  | cons update rest induction =>
      have here := reads update List.mem_cons_self
      rcases @planSystemMutation_ok caches _ here
        (planned.2.putEntityType update.subjectId update.subjectType) with ⟨result, system⟩
      rw [List.foldlM_cons, planUpdate, system]
      exact induction (fun other member => reads other (.tail _ member)) _

theorem plan_ok {caches : SystemCaches} {updates : List ValidatedUpdate}
    (reads : ∀ update ∈ updates, readable (dataOrEmpty update.data) = true)
    (overlay : Overlay) : ∃ planned, plan updates caches overlay = .ok planned := by
  rcases @planUpdates_ok caches _ reads ([], overlay) with ⟨result, planned⟩
  exact ⟨_, by rw [plan, planUpdates, planned]; rfl⟩

end Ebb.Access
