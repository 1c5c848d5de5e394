import Ebb.Access.Confinement
import Ebb.Access.Scopes

namespace Ebb.Access

/-! An Action's scopes against the groups its subjects are in before and after it. -/

open PermissionHelper

/-- A membership row files the entity in the group. -/
def Rows.Owns (rows : Rows) (entityId groupId : Term) : Prop :=
  ∃ id row, rows.memberships id = some row ∧ row.entityId = entityId ∧ row.groupId = groupId

/-- The subject is in the group: a group in itself, a member or membership row in the
one it names, a relationship in those of its source. -/
def Rows.Belongs (rows : Rows) (subjectType subjectId : String) (groupId : Term) : Prop :=
  match subjectType with
  | "group" => groupId = .string subjectId
  | "groupMember" => ∃ row, rows.members subjectId = some row ∧ row.groupId = groupId
  | "entityGroup" => ∃ row, rows.memberships subjectId = some row ∧ row.groupId = groupId
  | "relationship" =>
      ∃ row, rows.relationships subjectId = some row ∧ rows.Owns row.sourceId groupId
  | _ => rows.Owns (.string subjectId) groupId

/-- The scope is the subject's groups before the Action and after it. -/
def Exact (before after : Rows) (update : ValidatedUpdate) (scope : List Term) : Prop :=
  ∀ groupId, groupId ∈ scope ↔
    before.Belongs update.subjectType update.subjectId groupId ∨
      after.Belongs update.subjectType update.subjectId groupId

def Filed (updates : List ValidatedUpdate) (entityId groupId : Term) : Prop :=
  entityId.truthy = true ∧ groupId.truthy = true ∧
    ∃ update ∈ updates, Authorizer.files entityId groupId update

/-! ## The condition -/

/-- Where the wire names a group, a row of that group stands before or after, and none of
another; where it names none, the row keeps the group the flush finds it in, a stored list
standing for its members. -/
def StaysIn (wire : Term) (found stored left : Option Term) : Prop :=
  if wire = .null then
    (∀ group, found = some group → ∀ groupId ∈ group.wrap,
        stored = some groupId ∨ left = some groupId) ∧
      ∀ groupId, stored = some groupId ∨ left = some groupId →
        ∃ group, found = some group ∧ groupId ∈ group.wrap
  else
    (∀ groupId, stored = some groupId ∨ left = some groupId → groupId = wire) ∧
      (stored ≠ none ∨ left ≠ none)

/-- The flush finds a membership row of the entity, in the tables or planned ahead. -/
def ResolveOpts.Files (opts : ResolveOpts) (entityId groupId : Term) : Prop :=
  ∃ id row, row.groupId = groupId ∧ row.entityId = entityId ∧
    ((opts.overlay.view.entities id ≠ some entityId ∧
        opts.caches.entityGroups.getEntityGroup id = some row) ∨
      opts.overlay.view.entityGroups id = some (.row row))

/-- Every group the flush finds the entity in, or the Action files it in, is one of its
groups before or after; and it is in no other group before that it could still be in. -/
structure Reaches (opts : ResolveOpts) (before after : Rows) (updates : List ValidatedUpdate)
    (entityId : Term) (stood stands : Prop) : Prop where
  found : ∀ groupId, opts.Files entityId groupId →
    (stood ∧ before.Owns entityId groupId) ∨ (stands ∧ after.Owns entityId groupId)
  filed : ∀ groupId, Filed updates entityId groupId →
    (stood ∧ before.Owns entityId groupId) ∨ (stands ∧ after.Owns entityId groupId)
  known : ∀ groupId, before.Owns entityId groupId → stood ∨ (stands ∧ after.Owns entityId groupId) →
    opts.Files entityId groupId ∨ Filed updates entityId groupId

def scopeEntity (opts : ResolveOpts) (update : ValidatedUpdate) : Term :=
  match EntityIndex.scopeSource opts update.method (fieldOf update.data "source_id")
      update.subjectId with
  | .null =>
      ((rowSource opts update.subjectId).or
        (opts.intraRelationshipSources.get? update.subjectId)).getD .null
  | source => source

/-- A relationship row has the source its Update is scoped by, before and after. -/
def Steady (before after : Rows) (opts : ResolveOpts) (update : ValidatedUpdate) : Prop :=
  update.subjectType = "relationship" → ∀ row,
    before.relationships update.subjectId = some row ∨
      after.relationships update.subjectId = some row →
    row.sourceId = scopeEntity opts update

/-- A member or membership row keeps its group, and an entity, or the source of a
relationship while its row stands, its groups. -/
def Settled (before after : Rows) (opts : ResolveOpts) (updates : List ValidatedUpdate)
    (update : ValidatedUpdate) : Prop :=
  match update.subjectType with
  | "group" => True
  | "groupMember" =>
      StaysIn (fieldOf update.data "group_id")
        ((EntityIndex.groupMemberRow opts update.subjectId).map (·.groupId))
        ((before.members update.subjectId).map (·.groupId))
        ((after.members update.subjectId).map (·.groupId))
  | "entityGroup" =>
      StaysIn (fieldOf update.data "group_id")
        ((EntityIndex.entityGroupRow opts update.subjectId).map (·.groupId))
        ((before.memberships update.subjectId).map (·.groupId))
        ((after.memberships update.subjectId).map (·.groupId))
  | "relationship" =>
      Reaches opts before after updates (scopeEntity opts update)
        (before.relationships update.subjectId ≠ none)
        (after.relationships update.subjectId ≠ none)
  | _ => Reaches opts before after updates (.string update.subjectId) True True

/-! ## Scopes of each type -/

section Flushed

variable {base : ResolveOpts} {rows : Rows} {updates : List ValidatedUpdate}
  {entityId groupId : Term} {scope : List Term} {update : ValidatedUpdate}

theorem mem_sourceGroups_flushed (consistent : base.overlay.Consistent) :
    groupId ∈ EntityIndex.sourceGroups (Writer.actionOpts base updates) entityId ↔
      base.Files entityId groupId ∨ Filed updates entityId groupId := by
  have cached := @mem_sourceGroupsCached (Writer.actionOpts base updates) consistent entityId
    groupId
  have intra : groupId ∈ ((Writer.actionOpts base updates).intraAction.get? entityId).getD [] ↔
      Filed updates entityId groupId := Authorizer.mem_buildIntraActionContext
  rw [EntityIndex.sourceGroups, mem_applyIntraAction, cached, intra]
  apply or_congr_right
  constructor
  · exact fun both => both.2
  · exact fun filed => ⟨Term.ne_null_of_truthy filed.1, filed⟩

theorem exact_iff_staysIn {wire : Term} {found stored left : Option Term} :
    (∀ groupId, (if wire = .null then ∃ group, found = some group ∧ groupId ∈ group.wrap
        else groupId = wire) ↔ stored = some groupId ∨ left = some groupId) ↔
      StaysIn wire found stored left := by
  rw [StaysIn]
  by_cases isNull : wire = .null
  · simp only [if_pos isNull]
    constructor
    · intro holds
      refine ⟨?_, fun groupId => (holds groupId).mpr⟩
      exact fun group isFound groupId member => (holds groupId).mp ⟨group, isFound, member⟩
    · intro settled groupId
      refine ⟨?_, settled.2 groupId⟩
      intro listed
      rcases listed with ⟨group, isFound, member⟩
      exact settled.1 group isFound groupId member
  · simp only [if_neg isNull]
    constructor
    · intro holds
      refine ⟨fun groupId belongs => (holds groupId).mpr belongs, ?_⟩
      rcases (holds wire).mp rfl with isStored | isLeft
      · left
        rw [isStored]
        exact nofun
      · right
        rw [isLeft]
        exact nofun
    · intro settled groupId
      constructor
      · intro same
        rcases settled.2 with isStored | isLeft
        · rcases Option.ne_none_iff_exists'.mp isStored with ⟨group, isStored⟩
          rw [same, isStored, ← settled.1 group (.inl isStored)]
          exact .inl rfl
        · rcases Option.ne_none_iff_exists'.mp isLeft with ⟨group, isLeft⟩
          rw [same, isLeft, ← settled.1 group (.inr isLeft)]
          exact .inr rfl
      · exact settled.1 groupId

/-- The Action's membership Updates are those the Authorizer accepts. -/
def MembershipsAccepted (checkedAt : SystemCaches) (updates : List ValidatedUpdate) : Prop :=
  ∀ update ∈ updates, update.subjectType = "entityGroup" →
    Authorizer.MembershipAccepted checkedAt update

theorem owns_after {checkedAt : SystemCaches} (accepted : MembershipsAccepted checkedAt updates)
    (owns : (updates.foldl Rows.after rows).Owns entityId groupId) :
    rows.Owns entityId groupId ∨ Filed updates entityId groupId := by
  induction updates using List.reverseRecOn with
  | nil => exact .inl owns
  | append_singleton updates update induction =>
      have earlier : (updates.foldl Rows.after rows).Owns entityId groupId →
          rows.Owns entityId groupId ∨ Filed (updates ++ [update]) entityId groupId := by
        intro owned
        have before := induction
          (fun other member => accepted other (List.mem_append_left _ member)) owned
        apply before.imp_right
        intro filed
        rcases filed with ⟨entity, group, other, member, files⟩
        exact ⟨entity, group, other, List.mem_append_left _ member, files⟩
      rcases owns with ⟨id, row, stored, entity, group⟩
      rw [List.foldl_concat] at stored
      by_cases writes : update.subjectType = "entityGroup" ∧ update.subjectId = id
      · have here := accepted update
          (List.mem_append_right _ (List.mem_singleton_self update)) writes.1
        have stored' : membershipAfter update
            ((updates.foldl Rows.after rows).memberships id) = some row := by
          rw [← stored]
          exact (if_pos writes).symm
        cases method : update.method with
        | patch => exact absurd method here.noPatch
        | delete =>
            simp only [membershipAfter, method] at stored'
            cases stored'
        | put =>
            have ends := here.put method
            rw [Authorizer.membershipAfter_put here method] at stored'
            cases stored'
            right
            rw [← entity, ← group]
            exact ⟨ends.1, ends.2.1, update,
              List.mem_append_right _ (List.mem_singleton_self update),
              Authorizer.isPutOf_iff.mpr ⟨writes.1, method⟩, rfl, rfl⟩
      · apply earlier
        refine ⟨id, row, ?_, entity, group⟩
        rw [← stored]
        exact (if_neg writes).symm

theorem exact_iff_reaches {checkedAt : SystemCaches}
    (accepted : MembershipsAccepted checkedAt updates) {stood stands : Prop} :
    (∀ groupId, base.Files entityId groupId ∨ Filed updates entityId groupId ↔
        (stood ∧ rows.Owns entityId groupId) ∨
          (stands ∧ (updates.foldl Rows.after rows).Owns entityId groupId)) ↔
      Reaches (Writer.actionOpts base updates) rows (updates.foldl Rows.after rows) updates entityId
        stood stands := by
  constructor
  · intro holds
    refine ⟨fun groupId files => (holds groupId).mp (.inl files),
      fun groupId filed => (holds groupId).mp (.inr filed), fun groupId owns either => ?_⟩
    exact (holds groupId).mpr (either.imp_left fun stood => ⟨stood, owns⟩)
  · intro reaches groupId
    constructor
    · intro either
      rcases either with files | filed
      · exact reaches.found groupId files
      · exact reaches.filed groupId filed
    · intro belongs
      rcases belongs with stood | stands
      · exact reaches.known groupId stood.2 (.inl stood.1)
      · rcases owns_after accepted stands.2 with owned | filed
        · exact reaches.known groupId owned (.inr stands)
        · exact .inr filed

theorem mem_rowScope {opts : ResolveOpts} {found : Option Term}
    (type : update.subjectType = "entityGroup" ∨ update.subjectType = "groupMember")
    (named : ∀ group, found = some group → group.truthy = true)
    (byId : EntityIndex.resolveGroups opts update.subjectType update.subjectId =
      (found.map fun group => (group.or .null).wrap).getD [])
    (resolved : EntityIndex.fanOutGroups opts update = .ok scope) :
    groupId ∈ scope ↔
      if fieldOf update.data "group_id" = .null then
        ∃ group, found = some group ∧ groupId ∈ group.wrap
      else groupId = fieldOf update.data "group_id" := by
  have prefers : EntityIndex.fanOutPreference opts update = (do
      match ← Fields.get update.data "group_id" with
      | .null => .ok (.byId update.subjectType)
      | groupId => .ok (.wire [groupId])) := by
    rw [EntityIndex.fanOutPreference]
    rcases type with membership | member
    · rw [membership]
      rfl
    · rw [member]
      rfl
  rw [EntityIndex.fanOutGroups, prefers] at resolved
  rcases bind_eq_ok.mp resolved with ⟨preference, prefers, resolved⟩
  rcases bind_eq_ok.mp prefers with ⟨wire, read, prefers⟩
  rw [Fields.get_eq_ok] at read
  rw [read.2]
  split at prefers
  · cases prefers
    cases resolved
    rw [if_pos rfl, byId]
    cases found with
    | none => simp
    | some group => simp [Term.or_null_of_truthy (named group rfl)]
  · next notNull =>
      cases prefers
      cases resolved
      rw [if_neg notNull]
      exact List.mem_singleton

theorem exists_row_iff {α : Type} {row : Option α} {groupOf : α → Term} :
    (∃ found, row = some found ∧ groupOf found = groupId) ↔ row.map groupOf = some groupId := by
  rw [Option.map_eq_some_iff]

theorem memberGroup_truthy (consistent : base.overlay.Consistent) {id : String} {group : Term}
    (found : (EntityIndex.groupMemberRow base id).map (·.groupId) = some group) :
    group.truthy = true := by
  rcases Option.map_eq_some_iff.mp found with ⟨row, isRow, rfl⟩
  rw [EntityIndex.groupMemberRow] at isRow
  cases planned : base.overlay.groupMembersById.get? id with
  | none =>
      rw [planned] at isRow
      exact (base.caches.groups.named isRow).2.2
  | some effect =>
      rw [planned] at isRow
      cases effect with
      | deleted => cases isRow
      | row other =>
          cases isRow
          exact (consistent.members planned).2

theorem membershipGroup_truthy (consistent : base.overlay.Consistent) {id : String} {group : Term}
    (found : (EntityIndex.entityGroupRow base id).map (·.groupId) = some group) :
    group.truthy = true := by
  rcases Option.map_eq_some_iff.mp found with ⟨row, isRow, rfl⟩
  rw [EntityIndex.entityGroupRow] at isRow
  cases planned : base.overlay.entityGroupsById.get? id with
  | none =>
      rw [planned] at isRow
      exact (base.caches.entityGroups.named isRow).2.2
  | some effect =>
      rw [planned] at isRow
      cases effect with
      | deleted => cases isRow
      | row other =>
          cases isRow
          exact (consistent.rows planned).2.2.1

theorem resolveGroups_member (id : String) :
    EntityIndex.resolveGroups base "groupMember" id =
      (((EntityIndex.groupMemberRow base id).map (·.groupId)).map
        fun group => (group.or .null).wrap).getD [] := by
  simp only [EntityIndex.resolveGroups, EntityIndex.resolveGroupsCached]
  cases EntityIndex.groupMemberRow base id with
  | none => rfl
  | some row => rfl

theorem resolveGroups_membership (id : String) :
    EntityIndex.resolveGroups base "entityGroup" id =
      (((EntityIndex.entityGroupRow base id).map (·.groupId)).map
        fun group => (group.or .null).wrap).getD [] := by
  simp only [EntityIndex.resolveGroups, EntityIndex.resolveGroupsCached]
  cases EntityIndex.entityGroupRow base id with
  | none => rfl
  | some row => rfl

theorem Files.truthy (consistent : base.overlay.Consistent) (files : base.Files entityId groupId) :
    entityId.truthy = true := by
  rcases files with ⟨id, row, _, entity, cached | planned⟩
  · exact entity ▸ (base.caches.entityGroups.named cached.2).2.1
  · exact entity ▸ (consistent.rows planned).2.1

theorem exact_group {after : Rows} (type : update.subjectType = "group")
    (resolved : EntityIndex.fanOutGroups base update = .ok scope) :
    Exact rows after update scope := by
  intro groupId
  simp only [EntityIndex.fanOutGroups, EntityIndex.fanOutPreference, type] at resolved
  cases resolved
  simp only [Rows.Belongs, type, or_self]
  exact List.mem_singleton

section Exactness

variable (consistent : base.overlay.Consistent) {after : Rows}
  (resolved : EntityIndex.fanOutGroups (Writer.actionOpts base updates) update = .ok scope)

include consistent resolved

theorem exact_member (type : update.subjectType = "groupMember") :
    Exact rows after update scope ↔
      Settled rows after (Writer.actionOpts base updates) updates update := by
  have named : ∀ group, (EntityIndex.groupMemberRow base update.subjectId).map (·.groupId) =
      some group → group.truthy = true := fun group => memberGroup_truthy consistent
  have byId := @resolveGroups_member (Writer.actionOpts base updates) update.subjectId
  rw [← type] at byId
  have listed {groupId : Term} :=
    @mem_rowScope groupId scope update _ _ (.inr type) named byId resolved
  simp only [Exact, Settled, Rows.Belongs, type, exists_row_iff, listed]
  exact exact_iff_staysIn

theorem exact_membership (type : update.subjectType = "entityGroup") :
    Exact rows after update scope ↔
      Settled rows after (Writer.actionOpts base updates) updates update := by
  have named : ∀ group, (EntityIndex.entityGroupRow base update.subjectId).map (·.groupId) =
      some group → group.truthy = true := fun group => membershipGroup_truthy consistent
  have byId := @resolveGroups_membership (Writer.actionOpts base updates) update.subjectId
  rw [← type] at byId
  have listed {groupId : Term} :=
    @mem_rowScope groupId scope update _ _ (.inl type) named byId resolved
  simp only [Exact, Settled, Rows.Belongs, type, exists_row_iff, listed]
  exact exact_iff_staysIn

theorem mem_relationshipScope (type : update.subjectType = "relationship") (groupId : Term) :
    groupId ∈ scope ↔
      base.Files (scopeEntity (Writer.actionOpts base updates) update) groupId ∨
        Filed updates (scopeEntity (Writer.actionOpts base updates) update) groupId := by
  rw [← mem_sourceGroups_flushed consistent]
  simp only [EntityIndex.fanOutGroups, EntityIndex.fanOutPreference, type] at resolved
  rcases bind_eq_ok.mp resolved with ⟨preference, prefers, resolved⟩
  rcases bind_eq_ok.mp prefers with ⟨wire, read, prefers⟩
  rw [Fields.get_eq_ok] at read
  split at prefers
  · next unscoped =>
      cases prefers
      cases resolved
      have entity : scopeEntity (Writer.actionOpts base updates) update =
          ((rowSource (Writer.actionOpts base updates) update.subjectId).or
            ((Writer.actionOpts base updates).intraRelationshipSources.get?
              update.subjectId)).getD .null := by
        rw [scopeEntity, read.2]
        simp only [unscoped]
      rw [entity, mem_resolveGroups_relationship]
      cases (rowSource (Writer.actionOpts base updates) update.subjectId).or
        ((Writer.actionOpts base updates).intraRelationshipSources.get? update.subjectId) with
      | none =>
          rw [Option.getD_none, mem_sourceGroups_flushed consistent]
          constructor
          · intro found
            rcases found with ⟨_, impossible, _⟩
            cases impossible
          · intro either
            rcases either with files | filed
            · exact absurd (Files.truthy consistent files) (by rintro ⟨⟩)
            · exact absurd filed.1 (by rintro ⟨⟩)
      | some sourceId => simp
  · next source notNull =>
      cases prefers
      cases resolved
      have entity : scopeEntity (Writer.actionOpts base updates) update =
          EntityIndex.scopeSource (Writer.actionOpts base updates) update.method wire
            update.subjectId := by
        rw [scopeEntity, read.2]
        cases named : EntityIndex.scopeSource (Writer.actionOpts base updates) update.method wire
            update.subjectId with
        | null => exact absurd named notNull
        | _ => rfl
      rw [entity]

theorem exact_relationship {checkedAt : SystemCaches}
    (accepted : MembershipsAccepted checkedAt updates) (type : update.subjectType = "relationship")
    (steady : Steady rows (updates.foldl Rows.after rows) (Writer.actionOpts base updates)
      update) :
    Exact rows (updates.foldl Rows.after rows) update scope ↔
      Settled rows (updates.foldl Rows.after rows) (Writer.actionOpts base updates) updates
        update := by
  have belongs : ∀ (held : Rows) (groupId : Term),
      (∀ row, held.relationships update.subjectId = some row →
        row.sourceId = scopeEntity (Writer.actionOpts base updates) update) →
      (held.Belongs "relationship" update.subjectId groupId ↔
        held.relationships update.subjectId ≠ none ∧
          held.Owns (scopeEntity (Writer.actionOpts base updates) update) groupId) := by
    intro held groupId sources
    constructor
    · intro found
      rcases found with ⟨row, stored, owns⟩
      rw [sources row stored] at owns
      exact ⟨by rw [stored]; exact nofun, owns⟩
    · intro both
      rcases Option.ne_none_iff_exists'.mp both.1 with ⟨row, stored⟩
      exact ⟨row, stored, sources row stored ▸ both.2⟩
  have before := fun groupId => belongs rows groupId fun row stored => steady type row (.inl stored)
  have left := fun groupId => belongs (updates.foldl Rows.after rows) groupId
    fun row stored => steady type row (.inr stored)
  have listed := mem_relationshipScope consistent resolved type
  simp only [Exact, Settled, type, before, left, listed]
  exact exact_iff_reaches accepted

theorem exact_entity {checkedAt : SystemCaches} (accepted : MembershipsAccepted checkedAt updates)
    (user : update.subjectType ∉ systemEntityTypes) :
    Exact rows (updates.foldl Rows.after rows) update scope ↔
      Settled rows (updates.foldl Rows.after rows) (Writer.actionOpts base updates) updates
        update := by
  simp only [systemEntityTypes, List.mem_cons, List.not_mem_nil, or_false, not_or] at user
  rcases user with ⟨group, member, relationship, membership⟩
  have isScope : scope =
      EntityIndex.sourceGroups (Writer.actionOpts base updates) (.string update.subjectId) := by
    have prefers : EntityIndex.fanOutPreference (Writer.actionOpts base updates) update =
        .ok (.byId update.subjectType) := by
      rw [EntityIndex.fanOutPreference]
      split
      · next isRelationship => exact absurd isRelationship relationship
      · next isMembership => exact absurd isMembership membership
      · next isMember => exact absurd isMember member
      · rfl
    rw [EntityIndex.fanOutGroups, prefers] at resolved
    cases resolved
    rw [Authorizer.resolveGroups_entity group member membership relationship]
  have belongs : ∀ (held : Rows) (groupId : Term),
      held.Belongs update.subjectType update.subjectId groupId ↔
        True ∧ held.Owns (.string update.subjectId) groupId := by
    intro held groupId
    rw [Rows.Belongs, true_and]
    · exact group
    · exact member
    · exact membership
    · exact relationship
  have settled : Settled rows (updates.foldl Rows.after rows) (Writer.actionOpts base updates)
      updates update = Reaches (Writer.actionOpts base updates) rows
        (updates.foldl Rows.after rows) updates (.string update.subjectId) True True := by
    rw [Settled]
    split
    · next isGroup => exact absurd isGroup group
    · next isMember => exact absurd isMember member
    · next isMembership => exact absurd isMembership membership
    · next isRelationship => exact absurd isRelationship relationship
    · rfl
  have listed {groupId : Term} := @mem_sourceGroups_flushed base updates (.string update.subjectId)
    groupId consistent
  rw [settled]
  simp only [Exact, belongs, isScope, listed]
  exact exact_iff_reaches accepted

theorem exact_iff_settled {checkedAt : SystemCaches}
    (accepted : MembershipsAccepted checkedAt updates)
    (steady : Steady rows (updates.foldl Rows.after rows) (Writer.actionOpts base updates)
      update) :
    Exact rows (updates.foldl Rows.after rows) update scope ↔
      Settled rows (updates.foldl Rows.after rows) (Writer.actionOpts base updates) updates
        update := by
  by_cases system : update.subjectType ∈ systemEntityTypes
  · simp only [systemEntityTypes, List.mem_cons, List.not_mem_nil, or_false] at system
    rcases system with type | type | type | type
    · simp only [Settled, type, iff_true]
      exact exact_group type resolved
    · exact exact_member consistent resolved type
    · exact exact_relationship consistent resolved accepted type steady
    · exact exact_membership consistent resolved type
  · exact exact_entity consistent resolved accepted system

end Exactness

end Flushed

/-! ## Accepted Actions -/

/-- Every Update is delivered to the groups its subject is in before or after. -/
def ScopesExact (before after : Rows) (updates : List ValidatedUpdate)
    (scopes : List (List Term)) : Prop :=
  ∀ pair ∈ updates.zip scopes, Exact before after pair.1 pair.2

theorem mapM_zip {call : α → Outcome β} {items : List α} {results : List β}
    (done : items.mapM call = .ok results) :
    (∀ pair ∈ items.zip results, call pair.1 = .ok pair.2) ∧
      ∀ item ∈ items, ∃ result, (item, result) ∈ items.zip results := by
  induction items generalizing results with
  | nil => exact ⟨nofun, nofun⟩
  | cons item rest induction =>
      rw [List.mapM_cons] at done
      rcases bind_eq_ok.mp done with ⟨here, called, done⟩
      rcases bind_eq_ok.mp done with ⟨later, calledRest, done⟩
      cases done
      have tail := induction calledRest
      rw [List.zip_cons_cons]
      constructor
      · intro pair member
        rcases List.mem_cons.mp member with same | member
        · rw [same]
          exact called
        · exact tail.1 pair member
      · intro other member
        rcases List.mem_cons.mp member with same | member
        · exact ⟨here, same ▸ List.mem_cons_self⟩
        · rcases tail.2 other member with ⟨result, inside⟩
          exact ⟨result, List.mem_cons_of_mem _ inside⟩

/-- The tables when an Action's turn comes: the batches ahead of its flush are in them, and
the Actions before it in the flush. -/
def rowsBefore (caches : SystemCaches) (ahead : List (List ValidatedUpdate))
    (earlier : List ValidatedAction) : Rows :=
  (ahead.flatten ++ earlier.flatMap (·.updates)).foldl Rows.after caches.rows

theorem rows_flushed {caches : SystemCaches} {ahead : List (List ValidatedUpdate)}
    {plans : List (List Mutation × Overlay)} (planned : planAll caches ahead = .ok plans)
    {fresh : List ValidatedAction} {prepared : List Writer.PreparedAction}
    {mutations : List Mutation} {left : Overlay}
    (flushed : Writer.prepare fresh caches (mergeOverlays (plans.map Prod.snd)) =
      .ok (prepared, mutations, left)) :
    (applyCacheMutations caches (mutationsOf plans ++ mutations)).rows =
      rowsBefore caches ahead fresh := by
  rcases bind_eq_ok.mp flushed with ⟨_, _, flushed⟩
  rcases bind_eq_ok.mp flushed with ⟨⟨here, cumulative⟩, planHere, flushed⟩
  cases flushed
  have all : planAll caches (ahead ++ [fresh.flatMap (·.updates)]) =
      .ok (plans ++ [(mutations, slice cumulative mutations)]) := by
    change planAll caches ahead = _ at planned
    rw [planAll, List.foldlM_append, ← planAll, planned]
    change (planNext caches plans (fresh.flatMap (·.updates)) >>= _) = _
    rw [planNext, planHere]
    rfl
  have rows := rows_planAll all
  rw [mutationsOf, List.flatMap_append, List.flatMap_singleton, List.flatten_append,
    List.flatten_singleton] at rows
  exact rows

/-- Each Update of an Action in a flush, on the tables as the flush finds them under the
overlay of the batches ahead, before the Action and after it. -/
structure FlushMeets (caches : SystemCaches) (ahead : List (List ValidatedUpdate))
    (overlay : Overlay) (earlier : List ValidatedAction) (action : ValidatedAction) : Prop where
  /-- No earlier Action asked for the same relationship row by its id. -/
  unasked : ∀ update ∈ action.updates, ∀ id,
    Writer.AsksById (Writer.resolveOpts caches overlay) update id →
      ¬ Writer.Asked (Writer.resolveOpts caches overlay) earlier id
  steady : ∀ update ∈ action.updates,
    Steady (rowsBefore caches ahead earlier)
      (action.updates.foldl Rows.after (rowsBefore caches ahead earlier))
      (Writer.actionOpts (Writer.resolveOpts caches overlay) action.updates) update

/-- The scopes of an accepted Action, wherever it stands in its flush, are exact where every
row and entity it writes keeps its groups; under `FlushMeets`, only there. -/
theorem scopes_exact_iff {checkedAt : SystemCaches} {actorId : String}
    {sim next : Authorizer.RequestSim} {action : ValidatedAction}
    (accepted : Authorizer.authorizeAction checkedAt actorId sim action = .ok next)
    {caches : SystemCaches} {ahead : List (List ValidatedUpdate)}
    {plans : List (List Mutation × Overlay)} (planned : planAll caches ahead = .ok plans)
    {earlier later : List ValidatedAction} {prepared : List Writer.PreparedAction}
    {mutations : List Mutation} {left : Overlay}
    (flushed : Writer.prepare (earlier ++ action :: later) caches
      (mergeOverlays (plans.map Prod.snd)) = .ok (prepared, mutations, left))
    (meets : FlushMeets caches ahead (mergeOverlays (plans.map Prod.snd)) earlier action) :
    ∃ own, prepared[earlier.length]? = some own ∧
      (ScopesExact (rowsBefore caches ahead earlier)
          (action.updates.foldl Rows.after (rowsBefore caches ahead earlier)) action.updates
          own.updateScopes ↔
        ∀ update ∈ action.updates,
          Settled (rowsBefore caches ahead earlier)
            (action.updates.foldl Rows.after (rowsBefore caches ahead earlier))
            (Writer.actionOpts (Writer.resolveOpts caches (mergeOverlays (plans.map Prod.snd)))
              action.updates) action.updates update) := by
  have checked := (Authorizer.accepts_of_authorizeAction accepted).checked
  have memberships : MembershipsAccepted checkedAt action.updates := fun update member type =>
    Authorizer.membershipAccepted_of_checkUpdate type (checked update member)
  have consistent := (chained_planAll planned).merged.1
  rcases Writer.scopes_flushed flushed with ⟨own, at', scopes⟩
  have resolved := mapM_zip (scopes meets.unasked)
  refine ⟨own, at', ?_⟩
  rw [ScopesExact]
  constructor
  · intro isExact update member
    rcases resolved.2 update member with ⟨scope, inside⟩
    exact (exact_iff_settled consistent (resolved.1 _ inside) memberships
      (meets.steady update member)).mp (isExact _ inside)
  · intro settled pair inside
    have member := (List.of_mem_zip inside).1
    exact (exact_iff_settled consistent (resolved.1 pair inside) memberships
      (meets.steady _ member)).mpr (settled _ member)

/-- An entity `e` in the groups `g` and `h`; actor `a` may move and edit it in `g` and `i`. -/
def sharedTask : SystemCaches :=
  applyCacheMutations .empty
    [.entityType "e" "task", .entityType "m" "entityGroup",
      .groupMemberPut ⟨"k", .string "g", .string "a",
        .list [.string "task.*", .string "entityGroup.*"]⟩,
      .groupMemberPut ⟨"l", .string "i", .string "a",
        .list [.string "task.*", .string "entityGroup.*"]⟩,
      .entityGroupPut ⟨"m", .string "e", .string "g"⟩,
      .entityGroupPut ⟨"n", .string "e", .string "h"⟩]

def fileTask : ValidatedAction where
  id := "act-file"
  actorId := "a"
  hlc := 1
  updates := [{
    id := "u-file"
    subjectId := "p"
    subjectType := "entityGroup"
    method := .put
    data := .map [("fields", .map [("entity_id", .map [("value", .string "e")]),
      ("group_id", .map [("value", .string "i")])])] }]

/-- Take the entity out of `g`, with a group on the wire of the delete. -/
def leaveGroup (wire : String) : ValidatedAction where
  id := "act-leave"
  actorId := "a"
  hlc := 2
  updates := [{
    id := "u-leave"
    subjectId := "m"
    subjectType := "entityGroup"
    method := .delete
    data := .map [("fields", .map [("group_id", .map [("value", .string wire)])])] }]

/-- The second Action of a flush, behind one that files the entity in another group. -/
theorem scopes_exact_leave :
    ∃ prepared mutations left own,
      Writer.prepare [fileTask, leaveGroup "g"] sharedTask .empty =
          .ok (prepared, mutations, left) ∧
        prepared[1]? = some own ∧ own.updateScopes = [[.string "g"]] ∧
        ScopesExact (rowsBefore sharedTask [] [fileTask])
          ((leaveGroup "g").updates.foldl Rows.after (rowsBefore sharedTask [] [fileTask]))
          (leaveGroup "g").updates own.updateScopes := by
  have accepted : ∃ next,
      Authorizer.authorizeAction sharedTask "a" Authorizer.newSim (leaveGroup "g") = .ok next :=
    ⟨_, rfl⟩
  rcases accepted with ⟨next, accepted⟩
  have planned : planAll sharedTask [] = .ok [] := rfl
  have meets : FlushMeets sharedTask [] .empty [fileTask] (leaveGroup "g") := by
    constructor
    · intro update member id asks
      rw [List.mem_singleton.mp member] at asks
      cases asks.1
    · intro update member isRelationship
      rw [List.mem_singleton.mp member] at isRelationship
      exact absurd isRelationship (by decide)
  rcases @scopes_exact_iff _ _ _ _ _ accepted _ _ _ planned [fileTask] [] _ _ _ rfl meets with
    ⟨own, held, exact⟩
  cases held
  refine ⟨_, _, _, _, rfl, rfl, rfl, exact.mpr ?_⟩
  intro update member
  rw [List.mem_singleton.mp member]
  have stays : StaysIn (.string "g") (some (.string "g")) (some (.string "g")) none := by
    rw [StaysIn, if_neg nofun]
    refine ⟨?_, .inl nofun⟩
    intro groupId either
    rcases either with same | impossible
    · cases same
      rfl
    · cases impossible
  exact stays

/-- The group on the wire of a delete decides its scope, whatever row it deletes. -/
theorem leave_informs_wire_group :
    ¬ ∀ checkedAt actorId sim next action caches earlier later prepared mutations left own,
      Authorizer.authorizeAction checkedAt actorId sim action = .ok next →
      Writer.prepare (earlier ++ action :: later) caches .empty = .ok (prepared, mutations, left) →
      prepared[earlier.length]? = some own →
      ScopesExact (rowsBefore caches [] earlier)
        (action.updates.foldl Rows.after (rowsBefore caches [] earlier)) action.updates
        own.updateScopes := by
  intro always
  have accepted : ∃ next,
      Authorizer.authorizeAction sharedTask "a" Authorizer.newSim (leaveGroup "x") = .ok next :=
    ⟨_, rfl⟩
  rcases accepted with ⟨next, accepted⟩
  have isExact := always sharedTask "a" Authorizer.newSim next (leaveGroup "x") sharedTask
    [fileTask] [] _ _ _ _ accepted rfl rfl (_, [.string "x"]) (List.mem_singleton_self _)
  have leaked := (isExact (.string "g")).mpr (.inl ⟨⟨"m", .string "e", .string "g"⟩, rfl, rfl⟩)
  exact absurd leaked (by decide)

def editTask : ValidatedAction where
  id := "act-edit"
  actorId := "a"
  hlc := 2
  updates := [{
    id := "u-edit"
    subjectId := "e"
    subjectType := "task"
    method := .patch
    data := .map [("fields", .map [("title", .map [("value", .string "x")])])] }]

/-- A flush resolves against the tables it begins with: an edit behind the Action that files
its entity in `i` does not reach `i`. -/
theorem edit_misses_filed_group :
    ∃ next last prepared mutations left own,
      Authorizer.authorizeAction sharedTask "a" Authorizer.newSim fileTask = .ok next ∧
        Authorizer.authorizeAction sharedTask "a" Authorizer.newSim editTask = .ok last ∧
        Writer.prepare [fileTask, editTask] sharedTask .empty = .ok (prepared, mutations, left) ∧
        prepared[1]? = some own ∧ own.updateScopes = [[.string "g", .string "h"]] ∧
        (rowsBefore sharedTask [] [fileTask]).Belongs "task" "e" (.string "i") :=
  ⟨_, _, _, _, _, _, rfl, rfl, rfl, rfl, rfl, "p", ⟨"p", .string "e", .string "i"⟩, rfl, rfl, rfl⟩

end Ebb.Access
