import Ebb.Access.PlannedRows

namespace Ebb.Access

/-! Resolving through the merged slices of unapplied plans answers as the caches do
once the plans are applied, except for a relationship the table refuses. -/

/-! ## Chains of plans -/

/-- Plan one more Action over the slices of the plans before it. -/
def planNext (caches : SystemCaches) (plans : List (List Mutation × Overlay))
    (updates : List ValidatedUpdate) : Outcome (List (List Mutation × Overlay)) := do
  let (mutations, cumulative) ← plan updates caches (mergeOverlays (plans.map Prod.snd))
  .ok (plans ++ [(mutations, slice cumulative mutations)])

/-- The mutations and the slice of each Action, planned in order while nothing is
applied. -/
def planAll (caches : SystemCaches) (actions : List (List ValidatedUpdate)) :
    Outcome (List (List Mutation × Overlay)) :=
  actions.foldlM (planNext caches) []

def mutationsOf (plans : List (List Mutation × Overlay)) : List Mutation :=
  plans.flatMap Prod.fst

/-- Every slice of a chain is its part of the chain's view. -/
def Chained (caches : SystemCaches) (earlier : List Mutation) :
    List (List Mutation × Overlay) → Prop
  | [] => True
  | planned :: rest =>
      (∀ mutation ∈ planned.1, mutation.Sound) ∧ planned.2.Consistent ∧
        planned.2.view = viewOf caches earlier planned.1 ∧
        Chained caches (earlier ++ planned.1) rest

variable {earlier : List Mutation} (opts : ResolveOpts)

theorem chained_append {caches : SystemCaches} {first second : List (List Mutation × Overlay)} :
    Chained caches earlier (first ++ second) ↔
      Chained caches earlier first ∧ Chained caches (earlier ++ mutationsOf first) second := by
  induction first generalizing earlier with
  | nil => simp [Chained, mutationsOf]
  | cons planned rest induction =>
      simp only [List.cons_append, Chained, induction, mutationsOf, List.flatMap_cons,
        List.append_assoc, and_assoc]

theorem Chained.sound {caches : SystemCaches} {plans : List (List Mutation × Overlay)}
    (chained : Chained caches earlier plans) :
    ∀ mutation ∈ mutationsOf plans, mutation.Sound := by
  induction plans generalizing earlier with
  | nil => exact nofun
  | cons planned rest induction =>
      intro mutation member
      rw [mutationsOf, List.flatMap_cons] at member
      rcases List.mem_append.mp member with member | member
      · exact chained.1 mutation member
      · exact induction chained.2.2.2 mutation member

theorem Chained.merged {caches : SystemCaches} {plans : List (List Mutation × Overlay)}
    (chained : Chained caches earlier plans) :
    (mergeOverlays (plans.map Prod.snd)).Consistent ∧
      (mergeOverlays (plans.map Prod.snd)).view =
        viewOf caches earlier (mutationsOf plans) := by
  have general : ∀ (plans : List (List Mutation × Overlay)) (before : List Mutation)
      (overlay : Overlay), overlay.Consistent → overlay.view = viewOf caches earlier before →
      Chained caches (earlier ++ before) plans →
        ((plans.map Prod.snd).foldl Overlay.merge overlay).Consistent ∧
          ((plans.map Prod.snd).foldl Overlay.merge overlay).view =
            viewOf caches earlier (before ++ mutationsOf plans) := by
    intro plans
    induction plans with
    | nil =>
        intro before overlay consistent viewed _
        rw [mutationsOf, List.flatMap_nil, List.append_nil]
        exact ⟨consistent, viewed⟩
    | cons planned rest induction =>
        intro before overlay consistent viewed chained
        have merged := Overlay.merge_spec consistent chained.2.1
        rw [viewed, chained.2.2.1, viewOf_append] at merged
        have later := chained.2.2.2
        rw [List.append_assoc] at later
        have holds := induction (before ++ planned.1) _ merged.1 merged.2 later
        rw [mutationsOf, List.flatMap_cons, ← List.append_assoc]
        exact holds
  have holds := general plans [] .empty Overlay.empty_consistent rfl
    (by rw [List.append_nil]; exact chained)
  rwa [List.nil_append] at holds

theorem chained_planAll {caches : SystemCaches} {actions : List (List ValidatedUpdate)}
    {plans : List (List Mutation × Overlay)} (planned : planAll caches actions = .ok plans) :
    Chained caches [] plans := by
  have general : ∀ (actions : List (List ValidatedUpdate))
      (before : List (List Mutation × Overlay)), Chained caches [] before →
      actions.foldlM (planNext caches) before = .ok plans → Chained caches [] plans := by
    intro actions
    induction actions with
    | nil =>
        intro before chained planned
        cases planned
        exact chained
    | cons updates rest induction =>
        intro before chained planned
        rw [List.foldlM_cons] at planned
        rcases bind_eq_ok.mp planned with ⟨next, step, later⟩
        rcases bind_eq_ok.mp step with ⟨here, plansHere, step⟩
        cases step
        have merged := chained.merged
        have spec := plan_spec merged.1 merged.2 chained.sound plansHere
        apply induction _ _ later
        rw [chained_append, List.nil_append]
        exact ⟨chained, spec.1, spec.2.1, spec.2.2, trivial⟩
  exact general actions [] trivial planned

/-! ## Applied mutations -/

/-- The source the relationship table holds for `id`: a put without a source or a
target leaves the stored row. -/
def sourceAfter (id : String) (stored : Option Term) : Mutation → Option Term
  | .relationshipPut row =>
      if id = row.id ∧ row.sourceId.truthy = true ∧ row.targetId.truthy = true then
        some row.sourceId
      else stored
  | .relationshipDelete deleted => if id = deleted then none else stored
  | _ => stored

def sourceLeft (caches : SystemCaches) (mutations : List Mutation) (id : String) :
    Option Term :=
  mutations.foldl (sourceAfter id)
    ((caches.relationships.getRelationship id).map (·.sourceId))

theorem cachedRow_or (later earlier : Option (Planned α)) (cached : Option α) :
    EntityIndex.cachedRow (later.or earlier) cached =
      EntityIndex.cachedRow later (EntityIndex.cachedRow earlier cached) := by
  cases later with
  | none => rfl
  | some planned =>
      cases planned with
      | deleted => rfl
      | row row => rfl

theorem applyCacheMutations_concat (caches : SystemCaches) (mutations : List Mutation)
    (mutation : Mutation) :
    applyCacheMutations caches (mutations ++ [mutation]) =
      applyCacheMutation (applyCacheMutations caches mutations) mutation :=
  List.foldl_concat ..

theorem applyCacheMutations_append (caches : SystemCaches) (first second : List Mutation) :
    applyCacheMutations caches (first ++ second) =
      applyCacheMutations (applyCacheMutations caches first) second :=
  List.foldl_append

theorem getGroupMember_apply {caches : SystemCaches} {mutation : Mutation}
    (sound : mutation.Sound) (id : String) :
    ((applyCacheMutation caches mutation).groups.getGroupMember id).map (·.groupId) =
      (EntityIndex.cachedRow (memberAt id mutation)
        (caches.groups.getGroupMember id)).map (·.groupId) := by
  cases mutation with
  | groupMemberPut row =>
      have ends : row.actorId.truthy = true ∧ row.groupId.truthy = true := sound
      simp only [applyCacheMutation, GroupCache.getGroupMember_put, memberAt, ends, and_true]
      by_cases same : id = row.id
      · simp [same, EntityIndex.cachedRow]
      · have different : ¬ row.id = id := fun equal => same equal.symm
        simp [same, different, EntityIndex.cachedRow]
  | groupMemberDelete deleted =>
      simp only [applyCacheMutation, GroupCache.getGroupMember_delete, memberAt]
      by_cases same : id = deleted
      · simp [same, EntityIndex.cachedRow]
      · have different : ¬ deleted = id := fun equal => same equal.symm
        simp [same, different, EntityIndex.cachedRow]
  | _ => rfl

theorem getEntityGroup_apply {caches : SystemCaches} {mutation : Mutation}
    (sound : mutation.Sound) (id : String) :
    (applyCacheMutation caches mutation).entityGroups.getEntityGroup id =
      EntityIndex.cachedRow (membershipAt id mutation)
        (caches.entityGroups.getEntityGroup id) := by
  cases mutation with
  | entityGroupPut row =>
      have ends : row.entityId.truthy = true ∧ row.groupId.truthy = true := sound
      simp only [applyCacheMutation, EntityGroupCache.getEntityGroup_put, membershipAt, ends,
        and_true]
      by_cases same : id = row.id
      · simp [same, EntityIndex.cachedRow]
      · have different : ¬ row.id = id := fun equal => same equal.symm
        simp [same, different, EntityIndex.cachedRow]
  | entityGroupDelete deleted =>
      simp only [applyCacheMutation, EntityGroupCache.getEntityGroup_delete, membershipAt]
      by_cases same : id = deleted
      · simp [same, EntityIndex.cachedRow]
      · have different : ¬ deleted = id := fun equal => same equal.symm
        simp [same, different, EntityIndex.cachedRow]
  | _ => rfl

theorem entityTypes_apply (caches : SystemCaches) (mutation : Mutation) (id : String) :
    (applyCacheMutation caches mutation).entityTypes.get? id =
      (typeAt id mutation).or (caches.entityTypes.get? id) := by
  cases mutation with
  | entityType typed type =>
      simp only [applyCacheMutation, OrderedMap.get?_set, typeAt]
      by_cases same : id = typed
      · simp [same]
      · have different : ¬ typed = id := fun equal => same equal.symm
        simp [same, different]
  | _ => rfl

theorem relationshipSource_apply (caches : SystemCaches) (mutation : Mutation) (id : String) :
    ((applyCacheMutation caches mutation).relationships.getRelationship id).map (·.sourceId) =
      sourceAfter id ((caches.relationships.getRelationship id).map (·.sourceId)) mutation := by
  cases mutation with
  | relationshipPut row =>
      simp only [applyCacheMutation, RelationshipCache.getRelationship_put, sourceAfter]
      split
      · rfl
      · rfl
  | relationshipDelete deleted =>
      simp only [applyCacheMutation, RelationshipCache.getRelationship_delete, sourceAfter]
      split
      · rfl
      · rfl
  | _ => rfl

section Applied

variable (caches : SystemCaches) (mutations : List Mutation)

theorem getGroupMember_applied (sound : ∀ mutation ∈ mutations, mutation.Sound) (id : String) :
    ((applyCacheMutations caches mutations).groups.getGroupMember id).map (·.groupId) =
      (EntityIndex.cachedRow (lastSome (memberAt id) mutations)
        (caches.groups.getGroupMember id)).map (·.groupId) := by
  induction mutations using List.reverseRecOn with
  | nil => rfl
  | append_singleton mutations mutation induction =>
      have before := induction fun other member => sound other (List.mem_append_left _ member)
      have here := sound mutation (List.mem_append_right _ (List.mem_singleton_self _))
      rw [applyCacheMutations_concat, getGroupMember_apply here, lastSome_concat, cachedRow_or]
      cases memberAt id mutation with
      | none => exact before
      | some planned =>
          cases planned with
          | deleted => rfl
          | row row => rfl

theorem getEntityGroup_applied (sound : ∀ mutation ∈ mutations, mutation.Sound) (id : String) :
    (applyCacheMutations caches mutations).entityGroups.getEntityGroup id =
      EntityIndex.cachedRow (lastSome (membershipAt id) mutations)
        (caches.entityGroups.getEntityGroup id) := by
  induction mutations using List.reverseRecOn with
  | nil => rfl
  | append_singleton mutations mutation induction =>
      have before := induction fun other member => sound other (List.mem_append_left _ member)
      have here := sound mutation (List.mem_append_right _ (List.mem_singleton_self _))
      rw [applyCacheMutations_concat, getEntityGroup_apply here, lastSome_concat, cachedRow_or,
        before]

theorem entityTypes_applied (id : String) :
    (applyCacheMutations caches mutations).entityTypes.get? id =
      (lastSome (typeAt id) mutations).or (caches.entityTypes.get? id) := by
  induction mutations using List.reverseRecOn with
  | nil => rfl
  | append_singleton mutations mutation induction =>
      rw [applyCacheMutations_concat, entityTypes_apply, lastSome_concat, Option.or_assoc,
        induction]

theorem relationshipSource_applied (id : String) :
    ((applyCacheMutations caches mutations).relationships.getRelationship id).map
      (·.sourceId) = sourceLeft caches mutations id := by
  induction mutations using List.reverseRecOn with
  | nil => rfl
  | append_singleton mutations mutation induction =>
      rw [applyCacheMutations_concat, relationshipSource_apply, induction, sourceLeft,
        sourceLeft, List.foldl_concat]

end Applied

/-! ## Groups of an entity -/

theorem mem_sourceGroupsCached {opts : ResolveOpts} (consistent : opts.overlay.Consistent)
    (entityId group : Term) :
    group ∈ EntityIndex.sourceGroupsCached opts entityId ↔
      ∃ id row, row.groupId = group ∧ row.entityId = entityId ∧
        ((opts.overlay.view.entities id ≠ some entityId ∧
            opts.caches.entityGroups.getEntityGroup id = some row) ∨
          opts.overlay.view.entityGroups id = some (.row row)) := by
  have recorded := consistent.ids entityId
  rw [EntityIndex.sourceGroupsCached, Overlay.entityGroups]
  cases found : opts.overlay.entityGroupIds.get? entityId with
  | none =>
      simp only [found, Option.getD_none, List.not_mem_nil, false_iff] at recorded
      simp only [Option.map_none, Option.getD_none, List.mem_eraseDups, List.mem_map,
        EntityGroupCache.mem_entityGroupEntries]
      constructor
      · intro cached
        rcases cached with ⟨row, ⟨stored, entity⟩, isGroup⟩
        exact ⟨row.id, row, isGroup, entity, .inl ⟨recorded row.id, stored⟩⟩
      · intro owned
        rcases owned with ⟨id, row, isGroup, entity, cached | planned⟩
        · have sameId := (opts.caches.entityGroups.named cached.2).1
          exact ⟨row, ⟨sameId ▸ cached.2, entity⟩, isGroup⟩
        · exact absurd (entity ▸ (consistent.rows planned).2.2.2) (recorded id)
  | some membershipIds =>
      simp only [found, Option.getD_some] at recorded
      simp only [Option.map_some, Option.getD_some, List.mem_eraseDups, List.mem_filter,
        List.mem_map, List.mem_append, List.mem_filterMap,
        EntityGroupCache.mem_entityGroupEntries, decide_eq_true_eq]
      constructor
      · intro inside
        rcases inside with ⟨⟨row, cached | planned, isGroup⟩, _⟩
        · have ends := (opts.caches.entityGroups.named cached.1.1).2.2
          rw [Term.or_null_of_truthy ends] at isGroup
          exact ⟨row.id, row, isGroup, cached.1.2,
            .inl ⟨fun isRecorded => cached.2 ((recorded row.id).mpr isRecorded), cached.1.1⟩⟩
        · rcases planned with ⟨id, member, isRow⟩
          split at isRow
          · next other planned =>
              cases isRow
              have holds := consistent.rows planned
              rw [Term.or_null_of_truthy holds.2.2.1] at isGroup
              have entity := (recorded id).mp member
              rw [holds.2.2.2] at entity
              exact ⟨id, row, isGroup, Option.some.inj entity, .inr planned⟩
          · cases isRow
      · intro owned
        rcases owned with ⟨id, row, isGroup, entity, cached | planned⟩
        · have named := opts.caches.entityGroups.named cached.2
          have plain := Term.or_null_of_truthy named.2.2
          refine ⟨⟨row, .inl ⟨⟨named.1 ▸ cached.2, entity⟩, fun member => ?_⟩,
            plain.trans isGroup⟩, isGroup ▸ Term.ne_null_of_truthy named.2.2⟩
          exact cached.1 (named.1 ▸ (recorded row.id).mp member)
        · have holds := consistent.rows planned
          have plain := Term.or_null_of_truthy holds.2.2.1
          refine ⟨⟨row, .inr ⟨id, ?_, ?_⟩, plain.trans isGroup⟩,
            isGroup ▸ Term.ne_null_of_truthy holds.2.2.1⟩
          · exact (recorded id).mpr (entity ▸ holds.2.2.2)
          · have shown : opts.overlay.entityGroupsById.get? id = some (.row row) := planned
            rw [shown]

/-! ## Answers -/

/-- Every question of group resolution has the same answer, groups up to their
order. -/
structure SameAnswers (left right : ResolveOpts) : Prop where
  groups : ∀ subjectType subjectId group,
    group ∈ EntityIndex.resolveGroups left subjectType subjectId ↔
      group ∈ EntityIndex.resolveGroups right subjectType subjectId
  sourceGroups : ∀ sourceId group, group ∈ EntityIndex.sourceGroups left sourceId ↔
    group ∈ EntityIndex.sourceGroups right sourceId
  subjectType : ∀ entityId,
    EntityIndex.subjectType left entityId = EntityIndex.subjectType right entityId
  membership : ∀ membershipId,
    EntityIndex.membership left membershipId = EntityIndex.membership right membershipId
  relationshipSource : ∀ relId,
    EntityIndex.relationshipSource left relId = EntityIndex.relationshipSource right relId

theorem mem_applyIntraAction (groups : List Term) (sourceId group : Term) :
    group ∈ EntityIndex.applyIntraAction opts groups sourceId ↔
      group ∈ groups ∨
        (sourceId ≠ .null ∧ group ∈ (opts.intraAction.get? sourceId).getD []) := by
  cases sourceId with
  | null => simp [EntityIndex.applyIntraAction]
  | _ =>
      simp only [EntityIndex.applyIntraAction, ne_eq, reduceCtorEq, not_false_eq_true, true_and]
      split
      · next empty => simp [empty]
      · simp [List.mem_eraseDups]

/-- The source of a stored or planned relationship row, where there is a row. -/
def rowSource (opts : ResolveOpts) (relId : String) : Option Term :=
  (EntityIndex.relationshipRow opts relId).map fun row => row.sourceId.or .null

theorem relationshipSource_eq (relId : String) :
    EntityIndex.relationshipSource opts relId = (rowSource opts relId).getD .null := rfl

theorem mem_resolveGroups_relationship (relId : String) (group : Term) :
    group ∈ EntityIndex.resolveGroups opts "relationship" relId ↔
      ∃ sourceId, (rowSource opts relId).or (opts.intraRelationshipSources.get? relId) =
          some sourceId ∧
        group ∈ EntityIndex.sourceGroups opts sourceId := by
  rw [EntityIndex.resolveGroups, EntityIndex.resolveGroupsCached, rowSource]
  cases EntityIndex.relationshipRow opts relId with
  | none =>
      cases opts.intraRelationshipSources.get? relId with
      | none => simp [EntityIndex.applyIntraAction]
      | some sourceId => simp [EntityIndex.sourceGroups]
  | some row => simp [EntityIndex.sourceGroups]

theorem sameAnswers_of_rows {left right : ResolveOpts}
    (intraAction : left.intraAction = right.intraAction)
    (intraSources : left.intraRelationshipSources = right.intraRelationshipSources)
    (members : ∀ id, (EntityIndex.groupMemberRow left id).map (·.groupId) =
      (EntityIndex.groupMemberRow right id).map (·.groupId))
    (memberships : ∀ id, EntityIndex.entityGroupRow left id = EntityIndex.entityGroupRow right id)
    (sources : ∀ id, rowSource left id = rowSource right id)
    (types : ∀ id, EntityIndex.subjectType left id = EntityIndex.subjectType right id)
    (owned : ∀ entityId group, group ∈ EntityIndex.sourceGroupsCached left entityId ↔
      group ∈ EntityIndex.sourceGroupsCached right entityId) : SameAnswers left right := by
  have bySource : ∀ sourceId group, group ∈ EntityIndex.sourceGroups left sourceId ↔
      group ∈ EntityIndex.sourceGroups right sourceId := by
    intro sourceId group
    rw [EntityIndex.sourceGroups, EntityIndex.sourceGroups, mem_applyIntraAction,
      mem_applyIntraAction, owned, intraAction]
  refine ⟨?_, bySource, types, ?_, ?_⟩
  · intro subjectType subjectId group
    by_cases isRelationship : subjectType = "relationship"
    · subst isRelationship
      rw [mem_resolveGroups_relationship, mem_resolveGroups_relationship, sources, intraSources]
      simp only [bySource]
    · rw [EntityIndex.resolveGroups, EntityIndex.resolveGroups, mem_applyIntraAction,
        mem_applyIntraAction, intraAction]
      simp only [EntityIndex.resolveGroupsCached]
      split
      · exact Iff.rfl
      · rw [memberships]
      · exact absurd rfl isRelationship
      · have same := members subjectId
        cases leftRow : EntityIndex.groupMemberRow left subjectId with
        | none =>
            rw [leftRow] at same
            cases rightRow : EntityIndex.groupMemberRow right subjectId with
            | none => exact Iff.rfl
            | some row =>
                rw [rightRow] at same
                cases same
        | some row =>
            rw [leftRow] at same
            cases rightRow : EntityIndex.groupMemberRow right subjectId with
            | none =>
                rw [rightRow] at same
                cases same
            | some other =>
                rw [rightRow] at same
                have sameGroup : row.groupId = other.groupId := Option.some.inj same
                simp only [sameGroup]
      · dsimp only
        rw [owned]
  · intro membershipId
    rw [EntityIndex.membership, EntityIndex.membership, memberships]
  · intro relId
    rw [relationshipSource_eq, relationshipSource_eq, sources]

/-! ## Unapplied plans -/

/-- No planned put names a membership row that the cache, or the plan of an earlier
Action, files at another entity. -/
def KeepsEntities (caches : SystemCaches) (plans : List (List Mutation × Overlay)) : Prop :=
  ∀ before planned after, plans = before ++ planned :: after →
    ∀ row, .entityGroupPut row ∈ planned.1 →
      (∀ stored, caches.entityGroups.getEntityGroup row.id = some stored →
        stored.entityId = row.entityId) ∧
      ∀ other, .entityGroupPut other ∈ mutationsOf before → other.id = row.id →
        other.entityId = row.entityId

/-- The last planned row of every relationship names a source and a target, or the
source its stored row keeps. -/
def StoresSources (caches : SystemCaches) (mutations : List Mutation) : Prop :=
  ∀ id row, lastSome (relationshipAt id) mutations = some (.row row) →
    (row.sourceId.truthy = true ∧ row.targetId.truthy = true) ∨
      sourceLeft caches mutations id = some row.sourceId

theorem put_of_entityAt {mutations : List Mutation} {id : String} {entityId : Term}
    (filed : lastSome (entityAt id) mutations = some entityId) :
    ∃ row, .entityGroupPut row ∈ mutations ∧ row.id = id ∧ row.entityId = entityId := by
  rcases exists_of_lastSome filed with ⟨mutation, member, names⟩
  cases mutation with
  | entityGroupPut row =>
      simp only [entityAt] at names
      split at names
      · next same =>
          cases names
          exact ⟨row, member, same, rfl⟩
      · cases names
  | _ => cases names

theorem recordedEntity_of_applied {caches : SystemCaches}
    {plans : List (List Mutation × Overlay)} (chained : Chained caches [] plans)
    (keeps : KeepsEntities caches plans) (applied : Nat) {id : String} {row : EntityGroup}
    (stored : (applyCacheMutations caches
      (mutationsOf (plans.take applied))).entityGroups.getEntityGroup id = some row) :
    recordedEntity caches
      (mutationsOf (plans.take applied) ++ mutationsOf (plans.drop applied)) id =
      some row.entityId := by
  have soundTaken : ∀ mutation ∈ mutationsOf (plans.take applied), mutation.Sound := by
    have both := chained
    rw [← List.take_append_drop applied plans, chained_append] at both
    exact both.1.sound
  rw [getEntityGroup_applied caches _ soundTaken] at stored
  rw [recordedEntity, lastSome_append]
  cases later : lastSome (entityAt id) (mutationsOf (plans.drop applied)) with
  | none =>
      rw [Option.none_or]
      cases last : lastSome (membershipAt id) (mutationsOf (plans.take applied)) with
      | none =>
          rw [last] at stored
          have cached : caches.entityGroups.getEntityGroup id = some row := stored
          rw [entityAt_eq_none_of_untouched last, cached]
          rfl
      | some planned =>
          rw [last] at stored
          cases planned with
          | deleted => cases stored
          | row other =>
              cases stored
              rw [entityAt_of_membershipAt last]
              rfl
  | some entityId =>
      rcases put_of_entityAt later with ⟨put, member, sameId, entity⟩
      rcases List.mem_flatMap.mp member with ⟨planned, inDrop, inPlan⟩
      rcases List.append_of_mem inDrop with ⟨between, after, split⟩
      have whole : plans = (plans.take applied ++ between) ++ planned :: after := by
        rw [List.append_assoc, ← split, List.take_append_drop]
      have kept := keeps _ planned after whole put inPlan
      rw [Option.some_or, Option.some_or, ← entity]
      cases last : lastSome (membershipAt id) (mutationsOf (plans.take applied)) with
      | none =>
          rw [last] at stored
          have cached : caches.entityGroups.getEntityGroup put.id = some row := sameId ▸ stored
          rw [kept.1 row cached]
      | some plannedRow =>
          rw [last] at stored
          cases plannedRow with
          | deleted => cases stored
          | row other =>
              cases stored
              rcases put_of_entityAt (entityAt_of_membershipAt last) with
                ⟨earlier, earlierMember, earlierId, earlierEntity⟩
              have inBefore : .entityGroupPut earlier ∈
                  mutationsOf (plans.take applied ++ between) := by
                rw [mutationsOf, List.flatMap_append]
                exact List.mem_append_left _ earlierMember
              have same := kept.2 earlier inBefore (earlierId.trans sameId.symm)
              rw [← same, earlierEntity]

/-- Resolution once the first `applied` plans are in the caches, through the merged
slices of the rest. -/
def unappliedOpts (caches : SystemCaches) (plans : List (List Mutation × Overlay))
    (intraAction : OrderedMap Term (List Term))
    (intraRelationshipSources : OrderedMap String Term) (applied : Nat) : ResolveOpts where
  caches := applyCacheMutations caches (mutationsOf (plans.take applied))
  intraAction := intraAction
  intraRelationshipSources := intraRelationshipSources
  overlay := mergeOverlays ((plans.drop applied).map Prod.snd)

/-- Resolution against the caches with every plan applied. -/
def appliedOpts (caches : SystemCaches) (plans : List (List Mutation × Overlay))
    (intraAction : OrderedMap Term (List Term))
    (intraRelationshipSources : OrderedMap String Term) : ResolveOpts where
  caches := applyCacheMutations caches (mutationsOf plans)
  intraAction := intraAction
  intraRelationshipSources := intraRelationshipSources
  overlay := .empty

theorem sourceLeft_truthy {caches : SystemCaches} {mutations : List Mutation} {id : String}
    {sourceId : Term} (left : sourceLeft caches mutations id = some sourceId) :
    sourceId.truthy = true := by
  rw [← relationshipSource_applied, Option.map_eq_some_iff] at left
  rcases left with ⟨row, stored, equal⟩
  exact equal ▸ ((applyCacheMutations caches mutations).relationships.named stored).2.1

theorem rowSource_applied (caches : SystemCaches) (plans : List (List Mutation × Overlay))
    (intraAction : OrderedMap Term (List Term))
    (intraRelationshipSources : OrderedMap String Term) (id : String) :
    rowSource (appliedOpts caches plans intraAction intraRelationshipSources) id =
      sourceLeft caches (mutationsOf plans) id := by
  rw [← relationshipSource_applied]
  change ((applyCacheMutations caches (mutationsOf plans)).relationships.getRelationship id).map
    (fun row => row.sourceId.or .null) = _
  cases stored : (applyCacheMutations caches
      (mutationsOf plans)).relationships.getRelationship id with
  | none => rfl
  | some row =>
      have named := (applyCacheMutations caches (mutationsOf plans)).relationships.named stored
      simp only [Option.map_some, Term.or_null_of_truthy named.2.1]

theorem foldl_sourceAfter (id : String) (stored : Option Term) (mutations : List Mutation) :
    match lastSome (relationshipAt id) mutations with
    | none => mutations.foldl (sourceAfter id) stored = stored
    | some .deleted => mutations.foldl (sourceAfter id) stored = none
    | some (.row row) => row.sourceId.truthy = true ∧ row.targetId.truthy = true →
        mutations.foldl (sourceAfter id) stored = some row.sourceId := by
  induction mutations using List.reverseRecOn with
  | nil => rfl
  | append_singleton mutations mutation induction =>
      rw [lastSome_concat, List.foldl_concat]
      cases mutation with
      | relationshipPut row =>
          by_cases same : row.id = id
          · simp only [relationshipAt, same, if_true, Option.some_or, sourceAfter, true_and]
            exact fun ends => if_pos ends
          · have different : ¬ id = row.id := fun equal => same equal.symm
            simpa [relationshipAt, same, sourceAfter, different] using induction
      | relationshipDelete deleted =>
          by_cases same : deleted = id
          · simp [relationshipAt, same, sourceAfter]
          · have different : ¬ id = deleted := fun equal => same equal.symm
            simpa [relationshipAt, same, sourceAfter, different] using induction
      | _ => exact induction

section Agreement

variable {caches : SystemCaches} {plans : List (List Mutation × Overlay)}
  (intraAction : OrderedMap Term (List Term))
  (intraRelationshipSources : OrderedMap String Term)

theorem chained_drop (chained : Chained caches [] plans) (applied : Nat) :
    Chained caches [] (plans.take applied) ∧
      Chained caches (mutationsOf (plans.take applied)) (plans.drop applied) := by
  have both := chained
  rw [← List.take_append_drop applied plans, chained_append, List.nil_append] at both
  exact both

theorem mutationsOf_take_drop (plans : List (List Mutation × Overlay)) (applied : Nat) :
    mutationsOf plans = mutationsOf (plans.take applied) ++ mutationsOf (plans.drop applied) := by
  rw [mutationsOf, mutationsOf, mutationsOf, ← List.flatMap_append, List.take_append_drop]

theorem rowSource_unapplied (chained : Chained caches [] plans) (applied : Nat) (id : String) :
    rowSource (unappliedOpts caches plans intraAction intraRelationshipSources applied) id =
      match lastSome (relationshipAt id) (mutationsOf (plans.drop applied)) with
      | some .deleted => none
      | some (.row row) => some (row.sourceId.or .null)
      | none => sourceLeft caches (mutationsOf (plans.take applied)) id := by
  have viewed := (chained_drop chained applied).2.merged.2
  have planned : (mergeOverlays ((plans.drop applied).map Prod.snd)).relationshipsById.get? id =
      lastSome (relationshipAt id) (mutationsOf (plans.drop applied)) :=
    congrFun (congrArg Overlay.View.relationships viewed) id
  have stored := rowSource_applied caches (plans.take applied) intraAction
    intraRelationshipSources id
  rw [rowSource, EntityIndex.relationshipRow, unappliedOpts]
  dsimp only
  rw [planned]
  cases lastSome (relationshipAt id) (mutationsOf (plans.drop applied)) with
  | none => exact stored
  | some planned =>
      cases planned with
      | deleted => rfl
      | row row => rfl

theorem sourceLeft_drop (applied : Nat) (id : String) :
    sourceLeft caches (mutationsOf plans) id =
      (mutationsOf (plans.drop applied)).foldl (sourceAfter id)
        (sourceLeft caches (mutationsOf (plans.take applied)) id) := by
  rw [sourceLeft, mutationsOf_take_drop plans applied, List.foldl_append]
  rfl

theorem applied_take_drop (caches : SystemCaches) (plans : List (List Mutation × Overlay))
    (applied : Nat) :
    applyCacheMutations caches (mutationsOf plans) =
      applyCacheMutations (applyCacheMutations caches (mutationsOf (plans.take applied)))
        (mutationsOf (plans.drop applied)) := by
  rw [mutationsOf_take_drop plans applied]
  exact applyCacheMutations_append caches _ _

theorem groupMember_unapplied (chained : Chained caches [] plans) (applied : Nat) (id : String) :
    (EntityIndex.groupMemberRow
        (unappliedOpts caches plans intraAction intraRelationshipSources applied) id).map
          (·.groupId) =
      ((applyCacheMutations caches (mutationsOf plans)).groups.getGroupMember id).map
        (·.groupId) := by
  have later := (chained_drop chained applied).2
  have planned := congrFun (congrArg Overlay.View.groupMembers later.merged.2) id
  rw [applied_take_drop caches plans applied, getGroupMember_applied _ _ later.sound]
  exact congrArg (fun planned => (EntityIndex.cachedRow planned _).map _) planned

theorem entityGroup_unapplied (chained : Chained caches [] plans) (applied : Nat) (id : String) :
    EntityIndex.entityGroupRow
        (unappliedOpts caches plans intraAction intraRelationshipSources applied) id =
      (applyCacheMutations caches (mutationsOf plans)).entityGroups.getEntityGroup id := by
  have later := (chained_drop chained applied).2
  have planned := congrFun (congrArg Overlay.View.entityGroups later.merged.2) id
  rw [applied_take_drop caches plans applied, getEntityGroup_applied _ _ later.sound]
  exact congrArg (fun planned => EntityIndex.cachedRow planned _) planned

theorem subjectType_unapplied (chained : Chained caches [] plans) (applied : Nat) (id : String) :
    EntityIndex.subjectType
        (unappliedOpts caches plans intraAction intraRelationshipSources applied) id =
      (applyCacheMutations caches (mutationsOf plans)).entityTypes.get? id := by
  have later := (chained_drop chained applied).2
  have planned := congrFun (congrArg Overlay.View.entityTypes later.merged.2) id
  rw [applied_take_drop caches plans applied, entityTypes_applied]
  exact congrArg (fun planned => Option.or planned _) planned

/-- The overlay stores a source where the last put has both ends; elsewhere `stores` says that
the row left is the put's own. -/
theorem rowSource_agrees (chained : Chained caches [] plans)
    (stores : StoresSources caches (mutationsOf plans)) (applied : Nat) (id : String) :
    rowSource (unappliedOpts caches plans intraAction intraRelationshipSources applied) id =
      rowSource (appliedOpts caches plans intraAction intraRelationshipSources) id := by
  rw [rowSource_unapplied intraAction intraRelationshipSources chained, rowSource_applied,
    @sourceLeft_drop caches plans applied]
  have follows := foldl_sourceAfter id
    (sourceLeft caches (mutationsOf (plans.take applied)) id)
    (mutationsOf (plans.drop applied))
  cases last : lastSome (relationshipAt id) (mutationsOf (plans.drop applied)) with
  | none =>
      rw [last] at follows
      exact follows.symm
  | some planned =>
      rw [last] at follows
      cases planned with
      | deleted => exact follows.symm
      | row row =>
          have lastOfAll : lastSome (relationshipAt id) (mutationsOf plans) =
              some (.row row) := by
            rw [mutationsOf_take_drop plans applied, lastSome_append, last]
            rfl
          have left : sourceLeft caches (mutationsOf plans) id = some row.sourceId := by
            rcases stores id row lastOfAll with ends | kept
            · rw [@sourceLeft_drop caches plans applied]
              exact follows ends
            · exact kept
          rw [← @sourceLeft_drop caches plans applied, left]
          exact congrArg some (Term.or_null_of_truthy (sourceLeft_truthy left))

/-- A membership row stands once every plan is applied exactly when the rest plans it, or it is
cached and the rest leaves its entity alone. -/
theorem standing_unapplied (chained : Chained caches [] plans)
    (keeps : KeepsEntities caches plans) (applied : Nat) (id : String) (row : EntityGroup) :
    (applyCacheMutations caches (mutationsOf plans)).entityGroups.getEntityGroup id = some row ↔
      ((unappliedOpts caches plans intraAction intraRelationshipSources
          applied).overlay.view.entities id ≠ some row.entityId ∧
        (applyCacheMutations caches
          (mutationsOf (plans.take applied))).entityGroups.getEntityGroup id = some row) ∨
      (unappliedOpts caches plans intraAction intraRelationshipSources
        applied).overlay.view.entityGroups id = some (.row row) := by
  have later := (chained_drop chained applied).2
  have plannedRow : (unappliedOpts caches plans intraAction intraRelationshipSources
      applied).overlay.view.entityGroups id =
        lastSome (membershipAt id) (mutationsOf (plans.drop applied)) :=
    congrFun (congrArg Overlay.View.entityGroups later.merged.2) id
  have plannedEntity : (unappliedOpts caches plans intraAction intraRelationshipSources
      applied).overlay.view.entities id =
        if (lastSome (membershipAt id) (mutationsOf (plans.drop applied))).isSome then
          recordedEntity caches (mutationsOf (plans.take applied) ++
            mutationsOf (plans.drop applied)) id
        else none :=
    congrFun (congrArg Overlay.View.entities later.merged.2) id
  rw [applied_take_drop caches plans applied, getEntityGroup_applied _ _ later.sound,
    plannedRow, plannedEntity]
  cases last : lastSome (membershipAt id) (mutationsOf (plans.drop applied)) with
  | none => simp [EntityIndex.cachedRow]
  | some planned =>
      have notCached : ¬ (recordedEntity caches (mutationsOf (plans.take applied) ++
            mutationsOf (plans.drop applied)) id ≠ some row.entityId ∧
          (applyCacheMutations caches
            (mutationsOf (plans.take applied))).entityGroups.getEntityGroup id = some row) :=
        fun cached => cached.1 (recordedEntity_of_applied chained keeps applied cached.2)
      cases planned with
      | deleted => simpa [EntityIndex.cachedRow] using notCached
      | row other =>
          constructor
          · intro stored
            cases stored
            exact .inr rfl
          · rintro (cached | planned)
            · exact absurd cached notCached
            · cases planned
              rfl

theorem sourceGroups_unapplied (chained : Chained caches [] plans)
    (keeps : KeepsEntities caches plans) (applied : Nat) (entityId group : Term) :
    group ∈ EntityIndex.sourceGroupsCached
        (unappliedOpts caches plans intraAction intraRelationshipSources applied) entityId ↔
      group ∈ EntityIndex.sourceGroupsCached
        (appliedOpts caches plans intraAction intraRelationshipSources) entityId := by
  rw [@mem_sourceGroupsCached
      (unappliedOpts caches plans intraAction intraRelationshipSources applied)
      (chained_drop chained applied).2.merged.1,
    @mem_sourceGroupsCached (appliedOpts caches plans intraAction intraRelationshipSources)
      Overlay.empty_consistent]
  apply exists_congr
  intro id
  apply exists_congr
  intro row
  have standing := standing_unapplied intraAction intraRelationshipSources chained keeps applied
    id row
  have unplanned : ((appliedOpts caches plans intraAction intraRelationshipSources
      ).overlay.view.entities id ≠ some entityId ∧
        (applyCacheMutations caches (mutationsOf plans)).entityGroups.getEntityGroup id =
          some row ∨
      (appliedOpts caches plans intraAction intraRelationshipSources
        ).overlay.view.entityGroups id = some (.row row)) ↔
      (applyCacheMutations caches (mutationsOf plans)).entityGroups.getEntityGroup id =
        some row :=
    ⟨fun owned => owned.elim And.right nofun, fun stored => .inl ⟨nofun, stored⟩⟩
  constructor
  · rintro ⟨isGroup, rfl, owned⟩
    exact ⟨isGroup, rfl, unplanned.mpr (standing.mpr owned)⟩
  · rintro ⟨isGroup, rfl, owned⟩
    exact ⟨isGroup, rfl, standing.mp (unplanned.mp owned)⟩

theorem sameAnswers_unapplied (chained : Chained caches [] plans)
    (keeps : KeepsEntities caches plans) (stores : StoresSources caches (mutationsOf plans))
    (applied : Nat) :
    SameAnswers (unappliedOpts caches plans intraAction intraRelationshipSources applied)
      (appliedOpts caches plans intraAction intraRelationshipSources) :=
  sameAnswers_of_rows rfl rfl
    (groupMember_unapplied intraAction intraRelationshipSources chained applied)
    (entityGroup_unapplied intraAction intraRelationshipSources chained applied)
    (rowSource_agrees intraAction intraRelationshipSources chained stores applied)
    (subjectType_unapplied intraAction intraRelationshipSources chained applied)
    (sourceGroups_unapplied intraAction intraRelationshipSources chained keeps applied)

end Agreement

theorem storesSources_of_sameAnswers {caches : SystemCaches}
    {plans : List (List Mutation × Overlay)} (chained : Chained caches [] plans)
    (same : ∀ intraAction intraRelationshipSources,
      SameAnswers (unappliedOpts caches plans intraAction intraRelationshipSources 0)
        (appliedOpts caches plans intraAction intraRelationshipSources)) :
    StoresSources caches (mutationsOf plans) := by
  intro id row last
  right
  have planned : ∀ intraAction intraRelationshipSources,
      rowSource (unappliedOpts caches plans intraAction intraRelationshipSources 0) id =
        some (row.sourceId.or .null) := by
    intro intraAction intraRelationshipSources
    have last0 : lastSome (relationshipAt id) (mutationsOf (plans.drop 0)) = some (.row row) :=
      last
    rw [rowSource_unapplied intraAction intraRelationshipSources chained, last0]
  have answers := (same .empty .empty).relationshipSource id
  rw [relationshipSource_eq, relationshipSource_eq, planned, rowSource_applied,
    Option.getD_some] at answers
  cases truthy : row.sourceId.truthy with
  | true =>
      rw [Term.or_null_of_truthy truthy] at answers
      cases left : sourceLeft caches (mutationsOf plans) id with
      | none =>
          rw [left] at answers
          exact absurd answers (Term.ne_null_of_truthy truthy)
      | some sourceId =>
          rw [left] at answers
          rw [answers]
          rfl
  | false =>
      rw [Term.or_of_not_truthy truthy] at answers planned
      cases left : sourceLeft caches (mutationsOf plans) id with
      | some sourceId =>
          rw [left] at answers
          exact absurd answers.symm (Term.ne_null_of_truthy (sourceLeft_truthy left))
      | none =>
          -- The Action's own put of the row answers only where no row is planned.
          exfalso
          let intraAction := OrderedMap.empty.set (Term.string "") [Term.string ""]
          let sources := OrderedMap.empty.set id (Term.string "")
          have groups := (same intraAction sources).groups "relationship" id (.string "")
          rw [mem_resolveGroups_relationship, mem_resolveGroups_relationship, planned,
            rowSource_applied, left] at groups
          have applied : Term.string "" ∈ EntityIndex.sourceGroups
              (appliedOpts caches plans intraAction sources) (.string "") := by
            rw [EntityIndex.sourceGroups, mem_applyIntraAction]
            have own : intraAction.get? (.string "") = some [.string ""] :=
              OrderedMap.get?_set_self _ _ _
            exact .inr ⟨nofun, by
              change Term.string "" ∈ (intraAction.get? (.string "")).getD []
              rw [own]
              exact List.mem_singleton_self _⟩
          rcases groups.mpr ⟨.string "", OrderedMap.get?_set_self _ _ _, applied⟩ with
            ⟨sourceId, isNull, inside⟩
          cases isNull
          rw [EntityIndex.sourceGroups, mem_applyIntraAction] at inside
          rcases inside with inside | inside
          · have consistent := (chained_drop chained 0).2.merged.1
            rw [@mem_sourceGroupsCached (unappliedOpts caches plans intraAction sources 0)
              consistent] at inside
            rcases inside with ⟨other, owned, _, entity, cached | planned⟩
            · have named := (unappliedOpts caches plans intraAction sources
                0).caches.entityGroups.named cached.2
              rw [entity] at named
              exact absurd named.2.1 nofun
            · have holds := consistent.rows planned
              rw [entity] at holds
              exact absurd holds.2.1 nofun
          · exact inside.1 rfl

/-- Resolution through the merged slices answers as the applied caches do, after any
prefix of the plans has been applied, exactly when the relationship table stores the
sources the plans end with. -/
theorem overlay_answers_iff {caches : SystemCaches} {actions : List (List ValidatedUpdate)}
    {plans : List (List Mutation × Overlay)} (planned : planAll caches actions = .ok plans)
    (keeps : KeepsEntities caches plans) :
    (∀ applied intraAction intraRelationshipSources,
      SameAnswers (unappliedOpts caches plans intraAction intraRelationshipSources applied)
        (appliedOpts caches plans intraAction intraRelationshipSources)) ↔
      StoresSources caches (mutationsOf plans) := by
  have chained := chained_planAll planned
  constructor
  · exact fun same => storesSources_of_sameAnswers chained (same 0)
  · exact fun stores applied intraAction intraRelationshipSources =>
      sameAnswers_unapplied intraAction intraRelationshipSources chained keeps stores applied

theorem storesSources_of_ends {caches : SystemCaches} {mutations : List Mutation}
    (ends : ∀ row, .relationshipPut row ∈ mutations →
      row.sourceId.truthy = true ∧ row.targetId.truthy = true) :
    StoresSources caches mutations := by
  intro id row last
  rcases exists_of_lastSome last with ⟨mutation, member, names⟩
  cases mutation with
  | relationshipPut put =>
      simp only [relationshipAt] at names
      split at names
      · cases names
        exact .inl (ends row member)
      · cases names
  | relationshipDelete deleted =>
      simp only [relationshipAt] at names
      split at names
      · cases names
      · cases names
  | _ => cases names

/-- A relationship row written from `source` to `target`. -/
def linkUpdate (target : Term) : ValidatedUpdate where
  id := "u-link"
  subjectId := "r"
  subjectType := "relationship"
  method := .put
  data := .map [("fields", .map
    [("source_id", .map [("value", .string "e")]), ("target_id", .map [("value", target)])])]

/-- A membership of `e` in `g`, written before the row links it and deleted after. -/
def membershipUpdate (method : UpdateMethod) : ValidatedUpdate where
  id := "u-membership"
  subjectId := "m"
  subjectType := "entityGroup"
  method := method
  data := .map [("fields", .map
    [("entity_id", .map [("value", .string "e")]), ("group_id", .map [("value", .string "g")])])]

def linkedActions : List (List ValidatedUpdate) :=
  [[membershipUpdate .put, linkUpdate (.string "t")], [membershipUpdate .delete]]

def linkedPlans : List (List Mutation × Overlay) :=
  match planAll .empty linkedActions with
  | .ok plans => plans
  | .error _ => []

theorem mutationsOf_linkedPlans :
    mutationsOf linkedPlans =
      [.entityType "m" "entityGroup", .entityGroupPut ⟨"m", .string "e", .string "g"⟩,
        .entityType "r" "relationship",
        .relationshipPut ⟨"r", .string "e", .string "t", .null, .null⟩,
        .entityType "m" "entityGroup", .entityGroupDelete "m"] := rfl

def unlinkedPlans : List (List Mutation × Overlay) :=
  match planAll .empty [[linkUpdate (.bool false)]] with
  | .ok plans => plans
  | .error _ => []

/-- Across two Actions, one that links an entity it gives a group and one that takes
the group away. -/
theorem overlay_answers_linked :
    StoresSources .empty (mutationsOf linkedPlans) ∧
      ∀ applied intraAction intraRelationshipSources,
        SameAnswers
          (unappliedOpts .empty linkedPlans intraAction intraRelationshipSources applied)
          (appliedOpts .empty linkedPlans intraAction intraRelationshipSources) := by
  have keeps : KeepsEntities .empty linkedPlans := by
    intro before planned after split row member
    constructor
    · exact nofun
    · intro other otherMember sameId
      have first : .entityGroupPut row ∈ mutationsOf linkedPlans := by
        rw [split]
        exact List.mem_flatMap.mpr ⟨planned, by simp, member⟩
      have second : .entityGroupPut other ∈ mutationsOf linkedPlans := by
        rw [split, mutationsOf, List.flatMap_append]
        exact List.mem_append_left _ otherMember
      have only : ∀ put, .entityGroupPut put ∈ mutationsOf linkedPlans →
          put.entityId = .string "e" := by
        intro put
        rw [mutationsOf_linkedPlans]
        simp
        intro equal
        rw [equal]
      rw [only row first, only other second]
  have stores : StoresSources .empty (mutationsOf linkedPlans) := by
    apply storesSources_of_ends
    intro row
    rw [mutationsOf_linkedPlans]
    simp
    intro equal
    rw [equal]
    exact ⟨rfl, rfl⟩
  exact ⟨stores, (@overlay_answers_iff .empty linkedActions _ rfl keeps).mpr stores⟩

/-- A target of `false` is planned and refused by the table: through the overlay the
row has its source, in the caches there is no row. -/
theorem overlay_answers_unlinked :
    ¬ ∀ caches actions plans, planAll caches actions = .ok plans →
      KeepsEntities caches plans →
        ∀ applied intraAction intraRelationshipSources,
          SameAnswers (unappliedOpts caches plans intraAction intraRelationshipSources applied)
            (appliedOpts caches plans intraAction intraRelationshipSources) := by
  intro agree
  have keeps : KeepsEntities .empty unlinkedPlans := by
    intro before planned after split row member
    have first : .entityGroupPut row ∈ mutationsOf unlinkedPlans := by
      rw [split]
      exact List.mem_flatMap.mpr ⟨planned, by simp, member⟩
    have mutations : mutationsOf unlinkedPlans =
        [.entityType "r" "relationship",
          .relationshipPut ⟨"r", .string "e", .bool false, .null, .null⟩] := rfl
    rw [mutations] at first
    simp at first
  have same := agree .empty [[linkUpdate (.bool false)]] unlinkedPlans rfl keeps 0 .empty .empty
  have source : Term.string "e" = .null := same.relationshipSource "r"
  cases source

end Ebb.Access
