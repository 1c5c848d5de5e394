import Ebb.Access.OverlayRows
import Mathlib.Data.List.Induction

namespace Ebb.Access

/-! What a plan, its slice and the caches it is applied to hold for one id: in each
case the last mutation of that id. -/

/-! ## The last mutation of an id -/

def memberAt (id : String) : Mutation → Option (Planned GroupMember)
  | .groupMemberPut row => if row.id = id then some (.row row) else none
  | .groupMemberDelete deleted => if deleted = id then some .deleted else none
  | _ => none

def membershipAt (id : String) : Mutation → Option (Planned EntityGroup)
  | .entityGroupPut row => if row.id = id then some (.row row) else none
  | .entityGroupDelete deleted => if deleted = id then some .deleted else none
  | _ => none

def relationshipAt (id : String) : Mutation → Option (Planned Relationship)
  | .relationshipPut row => if row.id = id then some (.row row) else none
  | .relationshipDelete deleted => if deleted = id then some .deleted else none
  | _ => none

def typeAt (id : String) : Mutation → Option String
  | .entityType typed type => if typed = id then some type else none
  | _ => none

/-- The entity a put files the membership row at. -/
def entityAt (id : String) : Mutation → Option Term
  | .entityGroupPut row => if row.id = id then some row.entityId else none
  | _ => none

/-- The entity known for a membership row: its last put's, or else the cached one. -/
def recordedEntity (caches : SystemCaches) (mutations : List Mutation) (id : String) :
    Option Term :=
  (lastSome (entityAt id) mutations).or
    ((caches.entityGroups.getEntityGroup id).map (·.entityId))

/-- The overlay view that `mutations` leave when `earlier` came before them. -/
def viewOf (caches : SystemCaches) (earlier mutations : List Mutation) : Overlay.View where
  groupMembers id := lastSome (memberAt id) mutations
  entityGroups id := lastSome (membershipAt id) mutations
  relationships id := lastSome (relationshipAt id) mutations
  entityTypes id := lastSome (typeAt id) mutations
  entities id :=
    if (lastSome (membershipAt id) mutations).isSome then
      recordedEntity caches (earlier ++ mutations) id
    else none

/-- Planned membership and member rows name both of their ends. -/
def Mutation.Sound : Mutation → Prop
  | .groupMemberPut row => row.actorId.truthy = true ∧ row.groupId.truthy = true
  | .entityGroupPut row => row.entityId.truthy = true ∧ row.groupId.truthy = true
  | _ => True

variable {caches : SystemCaches} {mutations : List Mutation} {entityId : Term} {overlay : Overlay}
  {earlier : List Mutation} {planned : List Mutation × Overlay} {updates : List ValidatedUpdate}
  (id : String) (mutation : Mutation)

theorem recordedEntity_truthy (sound : ∀ mutation ∈ mutations, mutation.Sound) {id : String}
    (recorded : recordedEntity caches mutations id = some entityId) :
    entityId.truthy = true := by
  rw [recordedEntity, Option.or_eq_some_iff] at recorded
  rcases recorded with put | cached
  · rcases exists_of_lastSome put with ⟨mutation, member, names⟩
    have holds := sound mutation member
    cases mutation with
    | entityGroupPut row =>
        simp only [entityAt] at names
        split at names
        · cases names
          exact holds.1
        · cases names
    | _ => cases names
  · rw [Option.map_eq_some_iff] at cached
    rcases cached.2 with ⟨row, stored, equal⟩
    exact equal ▸ (caches.entityGroups.named stored).2.1

theorem touched_of_entityAt {id : String} (put : lastSome (entityAt id) mutations = some entityId) :
    (lastSome (membershipAt id) mutations).isSome = true := by
  rcases exists_of_lastSome put with ⟨mutation, member, names⟩
  rw [Option.isSome_iff_ne_none, Ne, lastSome_eq_none]
  intro untouched
  have unread := untouched mutation member
  cases mutation with
  | entityGroupPut row =>
      simp only [entityAt] at names
      simp only [membershipAt] at unread
      split at names
      · next same => rw [if_pos same] at unread; cases unread
      · cases names
  | _ => cases names

theorem entityAt_eq_none_of_untouched {id : String}
    (untouched : lastSome (membershipAt id) mutations = none) :
    lastSome (entityAt id) mutations = none := by
  cases put : lastSome (entityAt id) mutations with
  | none => rfl
  | some entityId =>
      have touched := touched_of_entityAt put
      rw [untouched] at touched
      cases touched

theorem viewOf_append (caches : SystemCaches) (earlier first second : List Mutation) :
    (viewOf caches earlier first).merge (viewOf caches (earlier ++ first) second) =
      viewOf caches earlier (first ++ second) := by
  simp only [Overlay.View.merge, viewOf, lastSome_append]
  congr 1
  funext id
  rw [List.append_assoc]
  cases later : lastSome (membershipAt id) second with
  | some planned =>
      simp only [Option.isSome_some, if_true, Option.some_or]
      cases recorded : recordedEntity caches (earlier ++ (first ++ second)) id with
      | some entityId => rfl
      | none =>
          rw [Option.none_or]
          split
          · have absent := recorded
            simp only [recordedEntity, lastSome_append, Option.or_eq_none_iff] at absent ⊢
            exact ⟨⟨absent.1.1.2, absent.1.2⟩, absent.2⟩
          · rfl
  | none =>
      have unfiled := entityAt_eq_none_of_untouched later
      simp only [Option.isSome_none, Bool.false_eq_true, if_false, Option.none_or,
        recordedEntity, lastSome_append, unfiled]

/-! ## One mutation -/

theorem update_eq_or (rows : String → Option α) (id : String) (row : α) :
    Function.update rows id (some row) =
      fun other => (if id = other then some row else none).or (rows other) := by
  funext other
  rw [Function.update_apply]
  by_cases same : other = id
  · rw [if_pos same, if_pos same.symm, Option.some_or]
  · rw [if_neg same, if_neg (fun equal => same equal.symm), Option.none_or]

/-- What one mutation adds to a view; `owner` gives the entity of a touched row. -/
def ownView (owner : String → Option Term) (mutation : Mutation) : Overlay.View where
  groupMembers id := memberAt id mutation
  entityGroups id := membershipAt id mutation
  relationships id := relationshipAt id mutation
  entityTypes id := typeAt id mutation
  entities id := if (membershipAt id mutation).isSome then owner id else none

theorem viewOf_singleton (caches : SystemCaches) (earlier : List Mutation)
    (mutation : Mutation) :
    viewOf caches earlier [mutation] =
      ownView (recordedEntity caches (earlier ++ [mutation])) mutation := rfl

theorem sliceMutation_view {cumulative overlay : Overlay} (consistent : overlay.Consistent)
    {mutation : Mutation} (sound : mutation.Sound) {owner : String → Option Term}
    (owned : ∀ id entityId, entityAt id mutation = some entityId → owner id = some entityId)
    (keeps : ∀ id, mutation ≠ .entityGroupDelete id) :
    (sliceMutation cumulative overlay mutation).Consistent ∧
      (sliceMutation cumulative overlay mutation).view =
        overlay.view.merge (ownView owner mutation) := by
  cases mutation with
  | entityType id type =>
      have spec := Overlay.putEntityType_spec consistent id type
      refine ⟨spec.1, spec.2.trans ?_⟩
      simp [Overlay.View.merge, ownView, memberAt, membershipAt, relationshipAt, typeAt,
        update_eq_or]
  | groupMemberPut row =>
      have spec := @Overlay.putGroupMember_spec _ consistent row.id (.row row)
        (fun other equal => by cases equal; exact sound)
      refine ⟨spec.1, spec.2.trans ?_⟩
      simp [Overlay.View.merge, ownView, memberAt, membershipAt, relationshipAt, typeAt,
        update_eq_or]
  | groupMemberDelete id =>
      have spec := @Overlay.putGroupMember_spec _ consistent id .deleted
        (fun other equal => nomatch equal)
      refine ⟨spec.1, spec.2.trans ?_⟩
      simp [Overlay.View.merge, ownView, memberAt, membershipAt, relationshipAt, typeAt,
        update_eq_or]
  | entityGroupPut row =>
      have spec := Overlay.putEntityGroup_spec consistent sound
      have entity : owner row.id = some row.entityId :=
        owned row.id row.entityId (by rw [entityAt, if_pos rfl])
      have entities : Function.update overlay.view.entities row.id (some row.entityId) =
          fun id => (if (membershipAt id (.entityGroupPut row)).isSome then owner id
            else none).or (overlay.view.entities id) := by
        rw [update_eq_or]
        funext id
        by_cases same : row.id = id
        · simp [membershipAt, ← same, entity]
        · simp [membershipAt, same]
      refine ⟨spec.1, spec.2.trans ?_⟩
      rw [entities, update_eq_or]
      rfl
  | entityGroupDelete id => exact absurd rfl (keeps id)
  | relationshipPut row =>
      have spec := Overlay.putRelationship_spec consistent row.id (.row row)
      refine ⟨spec.1, spec.2.trans ?_⟩
      simp [Overlay.View.merge, ownView, memberAt, membershipAt, relationshipAt, typeAt,
        update_eq_or]
  | relationshipDelete id =>
      have spec := Overlay.putRelationship_spec consistent id .deleted
      refine ⟨spec.1, spec.2.trans ?_⟩
      simp [Overlay.View.merge, ownView, memberAt, membershipAt, relationshipAt, typeAt,
        update_eq_or]

theorem deleteEntityGroup_view (consistent : overlay.Consistent) {id : String}
    {owner : String → Option Term} (truthy : entityId = .null ∨ entityId.truthy = true)
    (owned : entityId.toOption.or (overlay.view.entities id) =
      (owner id).or (overlay.view.entities id)) :
    (overlay.deleteEntityGroup id entityId).Consistent ∧
      (overlay.deleteEntityGroup id entityId).view =
        overlay.view.merge (ownView owner (.entityGroupDelete id)) := by
  have spec := Overlay.deleteEntityGroup_spec consistent id truthy
  refine ⟨spec.1, spec.2.trans ?_⟩
  have entities : Function.update overlay.view.entities id
        (entityId.toOption.or (overlay.view.entities id)) =
      fun other => (if (membershipAt other (.entityGroupDelete id)).isSome then owner other
        else none).or (overlay.view.entities other) := by
    funext other
    rw [Function.update_apply]
    by_cases same : other = id
    · simp [membershipAt, same, owned]
    · have different : ¬ id = other := fun equal => same equal.symm
      simp [membershipAt, same, different]
  rw [entities, update_eq_or]
  rfl

/-! ## The plan's own overlay -/

/-- The overlay a plan reaches by one mutation; a membership delete records the
entity the chain or the cache knows. -/
def extend (caches : SystemCaches) (overlay : Overlay) : Mutation → Overlay
  | .entityGroupDelete id =>
      overlay.deleteEntityGroup id (entityGroupEntity caches overlay id)
  | mutation => sliceMutation overlay overlay mutation

theorem entityGroupEntity_eq (consistent : overlay.Consistent)
    (viewed : overlay.view = viewOf caches [] earlier)
    (sound : ∀ mutation ∈ earlier, mutation.Sound) (id : String) :
    entityGroupEntity caches overlay id =
      (recordedEntity caches earlier id).getD .null := by
  have recorded : overlay.entityGroupEntities.get? id =
      (viewOf caches [] earlier).entities id := congrFun (congrArg Overlay.View.entities viewed) id
  rw [entityGroupEntity, Overlay.entityForMembership_eq consistent, recorded]
  simp only [viewOf, List.nil_append]
  split
  · cases known : recordedEntity caches earlier id with
    | some entityId =>
        exact Term.or_of_truthy (recordedEntity_truthy sound known) _
    | none =>
        rw [recordedEntity, Option.or_eq_none_iff] at known
        rw [known.2]
        rfl
  · next untouched =>
      have unfiled := entityAt_eq_none_of_untouched (Option.not_isSome_iff_eq_none.mp untouched)
      rw [recordedEntity, unfiled, Option.none_or]
      exact Term.or_of_not_truthy rfl _

theorem extend_view (consistent : overlay.Consistent)
    (viewed : overlay.view = viewOf caches [] earlier)
    (sound : ∀ mutation ∈ earlier, mutation.Sound) {mutation : Mutation}
    (soundHere : mutation.Sound) :
    (extend caches overlay mutation).Consistent ∧
      (extend caches overlay mutation).view = viewOf caches [] (earlier ++ [mutation]) := by
  rw [← viewOf_append caches [] earlier [mutation], ← viewed, List.nil_append,
    viewOf_singleton]
  have filed : ∀ id entityId, entityAt id mutation = some entityId →
      recordedEntity caches (earlier ++ [mutation]) id = some entityId := by
    intro id entityId names
    rw [recordedEntity, lastSome_concat, names]
    rfl
  cases mutation with
  | entityGroupDelete id =>
      have known := entityGroupEntity_eq consistent viewed sound id
      have unfiled : recordedEntity caches (earlier ++ [.entityGroupDelete id]) id =
          recordedEntity caches earlier id := by
        rw [recordedEntity, lastSome_concat]
        rfl
      apply deleteEntityGroup_view consistent
      · rw [known]
        cases recorded : recordedEntity caches earlier id with
        | none => exact .inl rfl
        | some entityId => exact .inr (recordedEntity_truthy sound recorded)
      · rw [unfiled, known]
        cases recorded : recordedEntity caches earlier id with
        | none => rfl
        | some entityId =>
            have present := Term.ne_null_of_truthy (recordedEntity_truthy sound recorded)
            rw [Option.getD_some, Term.toOption_of_ne_null present]
  | _ => exact @sliceMutation_view overlay _ consistent _ soundHere _ filed (fun _ => nofun)

theorem extend_foldl (consistent : overlay.Consistent)
    (viewed : overlay.view = viewOf caches [] earlier) (mutations : List Mutation)
    (sound : ∀ mutation ∈ earlier ++ mutations, mutation.Sound) :
    (mutations.foldl (extend caches) overlay).Consistent ∧
      (mutations.foldl (extend caches) overlay).view =
        viewOf caches [] (earlier ++ mutations) := by
  induction mutations generalizing overlay earlier with
  | nil =>
      rw [List.append_nil]
      exact ⟨consistent, viewed⟩
  | cons mutation rest induction =>
      have soundEarlier : ∀ other ∈ earlier, other.Sound := fun other member =>
        sound other (List.mem_append_left _ member)
      have soundHere := sound mutation (List.mem_append_right _ List.mem_cons_self)
      have step := extend_view consistent viewed soundEarlier soundHere
      rw [List.append_cons] at sound ⊢
      exact induction step.1 step.2 sound

/-! ## Planning -/

theorem patchExisting_truthy {value : α → Term} {method : UpdateMethod}
    {planned : Option (Planned α)} {cached : Option α}
    (plannedNamed : ∀ row, planned = some (.row row) → (value row).truthy = true)
    (cachedNamed : ∀ row, cached = some row → (value row).truthy = true) (wire : Term) :
    wire.or (((patchExisting method planned cached).map value).getD .null) = .null ∨
      (wire.or (((patchExisting method planned cached).map value).getD .null)).truthy = true := by
  cases truthy : wire.truthy with
  | true =>
      rw [Term.or_of_truthy truthy]
      exact .inr truthy
  | false =>
      rw [Term.or_of_not_truthy truthy]
      cases found : patchExisting method planned cached with
      | none => exact .inl rfl
      | some row =>
          right
          cases method with
          | patch =>
              cases planned with
              | none => exact cachedNamed row found
              | some effect =>
                  cases effect with
                  | deleted => cases found
                  | row other =>
                      cases found
                      exact plannedNamed row rfl
          | _ => cases found

theorem planSystemMutation_spec {update : ValidatedUpdate} (consistent : overlay.Consistent)
    (plans : planSystemMutation caches overlay update = .ok planned) :
    planned.2 = planned.1.foldl (extend caches) overlay ∧
      ∀ mutation ∈ planned.1, mutation.Sound := by
  have nothing : planned = ([], overlay) → planned.2 = planned.1.foldl (extend caches) overlay ∧
      ∀ mutation ∈ planned.1, mutation.Sound := by
    intro equal
    rw [equal]
    exact ⟨rfl, nofun⟩
  have single : ∀ mutation, planned = ([mutation], extend caches overlay mutation) →
      mutation.Sound → planned.2 = planned.1.foldl (extend caches) overlay ∧
        ∀ mutation ∈ planned.1, mutation.Sound := by
    intro mutation equal sound
    rw [equal]
    exact ⟨rfl, fun other member => List.mem_singleton.mp member ▸ sound⟩
  rw [planSystemMutation] at plans
  split at plans
  · rw [planGroupMember] at plans
    split at plans
    · exact single (.groupMemberDelete update.subjectId) (Except.ok.inj plans).symm trivial
    · rcases bind_eq_ok.mp plans with ⟨actor, _, plans⟩
      rcases bind_eq_ok.mp plans with ⟨group, _, plans⟩
      rcases bind_eq_ok.mp plans with ⟨permissions, _, plans⟩
      split at plans
      · exact nothing (Except.ok.inj plans).symm
      · next named =>
          rw [not_or] at named
          have actorTruthy := @patchExisting_truthy GroupMember (·.actorId) update.method
            (overlay.groupMembersById.get? update.subjectId)
            (caches.groups.getGroupMember update.subjectId)
            (fun row found => (consistent.members found).1)
            (fun row found => (caches.groups.named found).2.1) actor
          have groupTruthy := @patchExisting_truthy GroupMember (·.groupId) update.method
            (overlay.groupMembersById.get? update.subjectId)
            (caches.groups.getGroupMember update.subjectId)
            (fun row found => (consistent.members found).2)
            (fun row found => (caches.groups.named found).2.2) group
          exact single _ (Except.ok.inj plans).symm
            ⟨actorTruthy.resolve_left named.1, groupTruthy.resolve_left named.2⟩
  · rw [planEntityGroup] at plans
    split at plans
    · exact single (.entityGroupDelete update.subjectId) (Except.ok.inj plans).symm trivial
    · rcases bind_eq_ok.mp plans with ⟨entity, _, plans⟩
      rcases bind_eq_ok.mp plans with ⟨group, _, plans⟩
      dsimp only at plans
      split at plans
      · exact nothing (Except.ok.inj plans).symm
      · next named =>
          rw [not_or] at named
          have entityTruthy := @patchExisting_truthy EntityGroup (·.entityId) update.method
            (overlay.entityGroupsById.get? update.subjectId)
            (caches.entityGroups.getEntityGroup update.subjectId)
            (fun row found => (consistent.rows found).2.1)
            (fun row found => (caches.entityGroups.named found).2.1) entity
          have groupTruthy := @patchExisting_truthy EntityGroup (·.groupId) update.method
            (overlay.entityGroupsById.get? update.subjectId)
            (caches.entityGroups.getEntityGroup update.subjectId)
            (fun row found => (consistent.rows found).2.2.1)
            (fun row found => (caches.entityGroups.named found).2.2) group
          exact single _ (Except.ok.inj plans).symm
            ⟨entityTruthy.resolve_left named.1, groupTruthy.resolve_left named.2⟩
  · rw [planRelationship] at plans
    split at plans
    · exact single (.relationshipDelete update.subjectId) (Except.ok.inj plans).symm trivial
    · rcases bind_eq_ok.mp plans with ⟨source, _, plans⟩
      rcases bind_eq_ok.mp plans with ⟨target, _, plans⟩
      rcases bind_eq_ok.mp plans with ⟨type, _, plans⟩
      rcases bind_eq_ok.mp plans with ⟨field, _, plans⟩
      split at plans
      · exact nothing (Except.ok.inj plans).symm
      · exact single (.relationshipPut _) (Except.ok.inj plans).symm trivial
  · exact nothing (Except.ok.inj plans).symm

theorem planUpdates_spec (consistent : overlay.Consistent)
    (viewed : overlay.view = viewOf caches [] earlier)
    (sound : ∀ mutation ∈ earlier, mutation.Sound)
    (plans : planUpdates caches overlay updates = .ok planned) :
    planned.2 = planned.1.foldl (extend caches) overlay ∧
      ∀ mutation ∈ planned.1, mutation.Sound := by
  have general : ∀ (updates : List ValidatedUpdate) (before : List Mutation × Overlay),
      before.2 = before.1.foldl (extend caches) overlay →
      (∀ mutation ∈ before.1, mutation.Sound) →
      updates.foldlM (planUpdate caches) before = .ok planned →
        planned.2 = planned.1.foldl (extend caches) overlay ∧
          ∀ mutation ∈ planned.1, mutation.Sound := by
    intro updates
    induction updates with
    | nil =>
        intro before reached soundBefore plans
        cases plans
        exact ⟨reached, soundBefore⟩
    | cons update rest induction =>
        intro before reached soundBefore plans
        rw [List.foldlM_cons] at plans
        rcases bind_eq_ok.mp plans with ⟨next, step, later⟩
        rcases bind_eq_ok.mp step with ⟨system, planned, step⟩
        cases step
        have typed : before.2.putEntityType update.subjectId update.subjectType =
            (before.1 ++ [Mutation.entityType update.subjectId update.subjectType]).foldl
              (extend caches) overlay := by
          rw [List.foldl_append, ← reached]
          rfl
        have soundTyped : ∀ mutation ∈
            before.1 ++ [Mutation.entityType update.subjectId update.subjectType],
              mutation.Sound := by
          intro mutation member
          rcases List.mem_append.mp member with member | member
          · exact soundBefore mutation member
          · cases List.mem_singleton.mp member
            trivial
        have here := extend_foldl consistent viewed
          (before.1 ++ [Mutation.entityType update.subjectId update.subjectType])
          (by
            intro mutation member
            rcases List.mem_append.mp member with member | member
            · exact sound mutation member
            · exact soundTyped mutation member)
        rw [← typed] at here
        have spec := planSystemMutation_spec here.1 planned
        apply induction _ _ _ later
        · dsimp only
          rw [spec.1, typed, ← List.foldl_append, List.append_assoc, List.singleton_append]
        · intro mutation member
          rw [List.append_cons] at member
          rcases List.mem_append.mp member with member | member
          · exact soundTyped mutation member
          · exact spec.2 mutation member
  exact general updates ([], overlay) rfl nofun plans

/-! ## Slices -/

theorem entityAt_of_membershipAt {id : String} {row : EntityGroup}
    (last : lastSome (membershipAt id) mutations = some (.row row)) :
    lastSome (entityAt id) mutations = some row.entityId := by
  induction mutations with
  | nil => cases last
  | cons mutation rest induction =>
      rw [lastSome, Option.or_eq_some_iff] at last
      rw [lastSome]
      rcases last with later | here
      · rw [induction later, Option.some_or]
      · rw [entityAt_eq_none_of_untouched here.1, Option.none_or]
        have now := here.2
        cases mutation with
        | entityGroupPut other =>
            simp only [membershipAt] at now
            simp only [entityAt]
            split at now
            · next same =>
                cases now
                rw [if_pos same]
            · cases now
        | entityGroupDelete other =>
            simp only [membershipAt] at now
            split at now
            · cases now
            · cases now
        | _ => cases now

/-- A slice records a tombstone at the entity the cumulative overlay knows. -/
def sliceEntities (known : String → Option Term) (mutations : List Mutation) (id : String) :
    Option Term :=
  match lastSome (membershipAt id) mutations with
  | none => none
  | some (.row row) => some row.entityId
  | some .deleted => known id

theorem slice_view {cumulative : Overlay} (cumulativeConsistent : cumulative.Consistent)
    (mutations : List Mutation) (sound : ∀ mutation ∈ mutations, mutation.Sound)
    (filed : ∀ id entityId, lastSome (entityAt id) mutations = some entityId →
      (cumulative.view.entities id).isSome = true) :
    (slice cumulative mutations).Consistent ∧
      (slice cumulative mutations).view =
        { viewOf SystemCaches.empty [] mutations with
          entities := sliceEntities cumulative.view.entities mutations } := by
  induction mutations using List.reverseRecOn with
  | nil => exact ⟨Overlay.empty_consistent, rfl⟩
  | append_singleton mutations mutation induction =>
      have before := induction
        (fun other member => sound other (List.mem_append_left _ member))
        (by
          intro id entityId put
          cases here : entityAt id mutation with
          | none => exact filed id entityId (by rw [lastSome_concat, here, put]; rfl)
          | some other => exact filed id other (by rw [lastSome_concat, here]; rfl))
      have soundHere := sound mutation (List.mem_append_right _ (List.mem_singleton_self _))
      have step : (slice cumulative (mutations ++ [mutation])).Consistent ∧
          (slice cumulative (mutations ++ [mutation])).view =
            (slice cumulative mutations).view.merge
              (ownView (sliceEntities cumulative.view.entities [mutation]) mutation) := by
        rw [slice, List.foldl_concat, ← slice]
        cases mutation with
        | entityGroupDelete id =>
            apply deleteEntityGroup_view before.1
            · rw [Overlay.entityForMembership_eq cumulativeConsistent]
              cases known : cumulative.entityGroupEntities.get? id with
              | none => exact .inl rfl
              | some entityId => exact .inr (cumulativeConsistent.touched known).2
            · have own : sliceEntities cumulative.view.entities [.entityGroupDelete id] id =
                  cumulative.entityGroupEntities.get? id := by
                simp [sliceEntities, lastSome, membershipAt, Overlay.view]
              rw [own, Overlay.entityForMembership_eq cumulativeConsistent]
              cases known : cumulative.entityGroupEntities.get? id with
              | none => rfl
              | some entityId =>
                  have truthy := (cumulativeConsistent.touched known).2
                  rw [Option.getD_some,
                    Term.toOption_of_ne_null (Term.ne_null_of_truthy truthy)]
        | entityGroupPut row =>
            apply sliceMutation_view before.1 soundHere
            · intro id entityId names
              simp only [entityAt] at names
              split at names
              · next same =>
                  cases names
                  simp [sliceEntities, lastSome, membershipAt, same]
              · cases names
            · rintro _ ⟨⟩
        | _ =>
            apply sliceMutation_view before.1 soundHere
            · rintro _ _ ⟨⟩
            · rintro _ ⟨⟩
      refine ⟨step.1, ?_⟩
      rw [step.2, before.2]
      simp only [Overlay.View.merge, viewOf, ownView, lastSome_concat]
      congr 1
      funext id
      cases touched : membershipAt id mutation with
      | none => simp [sliceEntities, lastSome_concat, touched]
      | some planned =>
          simp only [Option.isSome_some, if_true, sliceEntities, lastSome_concat, touched,
            lastSome, Option.none_or, Option.some_or]
          cases planned with
          | row row => rfl
          | deleted =>
              cases known : cumulative.view.entities id with
              | some entityId => simp
              | none =>
                  cases earlier : lastSome (membershipAt id) mutations with
                  | none => simp
                  | some previous =>
                      cases previous with
                      | deleted => simp
                      | row row =>
                          have unfiled : entityAt id mutation = none := by
                            cases mutation with
                            | entityGroupPut row =>
                                simp only [membershipAt] at touched
                                split at touched
                                · cases touched
                                · cases touched
                            | _ => rfl
                          have isKnown := filed id row.entityId (by
                            rw [lastSome_concat, unfiled, entityAt_of_membershipAt earlier]
                            rfl)
                          rw [known] at isKnown
                          cases isKnown

/-! ## Plans -/

theorem keyed_memberAt (planned : Planned GroupMember) (reads : memberAt id mutation = some planned)
    : mutation.key = .groupMembersById id := by
  cases mutation with
  | _ => grind [memberAt, Mutation.key]

theorem keyed_membershipAt (planned : Planned EntityGroup)
    (reads : membershipAt id mutation = some planned) :
    mutation.key = .entityGroupsById id := by
  cases mutation with
  | _ => grind [membershipAt, Mutation.key]

theorem keyed_relationshipAt (planned : Planned Relationship)
    (reads : relationshipAt id mutation = some planned) :
    mutation.key = .relationshipsById id := by
  cases mutation with
  | _ => grind [relationshipAt, Mutation.key]

theorem keyed_typeAt (type : String) (reads : typeAt id mutation = some type)
    : mutation.key = .entityTypes id := by
  cases mutation with
  | _ => grind [typeAt, Mutation.key]

theorem keyed_entityAt (entityId : Term) (reads : entityAt id mutation = some entityId) :
    mutation.key = .entityGroupsById id := by
  cases mutation with
  | _ => grind [entityAt, Mutation.key]

theorem lastSome_kept {value : Mutation → Option α} {target : CacheKey}
    (one : ∀ mutation result, value mutation = some result → mutation.key = target)
    (mutations : List Mutation) :
    lastSome value (dropRepeats Mutation.key (fun _ => none) mutations) =
      lastSome value mutations := by
  have same := @lastSome_dropRepeats _ _ _ _ _ _ _ _ one (fun _ => none) none
    (fun _ _ impossible => nomatch impossible) mutations
  rwa [Option.or_none, Option.or_none] at same

theorem viewOf_kept (caches : SystemCaches) (mutations : List Mutation) :
    (fun earlier => viewOf caches earlier (dropRepeats Mutation.key (fun _ => none) mutations)) =
      fun earlier => viewOf caches earlier mutations := by
  funext earlier
  simp only [viewOf, recordedEntity, lastSome_append, lastSome_kept (keyed_memberAt _),
    lastSome_kept (keyed_membershipAt _), lastSome_kept (keyed_relationshipAt _),
    lastSome_kept (keyed_typeAt _), lastSome_kept (keyed_entityAt _)]

theorem plan_spec (consistent : overlay.Consistent)
    (viewed : overlay.view = viewOf caches [] earlier)
    (sound : ∀ mutation ∈ earlier, mutation.Sound)
    (plans : plan updates caches overlay = .ok planned) :
    (∀ mutation ∈ planned.1, mutation.Sound) ∧ (slice planned.2 planned.1).Consistent ∧
      (slice planned.2 planned.1).view = viewOf caches earlier planned.1 := by
  rcases bind_eq_ok.mp plans with ⟨⟨all, extended⟩, planUpdated, kept⟩
  cases kept
  have spec := planUpdates_spec consistent viewed sound planUpdated
  have soundBoth : ∀ mutation ∈ earlier ++ all, mutation.Sound := by
    intro mutation member
    rcases List.mem_append.mp member with member | member
    · exact sound mutation member
    · exact spec.2 mutation member
  have reached := extend_foldl consistent viewed all soundBoth
  rw [← spec.1] at reached
  have soundKept : ∀ mutation ∈ dropRepeats Mutation.key (fun _ => none) all,
      mutation.Sound := fun mutation member => spec.2 mutation (mem_of_mem_dropRepeats member)
  have entities : ∀ id, extended.view.entities id =
      if (lastSome (membershipAt id) (earlier ++ all)).isSome then
        recordedEntity caches (earlier ++ all) id else none :=
    fun id => congrFun (congrArg Overlay.View.entities reached.2) id
  have sliced := slice_view reached.1 _ soundKept (by
    intro id entityId put
    rw [lastSome_kept (keyed_entityAt id)] at put
    rw [entities, lastSome_append, Option.isSome_or, touched_of_entityAt put, Bool.true_or,
      if_pos rfl, recordedEntity, lastSome_append, put]
    rfl)
  refine ⟨soundKept, sliced.1, sliced.2.trans ?_⟩
  rw [congrFun (viewOf_kept caches all) earlier]
  simp only [viewOf, lastSome_kept (keyed_memberAt _), lastSome_kept (keyed_membershipAt _),
    lastSome_kept (keyed_relationshipAt _), lastSome_kept (keyed_typeAt _)]
  congr 1
  funext id
  rw [sliceEntities, lastSome_kept (keyed_membershipAt id)]
  cases last : lastSome (membershipAt id) all with
  | none => rfl
  | some planned =>
      simp only [Option.isSome_some, if_true]
      cases planned with
      | deleted =>
          simp only [entities, lastSome_append, last, Option.some_or, Option.isSome_some, if_true]
      | row row =>
          simp only [recordedEntity, lastSome_append, entityAt_of_membershipAt last,
            Option.some_or]

end Ebb.Access
