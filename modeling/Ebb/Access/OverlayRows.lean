import Ebb.Access.EntityIndex

namespace Ebb.Access

/-! What an overlay answers for one id, and how the memberships it records for an
entity follow its rows. -/

namespace Overlay

/-- The memberships recorded for each entity are those recorded at it. -/
def IdsMatch (overlay : Overlay) : Prop :=
  ∀ entityId id, id ∈ (overlay.entityGroupIds.get? entityId).getD [] ↔
    overlay.entityGroupEntities.get? id = some entityId

/-- Planned rows name both of their ends, membership rows are recorded at their
entity, and nothing is recorded for an id without a row or tombstone. -/
structure Consistent (overlay : Overlay) : Prop where
  ids : overlay.IdsMatch
  members : ∀ {id row}, overlay.groupMembersById.get? id = some (.row row) →
    row.actorId.truthy = true ∧ row.groupId.truthy = true
  rows : ∀ {id row}, overlay.entityGroupsById.get? id = some (.row row) →
    row.id = id ∧ row.entityId.truthy = true ∧ row.groupId.truthy = true ∧
      overlay.entityGroupEntities.get? id = some row.entityId
  touched : ∀ {id entityId}, overlay.entityGroupEntities.get? id = some entityId →
    (overlay.entityGroupsById.get? id).isSome = true ∧ entityId.truthy = true

theorem empty_consistent : Consistent .empty where
  ids := by simp [IdsMatch, empty]
  members := nofun
  rows := nofun
  touched := nofun

structure View where
  groupMembers : String → Option (Planned GroupMember)
  entityGroups : String → Option (Planned EntityGroup)
  relationships : String → Option (Planned Relationship)
  entityTypes : String → Option String
  entities : String → Option Term

def view (overlay : Overlay) : View where
  groupMembers := overlay.groupMembersById.get?
  entityGroups := overlay.entityGroupsById.get?
  relationships := overlay.relationshipsById.get?
  entityTypes := overlay.entityTypes.get?
  entities := overlay.entityGroupEntities.get?

variable {overlay : Overlay}

theorem entityForMembership_eq (consistent : overlay.Consistent) (id : String) :
    overlay.entityForMembership id = (overlay.entityGroupEntities.get? id).getD .null := by
  rw [entityForMembership]
  split
  · next row found =>
      have holds := consistent.rows found
      rw [holds.2.2.2, Term.or_null_of_truthy holds.2.1]
      rfl
  · rfl

/-! ## Dropping and adding a membership -/

theorem dropEntityMembership_rows (overlay : Overlay) (id : String) :
    (overlay.dropEntityMembership id).entityGroupsById = overlay.entityGroupsById ∧
      (overlay.dropEntityMembership id).groupMembersById = overlay.groupMembersById ∧
      (overlay.dropEntityMembership id).relationshipsById = overlay.relationshipsById ∧
      (overlay.dropEntityMembership id).entityTypes = overlay.entityTypes := by
  rw [dropEntityMembership]
  split
  · exact ⟨rfl, rfl, rfl, rfl⟩
  · exact ⟨rfl, rfl, rfl, rfl⟩

theorem getD_setIds (entityGroupIds : OrderedMap Term (List String)) (entityId other : Term)
    (ids : List String) :
    ((setIds entityGroupIds entityId ids).get? other).getD [] =
      if other = entityId then ids else (entityGroupIds.get? other).getD [] := by
  rw [setIds]
  split
  · next none =>
      rw [OrderedMap.get?_erase]
      split
      · rw [none]
        rfl
      · rfl
  · rw [OrderedMap.get?_set]
    split
    · rfl
    · rfl

theorem dropEntityMembership_spec (consistent : overlay.Consistent) (id : String) :
    (overlay.dropEntityMembership id).IdsMatch ∧
      ∀ other, (overlay.dropEntityMembership id).entityGroupEntities.get? other =
        if other = id then none else overlay.entityGroupEntities.get? other := by
  have owner := entityForMembership_eq consistent id
  rw [dropEntityMembership]
  split
  · next isNull =>
      have missing : overlay.entityGroupEntities.get? id = none := by
        cases found : overlay.entityGroupEntities.get? id with
        | none => rfl
        | some entityId =>
            rw [isNull, found] at owner
            exact absurd owner.symm (Term.ne_null_of_truthy (consistent.touched found).2)
      refine ⟨consistent.ids, fun other => ?_⟩
      split
      · next same => rw [same, missing]
      · rfl
  · next notNull =>
      have present : overlay.entityGroupEntities.get? id =
          some (overlay.entityForMembership id) := by
        cases found : overlay.entityGroupEntities.get? id with
        | none =>
            rw [found] at owner
            exact absurd owner notNull
        | some entityId =>
            rw [owner, found]
            rfl
      refine ⟨fun entityId other => ?_, fun other => OrderedMap.get?_erase _ _ _⟩
      simp only [OrderedMap.get?_erase, getD_setIds]
      have ids := consistent.ids entityId other
      by_cases gone : other = id
      · subst gone
        rw [if_pos rfl]
        split
        · simp
        · next different =>
            rw [ids, present]
            simp [eq_comm, different]
      · rw [if_neg gone, ← ids]
        split
        · next same => simp [gone, same]
        · rfl

theorem addEntityMembership_spec {overlay : Overlay} (matched : overlay.IdsMatch) {id : String}
    (unrecorded : overlay.entityGroupEntities.get? id = none) (entityId : Term) :
    (overlay.addEntityMembership id entityId).IdsMatch ∧
      ∀ other, (overlay.addEntityMembership id entityId).entityGroupEntities.get? other =
        if other = id then entityId.toOption else overlay.entityGroupEntities.get? other := by
  by_cases isNull : entityId = .null
  · subst isNull
    refine ⟨matched, fun other => ?_⟩
    split
    · next same =>
        rw [same]
        exact unrecorded
    · rfl
  · have added : overlay.addEntityMembership id entityId =
        { overlay with
          entityGroupIds := overlay.entityGroupIds.set entityId
            (if id ∈ (overlay.entityGroupIds.get? entityId).getD [] then
              (overlay.entityGroupIds.get? entityId).getD []
            else (overlay.entityGroupIds.get? entityId).getD [] ++ [id])
          entityGroupEntities := overlay.entityGroupEntities.set id entityId } := by
      cases entityId with
      | null => exact absurd rfl isNull
      | _ => rfl
    rw [added]
    refine ⟨fun owner other => ?_, fun other => ?_⟩
    · have absent : id ∉ (overlay.entityGroupIds.get? entityId).getD [] := by
        rw [matched, unrecorded]
        exact nofun
      simp only [OrderedMap.get?_set, if_neg absent]
      by_cases same : other = id
      · subst same
        rw [if_pos rfl]
        split
        · next equal => simp [equal]
        · next different =>
            rw [matched, unrecorded]
            exact iff_of_false nofun fun equal => different (Option.some.inj equal).symm
      · rw [if_neg same, ← matched]
        split
        · next equal => simp [same, equal]
        · rfl
    · rw [OrderedMap.get?_set, Term.toOption_of_ne_null isNull]

theorem addEntityMembership_rows (overlay : Overlay) (id : String) (entityId : Term) :
    (overlay.addEntityMembership id entityId).entityGroupsById = overlay.entityGroupsById ∧
      (overlay.addEntityMembership id entityId).groupMembersById = overlay.groupMembersById ∧
      (overlay.addEntityMembership id entityId).relationshipsById = overlay.relationshipsById ∧
      (overlay.addEntityMembership id entityId).entityTypes = overlay.entityTypes := by
  cases entityId with
  | _ => exact ⟨rfl, rfl, rfl, rfl⟩

/-! ## Writing a row -/

theorem get?_set_eq_update [DecidableEq α] (map : OrderedMap α β) (key : α) (value : β) :
    (map.set key value).get? = Function.update map.get? key (some value) := by
  funext other
  rw [OrderedMap.get?_set, Function.update_apply]

theorem writeMembership_spec (consistent : overlay.Consistent) (id : String)
    (planned : Planned EntityGroup) (entityId : Term)
    (named : ∀ row, planned = .row row → row.id = id ∧ row.entityId.truthy = true ∧
      row.groupId.truthy = true ∧ entityId = row.entityId)
    (truthy : entityId = .null ∨ entityId.truthy = true) :
    let dropped := overlay.dropEntityMembership id
    let written := { dropped with
      entityGroupsById := dropped.entityGroupsById.set id planned }.addEntityMembership id entityId
    written.Consistent ∧
      written.view = { overlay.view with
        entityGroups := Function.update overlay.view.entityGroups id (some planned)
        entities := Function.update overlay.view.entities id entityId.toOption } := by
  intro dropped written
  have droppedSpec := dropEntityMembership_spec consistent id
  have droppedRows := dropEntityMembership_rows overlay id
  have unrecorded : dropped.entityGroupEntities.get? id = none := by
    rw [droppedSpec.2, if_pos rfl]
  have added := @addEntityMembership_spec
    { dropped with entityGroupsById := dropped.entityGroupsById.set id planned }
    droppedSpec.1 id unrecorded entityId
  have addedRows := addEntityMembership_rows
    { dropped with entityGroupsById := dropped.entityGroupsById.set id planned } id entityId
  have members : written.groupMembersById = overlay.groupMembersById :=
    addedRows.2.1.trans droppedRows.2.1
  have rows : ∀ other, written.entityGroupsById.get? other =
      if other = id then some planned else overlay.entityGroupsById.get? other := by
    intro other
    rw [addedRows.1, OrderedMap.get?_set, droppedRows.1]
  have entities : ∀ other, written.entityGroupEntities.get? other =
      if other = id then entityId.toOption else overlay.entityGroupEntities.get? other := by
    intro other
    rw [added.2]
    split
    · rfl
    · next different => exact (droppedSpec.2 other).trans (if_neg different)
  constructor
  · refine ⟨added.1, ?_, ?_, ?_⟩
    · intro other row found
      rw [members] at found
      exact consistent.members found
    · intro other row found
      rw [rows] at found
      rw [entities]
      split at found
      · next same =>
          cases found
          have holds := named row rfl
          rw [if_pos same, holds.2.2.2,
            Term.toOption_of_ne_null (Term.ne_null_of_truthy holds.2.1)]
          exact ⟨holds.1.trans same.symm, holds.2.1, holds.2.2.1, rfl⟩
      · next different =>
          rw [if_neg different]
          exact consistent.rows found
    · intro other owner found
      rw [entities] at found
      rw [rows]
      split at found
      · next same =>
          rw [if_pos same]
          rcases truthy with isNull | truthy
          · rw [isNull] at found
            cases found
          · rw [Term.toOption_of_ne_null (Term.ne_null_of_truthy truthy)] at found
            cases found
            exact ⟨rfl, truthy⟩
      · next different =>
          rw [if_neg different]
          exact consistent.touched found
  · have rowsView : written.entityGroupsById.get? =
        Function.update overlay.entityGroupsById.get? id (some planned) := by
      funext other
      rw [rows, Function.update_apply]
    have entitiesView : written.entityGroupEntities.get? =
        Function.update overlay.entityGroupEntities.get? id entityId.toOption := by
      funext other
      rw [entities, Function.update_apply]
    have relationships : written.relationshipsById = overlay.relationshipsById :=
      addedRows.2.2.1.trans droppedRows.2.2.1
    have types : written.entityTypes = overlay.entityTypes :=
      addedRows.2.2.2.trans droppedRows.2.2.2
    simp only [view, members, rowsView, relationships, types, entitiesView]

theorem putEntityGroup_spec (consistent : overlay.Consistent) {row : EntityGroup}
    (ends : row.entityId.truthy = true ∧ row.groupId.truthy = true) :
    (overlay.putEntityGroup row.id row).Consistent ∧
      (overlay.putEntityGroup row.id row).view = { overlay.view with
        entityGroups := Function.update overlay.view.entityGroups row.id (some (.row row))
        entities := Function.update overlay.view.entities row.id (some row.entityId) } := by
  have owner : row.entityId.or .null = row.entityId := Term.or_null_of_truthy ends.1
  have spec := writeMembership_spec consistent row.id (.row row) (row.entityId.or .null)
    (by
      intro other equal
      cases equal
      exact ⟨rfl, ends.1, ends.2, owner⟩)
    (.inr (by rw [owner]; exact ends.1))
  rw [owner, Term.toOption_of_ne_null (Term.ne_null_of_truthy ends.1)] at spec
  rw [putEntityGroup, owner]
  exact spec

theorem deleteEntityGroup_spec (consistent : overlay.Consistent) (id : String) {entityId : Term}
    (truthy : entityId = .null ∨ entityId.truthy = true) :
    (overlay.deleteEntityGroup id entityId).Consistent ∧
      (overlay.deleteEntityGroup id entityId).view = { overlay.view with
        entityGroups := Function.update overlay.view.entityGroups id (some .deleted)
        entities := Function.update overlay.view.entities id
          (entityId.toOption.or (overlay.view.entities id)) } := by
  have owner := entityForMembership_eq consistent id
  have recorded : overlay.entityForMembership id = .null ∨
      (overlay.entityForMembership id).truthy = true := by
    rw [owner]
    cases found : overlay.entityGroupEntities.get? id with
    | none => exact .inl rfl
    | some other => exact .inr (consistent.touched found).2
  have asOption : (entityId.or (overlay.entityForMembership id)).toOption =
      entityId.toOption.or (overlay.view.entities id) := by
    simp only [view]
    rcases truthy with isNull | truthy
    · rw [isNull, Term.or_of_not_truthy rfl, owner]
      cases found : overlay.entityGroupEntities.get? id with
      | none => rfl
      | some other =>
          exact Term.toOption_of_ne_null (Term.ne_null_of_truthy (consistent.touched found).2)
    · rw [Term.or_of_truthy truthy, Term.toOption_of_ne_null (Term.ne_null_of_truthy truthy)]
      rfl
  have spec := writeMembership_spec consistent id .deleted
    (entityId.or (overlay.entityForMembership id)) (fun row equal => nomatch equal)
    (by
      rcases truthy with isNull | truthy
      · rw [isNull, Term.or_of_not_truthy rfl]
        exact recorded
      · rw [Term.or_of_truthy truthy]
        exact .inr truthy)
  rw [asOption] at spec
  exact spec

theorem putGroupMember_spec {overlay : Overlay} (consistent : overlay.Consistent)
    (id : String) {planned : Planned GroupMember}
    (named : ∀ row, planned = .row row → row.actorId.truthy = true ∧ row.groupId.truthy = true) :
    (overlay.putGroupMember id planned).Consistent ∧
      (overlay.putGroupMember id planned).view = { overlay.view with
        groupMembers := Function.update overlay.view.groupMembers id (some planned) } := by
  constructor
  · refine ⟨consistent.ids, ?_, consistent.rows, consistent.touched⟩
    intro other row found
    rw [putGroupMember, OrderedMap.get?_set] at found
    split at found
    · exact named row (Option.some.inj found)
    · exact consistent.members found
  · simp only [view, putGroupMember, get?_set_eq_update]

theorem putRelationship_spec (consistent : overlay.Consistent) (id : String)
    (planned : Planned Relationship) :
    (overlay.putRelationship id planned).Consistent ∧
      (overlay.putRelationship id planned).view = { overlay.view with
        relationships := Function.update overlay.view.relationships id (some planned) } := by
  constructor
  · exact ⟨consistent.ids, consistent.members, consistent.rows, consistent.touched⟩
  · simp only [view, putRelationship, get?_set_eq_update]

theorem putEntityType_spec (consistent : overlay.Consistent) (id type : String) :
    (overlay.putEntityType id type).Consistent ∧
      (overlay.putEntityType id type).view = { overlay.view with
        entityTypes := Function.update overlay.view.entityTypes id (some type) } := by
  constructor
  · exact ⟨consistent.ids, consistent.members, consistent.rows, consistent.touched⟩
  · simp only [view, putEntityType, get?_set_eq_update]

/-! ## Merging -/

theorem record_eq_addEntityMembership (overlay : Overlay) (id : String) {entityId : Term}
    (present : entityId ≠ .null) :
    { overlay with
      entityGroupEntities := overlay.entityGroupEntities.set id entityId }.addEntityMembership
        id entityId = overlay.addEntityMembership id entityId := by
  cases entityId with
  | null => exact absurd rfl present
  | _ => simp only [addEntityMembership, OrderedMap.set_set]

theorem addAll_spec (entries : List (String × Term)) (nodup : (entries.map Prod.fst).Nodup)
    (truthy : ∀ entry ∈ entries, entry.2.truthy = true) {overlay : Overlay}
    (matched : overlay.IdsMatch)
    (unrecorded : ∀ entry ∈ entries, overlay.entityGroupEntities.get? entry.1 = none) :
    let merged := entries.foldl (fun merged entry =>
      { merged with
        entityGroupEntities :=
          merged.entityGroupEntities.set entry.1 entry.2 }.addEntityMembership entry.1 entry.2)
      overlay
    merged.IdsMatch ∧
      (∀ other, merged.entityGroupEntities.get? other =
        (entries.lookup other).or (overlay.entityGroupEntities.get? other)) ∧
      merged.entityGroupsById = overlay.entityGroupsById ∧
      merged.groupMembersById = overlay.groupMembersById ∧
      merged.relationshipsById = overlay.relationshipsById ∧
      merged.entityTypes = overlay.entityTypes := by
  induction entries generalizing overlay with
  | nil => exact ⟨matched, fun _ => rfl, rfl, rfl, rfl, rfl⟩
  | cons entry rest induction =>
      rcases entry with ⟨id, entityId⟩
      have parts := List.nodup_cons.mp nodup
      have present := truthy (id, entityId) List.mem_cons_self
      have added := addEntityMembership_spec matched
        (unrecorded (id, entityId) List.mem_cons_self) entityId
      have restUnrecorded : ∀ entry ∈ rest,
          (overlay.addEntityMembership id entityId).entityGroupEntities.get? entry.1 = none := by
        intro entry member
        have different : entry.1 ≠ id := fun same =>
          parts.1 (List.mem_map.mpr ⟨entry, member, same⟩)
        rw [added.2, if_neg different]
        exact unrecorded entry (List.mem_cons_of_mem _ member)
      have later := induction parts.2
        (fun entry member => truthy entry (List.mem_cons_of_mem _ member)) added.1 restUnrecorded
      have rows := addEntityMembership_rows overlay id entityId
      simp only [List.foldl_cons,
        record_eq_addEntityMembership overlay id (Term.ne_null_of_truthy present)]
      refine ⟨later.1, fun other => ?_, later.2.2.1.trans rows.1, later.2.2.2.1.trans rows.2.1,
        later.2.2.2.2.1.trans rows.2.2.1, later.2.2.2.2.2.trans rows.2.2.2⟩
      rw [later.2.1, added.2, lookup_cons_eq,
        Term.toOption_of_ne_null (Term.ne_null_of_truthy present)]
      by_cases same : other = id
      · have absent : rest.lookup other = none := by
          rw [← Option.not_isSome_iff_eq_none, lookup_isSome_iff_mem_keys]
          exact same ▸ parts.1
        rw [if_pos same, if_pos same, absent]
        rfl
      · rw [if_neg same, if_neg same]

def View.merge (base later : View) : View where
  groupMembers id := (later.groupMembers id).or (base.groupMembers id)
  entityGroups id := (later.entityGroups id).or (base.entityGroups id)
  relationships id := (later.relationships id).or (base.relationships id)
  entityTypes id := (later.entityTypes id).or (base.entityTypes id)
  entities id := (later.entities id).or (base.entities id)

theorem merge_spec {base : Overlay} (baseConsistent : base.Consistent)
    (consistent : overlay.Consistent) :
    (base.merge overlay).Consistent ∧
      (base.merge overlay).view = base.view.merge overlay.view := by
  have truthyOf : ∀ {id entityId},
      (base.entityGroupEntities.merge overlay.entityGroupEntities).get? id = some entityId →
        entityId.truthy = true := by
    intro id entityId found
    rw [OrderedMap.get?_merge, Option.or_eq_some_iff] at found
    rcases found with later | earlier
    · exact (consistent.touched later).2
    · exact (baseConsistent.touched earlier.2).2
  have added := @addAll_spec (base.entityGroupEntities.merge overlay.entityGroupEntities).entries
    (base.entityGroupEntities.merge overlay.entityGroupEntities).nodup
    (fun entry member => truthyOf ((OrderedMap.get?_eq_some_iff _ _ _).mpr member))
    { groupMembersById := base.groupMembersById.merge overlay.groupMembersById
      entityGroupsById := base.entityGroupsById.merge overlay.entityGroupsById
      relationshipsById := base.relationshipsById.merge overlay.relationshipsById
      entityTypes := base.entityTypes.merge overlay.entityTypes
      entityGroupIds := .empty
      entityGroupEntities := .empty }
    (by simp [IdsMatch]) (fun _ _ => rfl)
  have members : (base.merge overlay).groupMembersById =
      base.groupMembersById.merge overlay.groupMembersById := added.2.2.2.1
  have rows : (base.merge overlay).entityGroupsById =
      base.entityGroupsById.merge overlay.entityGroupsById := added.2.2.1
  have relationships : (base.merge overlay).relationshipsById =
      base.relationshipsById.merge overlay.relationshipsById := added.2.2.2.2.1
  have types : (base.merge overlay).entityTypes =
      base.entityTypes.merge overlay.entityTypes := added.2.2.2.2.2
  have entities : ∀ id, (base.merge overlay).entityGroupEntities.get? id =
      (overlay.entityGroupEntities.get? id).or (base.entityGroupEntities.get? id) := by
    intro id
    rw [← OrderedMap.get?_merge]
    exact (added.2.1 id).trans (Option.or_none)
  constructor
  · refine ⟨added.1, ?_, ?_, ?_⟩
    · intro id row found
      rw [members, OrderedMap.get?_merge, Option.or_eq_some_iff] at found
      rcases found with later | earlier
      · exact consistent.members later
      · exact baseConsistent.members earlier.2
    · intro id row found
      rw [rows, OrderedMap.get?_merge, Option.or_eq_some_iff] at found
      rw [entities]
      rcases found with later | earlier
      · have holds := consistent.rows later
        exact ⟨holds.1, holds.2.1, holds.2.2.1, by rw [holds.2.2.2]; rfl⟩
      · have holds := baseConsistent.rows earlier.2
        have unrecorded : overlay.entityGroupEntities.get? id = none := by
          cases recorded : overlay.entityGroupEntities.get? id with
          | none => rfl
          | some entityId =>
              have touched := (consistent.touched recorded).1
              rw [earlier.1] at touched
              cases touched
        exact ⟨holds.1, holds.2.1, holds.2.2.1, by rw [unrecorded, holds.2.2.2]; rfl⟩
    · intro id entityId found
      rw [entities, Option.or_eq_some_iff] at found
      rw [rows, OrderedMap.get?_merge]
      rcases found with later | earlier
      · have touched := consistent.touched later
        exact ⟨by rw [Option.isSome_or, touched.1]; rfl, touched.2⟩
      · have touched := baseConsistent.touched earlier.2
        exact ⟨by rw [Option.isSome_or, touched.1, Bool.or_true], touched.2⟩
  · have membersView : (base.merge overlay).groupMembersById.get? =
        (base.view.merge overlay.view).groupMembers := by
      funext id
      rw [members, OrderedMap.get?_merge]
      rfl
    have rowsView : (base.merge overlay).entityGroupsById.get? =
        (base.view.merge overlay.view).entityGroups := by
      funext id
      rw [rows, OrderedMap.get?_merge]
      rfl
    have relationshipsView : (base.merge overlay).relationshipsById.get? =
        (base.view.merge overlay.view).relationships := by
      funext id
      rw [relationships, OrderedMap.get?_merge]
      rfl
    have typesView : (base.merge overlay).entityTypes.get? =
        (base.view.merge overlay.view).entityTypes := by
      funext id
      rw [types, OrderedMap.get?_merge]
      rfl
    have entitiesView : (base.merge overlay).entityGroupEntities.get? =
        (base.view.merge overlay.view).entities := funext entities
    rw [view, membersView, rowsView, relationshipsView, typesView, entitiesView]

end Overlay

end Ebb.Access
