import Ebb.Access.LiveRows

namespace Ebb.Access

/-! The memberships by group: one pair of a group and an entity for all the rows that
file it, so that a row takes the pair with it though another row still stands. -/

/-- The pairs that rows file. -/
def Pairs (rows : String → Option EntityGroup) : Set (Term × Term) :=
  {pair | ∃ id row, rows id = some row ∧ (row.groupId, row.entityId) = pair}

/-- What a change takes from the rows, no row under another id files too. -/
def GoesAlone (before after : String → Option EntityGroup) : Prop :=
  ∀ id row, before id = some row → after id ≠ some row →
    ∀ other shared, before other = some shared →
      (shared.groupId, shared.entityId) = (row.groupId, row.entityId) → other = id

theorem GoesAlone.refl (rows : String → Option EntityGroup) : GoesAlone rows rows :=
  fun _ _ stands changed => absurd stands changed

theorem pairs_update (rows : String → Option EntityGroup) {id : String} {row : EntityGroup}
    (pair : Term × Term) :
    pair ∈ Pairs (Function.update rows id (some row)) ↔
      pair = (row.groupId, row.entityId) ∨
        ∃ other shared, other ≠ id ∧ rows other = some shared ∧
          (shared.groupId, shared.entityId) = pair := by
  constructor
  · rintro ⟨other, shared, stands, files⟩
    rw [Function.update_apply] at stands
    split at stands
    · cases stands
      exact .inl files.symm
    · next different => exact .inr ⟨other, shared, different, stands, files⟩
  · rintro (new | ⟨other, shared, different, stands, files⟩)
    · exact ⟨id, row, Function.update_self .., new.symm⟩
    · exact ⟨other, shared, by rw [Function.update_of_ne different, stands], files⟩

/-- Once the row of an id goes alone, the other rows file all pairs but its own. -/
theorem pairs_of_others {rows after : String → Option EntityGroup} {id : String}
    {previous : EntityGroup} (stands : rows id = some previous)
    (alone : GoesAlone rows after) (gone : after id ≠ some previous) (pair : Term × Term) :
    (∃ other shared, other ≠ id ∧ rows other = some shared ∧
        (shared.groupId, shared.entityId) = pair) ↔
      pair ∈ Pairs rows ∧ pair ≠ (previous.groupId, previous.entityId) := by
  constructor
  · rintro ⟨other, shared, different, here, files⟩
    refine ⟨⟨other, shared, here, files⟩, ?_⟩
    intro own
    exact different (alone id previous stands gone other shared here (files.trans own))
  · rintro ⟨⟨other, shared, here, files⟩, foreign⟩
    refine ⟨other, shared, ?_, here, files⟩
    intro same
    rw [same, stands] at here
    cases here
    exact foreign files.symm

namespace EntityGroupCache

/-- The table by group holds the pairs of the standing rows. -/
def FilesPairs (cache : EntityGroupCache) : Prop :=
  ∀ pair, pair ∈ cache.entityGroupsByGroup ↔ pair ∈ Pairs cache.getEntityGroup

theorem filesPairs_empty : FilesPairs .empty := by
  intro pair
  constructor
  · exact nofun
  · rintro ⟨id, row, stands, _⟩
    cases stands

variable {cache : EntityGroupCache} (files : cache.FilesPairs)
include files

theorem filesPairs_put {entry : EntityGroup}
    (alone : GoesAlone cache.getEntityGroup (cache.putEntityGroup entry).getEntityGroup) :
    (cache.putEntityGroup entry).FilesPairs := by
  by_cases ends : entry.entityId.truthy = true ∧ entry.groupId.truthy = true
  · have rows : (cache.putEntityGroup entry).getEntityGroup =
        Function.update cache.getEntityGroup entry.id (some entry) := by
      funext id
      simp only [getEntityGroup_put, Function.update_apply, ends, and_true]
    have table : (cache.putEntityGroup entry).entityGroupsByGroup =
        cache.replacePair entry := by
      rw [putEntityGroup, dif_pos ends]
    rw [rows] at alone
    intro pair
    rw [table, rows, pairs_update]
    cases found : cache.getEntityGroup entry.id with
    | none =>
        simp only [replacePair, found, Bag.mem_insert]
        rw [files]
        apply or_congr_right
        constructor
        · rintro ⟨other, shared, stands, filed⟩
          refine ⟨other, shared, ?_, stands, filed⟩
          intro same
          rw [same, found] at stands
          cases stands
        · rintro ⟨other, shared, _, stands, filed⟩
          exact ⟨other, shared, stands, filed⟩
    | some previous =>
        simp only [replacePair, found]
        split
        · next same =>
            subst same
            rw [Bag.mem_insert, files, ← pairs_update, Function.update_eq_self_iff.mpr found.symm]
            constructor
            · rintro (own | filed)
              · exact ⟨previous.id, previous, found, own.symm⟩
              · exact filed
            · exact .inr
        · next different =>
            have named := (cache.named found).1
            have gone : Function.update cache.getEntityGroup entry.id (some entry) entry.id ≠
                some previous := by
              rw [Function.update_self]
              exact fun same => different (Option.some.inj same).symm
            rw [Bag.mem_deleteObject, Bag.mem_insert, files,
              pairs_of_others found alone gone, or_and_right]
            apply or_congr_left
            apply and_iff_left_of_imp
            intro own same
            apply different
            rcases previous with ⟨id, entityId, groupId⟩
            rcases entry with ⟨entryId, entryEntity, entryGroup⟩
            rw [own] at same
            cases same
            cases named
            rfl
  · have kept : cache.putEntityGroup entry = cache := by
      rw [putEntityGroup, dif_neg ends]
    rw [kept]
    exact files

theorem filesPairs_delete {entryId : String}
    (alone : GoesAlone cache.getEntityGroup (cache.deleteEntityGroup entryId).getEntityGroup) :
    (cache.deleteEntityGroup entryId).FilesPairs := by
  have rows : ∀ id, (cache.deleteEntityGroup entryId).getEntityGroup id = _ :=
    cache.getEntityGroup_delete entryId
  cases found : cache.getEntityGroup entryId with
  | none =>
      have kept : cache.deleteEntityGroup entryId = cache := by
        rw [deleteEntityGroup]
        split
        · rfl
        · next stands =>
            rw [found] at stands
            cases stands
      rw [kept]
      exact files
  | some row =>
      have table : (cache.deleteEntityGroup entryId).entityGroupsByGroup =
          Bag.deleteObject row.groupId row.entityId cache.entityGroupsByGroup := by
        rw [deleteEntityGroup]
        split
        · next absent =>
            rw [found] at absent
            cases absent
        · next stands =>
            rw [found] at stands
            cases stands
            rfl
      intro pair
      rw [table, Bag.mem_deleteObject, files, ← pairs_of_others found alone]
      · constructor
        · rintro ⟨other, shared, different, stands, filed⟩
          exact ⟨other, shared, by rw [rows, if_neg different, stands], filed⟩
        · rintro ⟨other, shared, stands, filed⟩
          rw [rows] at stands
          split at stands
          · cases stands
          · next different => exact ⟨other, shared, different, stands, filed⟩
      · rw [rows, if_pos rfl]
        exact (Option.some_ne_none row).symm

end EntityGroupCache

/-! ## The Writer -/

theorem filesPairs_applyCacheMutation {caches : SystemCaches} {mutation : Mutation}
    (sound : mutation.Sound) (files : caches.entityGroups.FilesPairs)
    (alone : GoesAlone caches.rows.memberships (caches.rows.write mutation).memberships) :
    (applyCacheMutation caches mutation).entityGroups.FilesPairs := by
  rw [← rows_applyCacheMutation caches sound] at alone
  cases mutation with
  | entityGroupPut row => exact EntityGroupCache.filesPairs_put files alone
  | entityGroupDelete id => exact EntityGroupCache.filesPairs_delete files alone
  | _ => exact files

section Lists

variable {α : Type} {step : Rows → α → Rows} {rows : Rows}

/-- Each item of a list takes only memberships that go alone. -/
def AllAlone (step : Rows → α → Rows) (rows : Rows) (items : List α) : Prop :=
  ∀ before item after, items = before ++ item :: after →
    GoesAlone (before.foldl step rows).memberships
      (step (before.foldl step rows) item).memberships

theorem allAlone_nil : AllAlone step rows [] := by
  intro before item after split
  cases before with
  | _ => cases split

theorem AllAlone.first {items later : List α} (all : AllAlone step rows (items ++ later)) :
    AllAlone step rows items := by
  intro before item after split
  apply all before item (after ++ later)
  rw [split, List.append_assoc, List.cons_append]

theorem allAlone_concat {items : List α} {item : α} :
    AllAlone step rows (items ++ [item]) ↔ AllAlone step rows items ∧
      GoesAlone (items.foldl step rows).memberships
        (step (items.foldl step rows) item).memberships := by
  constructor
  · exact fun all => ⟨all.first, all items item [] rfl⟩
  · rintro ⟨all, last⟩ before other after split
    rcases List.eq_nil_or_concat after with nil | ⟨rest, final, concat⟩
    · rw [nil] at split
      rcases List.append_inj' split rfl with ⟨same, equal⟩
      cases equal
      exact same ▸ last
    · rw [concat, List.concat_eq_append, ← List.cons_append, ← List.append_assoc] at split
      exact all before other rest (List.append_inj' split rfl).1

theorem AllAlone.rest {items later : List α} (all : AllAlone step rows (items ++ later)) :
    AllAlone step (items.foldl step rows) later := by
  intro before item after split
  rw [← List.foldl_append]
  apply all (items ++ before) item after
  rw [split, List.append_assoc]

end Lists

theorem filesPairs_applyCacheMutations {caches : SystemCaches} {mutations : List Mutation}
    (sound : ∀ mutation ∈ mutations, mutation.Sound)
    (files : caches.entityGroups.FilesPairs)
    (alone : AllAlone Rows.write caches.rows mutations) :
    (applyCacheMutations caches mutations).entityGroups.FilesPairs := by
  induction mutations using List.reverseRecOn with
  | nil => exact files
  | append_singleton mutations mutation induction =>
      rw [allAlone_concat] at alone
      have earlier : ∀ other ∈ mutations, other.Sound :=
        fun other member => sound other (List.mem_append_left _ member)
      have rows := rows_applyCacheMutations caches earlier
      rw [applyCacheMutations, List.foldl_concat]
      apply filesPairs_applyCacheMutation
        (sound mutation (List.mem_append_right _ (List.mem_singleton_self _)))
        (induction earlier alone.1)
      rw [rows]
      exact alone.2

theorem allAlone_dropRepeats {rows : Rows} {mutations : List Mutation}
    (alone : AllAlone Rows.write rows mutations) :
    AllAlone Rows.write rows (dropRepeats Mutation.key (fun _ => none) mutations) := by
  induction mutations using List.reverseRecOn with
  | nil => exact alone
  | append_singleton mutations mutation induction =>
      rw [allAlone_concat] at alone
      rcases dropRepeats_concat Mutation.key (fun _ => none) mutations mutation with
        dropped | kept
      · rw [dropped]
        exact induction alone.1
      · rw [kept, allAlone_concat, write_dropRepeats]
        exact ⟨induction alone.1, alone.2⟩

section Plans

variable {caches : SystemCaches} {overlay : Overlay} {planned : List Mutation × Overlay}

/-- An Update plans one write to a system table at most. -/
theorem planSystemMutation_single {update : ValidatedUpdate}
    (plans : planSystemMutation caches overlay update = .ok planned) :
    planned.1 = [] ∨ ∃ mutation, planned.1 = [mutation] := by
  have either : ∀ {condition : Prop} [Decidable condition] {dropped kept : Overlay}
      {mutation : Mutation},
      (if condition then .ok ([], dropped) else .ok ([mutation], kept) : Outcome _) =
        .ok planned → planned.1 = [] ∨ ∃ mutation, planned.1 = [mutation] := by
    intro condition _ dropped kept mutation result
    split at result
    · cases result
      exact .inl rfl
    · cases result
      exact .inr ⟨mutation, rfl⟩
  rw [planSystemMutation] at plans
  split at plans
  · rw [planGroupMember] at plans
    split at plans
    · cases plans
      exact .inr ⟨_, rfl⟩
    · rcases bind_eq_ok.mp plans with ⟨_, _, plans⟩
      rcases bind_eq_ok.mp plans with ⟨_, _, plans⟩
      rcases bind_eq_ok.mp plans with ⟨_, _, plans⟩
      exact either plans
  · rw [planEntityGroup] at plans
    split at plans
    · cases plans
      exact .inr ⟨_, rfl⟩
    · rcases bind_eq_ok.mp plans with ⟨_, _, plans⟩
      rcases bind_eq_ok.mp plans with ⟨_, _, plans⟩
      exact either plans
  · rw [planRelationship] at plans
    split at plans
    · cases plans
      exact .inr ⟨_, rfl⟩
    · rcases bind_eq_ok.mp plans with ⟨_, _, plans⟩
      rcases bind_eq_ok.mp plans with ⟨_, _, plans⟩
      rcases bind_eq_ok.mp plans with ⟨_, _, plans⟩
      rcases bind_eq_ok.mp plans with ⟨_, _, plans⟩
      exact either plans
  · cases plans
    exact .inl rfl

theorem allAlone_planUpdates {updates : List ValidatedUpdate}
    (alone : AllAlone Rows.after caches.rows updates)
    (plans : planUpdates caches .empty updates = .ok planned) :
    AllAlone Rows.write caches.rows planned.1 := by
  induction updates using List.reverseRecOn generalizing planned with
  | nil =>
      cases plans
      exact allAlone_nil
  | append_singleton updates update induction =>
      have whole := plans
      rw [planUpdates, List.foldlM_append] at plans
      rcases bind_eq_ok.mp plans with ⟨before, planBefore, step⟩
      rw [List.foldlM_cons] at step
      rcases bind_eq_ok.mp step with ⟨next, step, finished⟩
      cases finished
      rcases bind_eq_ok.mp step with ⟨system, planSystem, step⟩
      cases step
      rw [allAlone_concat] at alone
      have noSound : ∀ mutation ∈ ([] : List Mutation), mutation.Sound := by simp
      have reached := write_planUpdates Overlay.empty_consistent rfl noSound planBefore
      have reachedAll := write_planUpdates Overlay.empty_consistent rfl noSound whole
      rw [List.nil_append, List.foldl_nil] at reached reachedAll
      have typed : AllAlone Rows.write caches.rows
          (before.1 ++ [.entityType update.subjectId update.subjectType]) :=
        allAlone_concat.mpr ⟨induction alone.1 planBefore, .refl _⟩
      dsimp only at reachedAll ⊢
      rcases planSystemMutation_single planSystem with none | ⟨mutation, one⟩
      · rw [none]
        exact typed
      · rw [one, List.foldl_append, reached, List.foldl_cons, List.foldl_concat] at reachedAll
        rw [one, List.append_cons, allAlone_concat, List.foldl_concat, reached]
        refine ⟨typed, ?_⟩
        rw [List.foldl_cons, List.foldl_nil] at reachedAll
        rw [reachedAll]
        exact alone.2

/-- The Writer's table by group after an Action of which each Update takes only
memberships that go alone. -/
theorem filesPairs_plan {updates : List ValidatedUpdate}
    (files : caches.entityGroups.FilesPairs)
    (alone : AllAlone Rows.after caches.rows updates)
    (plans : plan updates caches .empty = .ok planned) :
    (applyCacheMutations caches planned.1).entityGroups.FilesPairs := by
  rcases bind_eq_ok.mp plans with ⟨result, planUpdated, kept⟩
  cases kept
  have noSound : ∀ mutation ∈ ([] : List Mutation), mutation.Sound := by simp
  have spec := planUpdates_spec Overlay.empty_consistent rfl noSound planUpdated
  apply filesPairs_applyCacheMutations _ files
    (allAlone_dropRepeats (allAlone_planUpdates alone planUpdated))
  exact fun mutation member => spec.2 mutation (mem_of_mem_dropRepeats member)

end Plans

/-! ## Equal tables -/

/-- Two caches hold the same entries in every table, each table as the set or the bag it
is. -/
structure SameTables (left right : SystemCaches) : Prop where
  groupMembers : ∀ entry, entry ∈ left.groups.groupMembers ↔ entry ∈ right.groups.groupMembers
  groupMembersById : ∀ id,
    left.groups.groupMembersById.get? id = right.groups.groupMembersById.get? id
  groupMembersByGroup : ∀ entry,
    entry ∈ left.groups.groupMembersByGroup ↔ entry ∈ right.groups.groupMembersByGroup
  entityGroups : ∀ entry,
    entry ∈ left.entityGroups.entityGroups ↔ entry ∈ right.entityGroups.entityGroups
  entityGroupsById : ∀ id,
    left.entityGroups.entityGroupsById.get? id = right.entityGroups.entityGroupsById.get? id
  entityGroupsByGroup : ∀ pair, pair ∈ left.entityGroups.entityGroupsByGroup ↔
    pair ∈ right.entityGroups.entityGroupsByGroup
  relationships : ∀ entry,
    entry ∈ left.relationships.relationships ↔ entry ∈ right.relationships.relationships
  relationshipsById : ∀ id,
    left.relationships.relationshipsById.get? id = right.relationships.relationshipsById.get? id
  entityTypes : ∀ id, left.entityTypes.get? id = right.entityTypes.get? id

theorem sameTables_of_rows {left right : SystemCaches} (rows : left.rows = right.rows)
    (leftFiles : left.entityGroups.FilesPairs) (rightFiles : right.entityGroups.FilesPairs) :
    SameTables left right := by
  have members := congrFun (congrArg Rows.members rows)
  have memberships := congrFun (congrArg Rows.memberships rows)
  have related := congrFun (congrArg Rows.relationships rows)
  have types := congrFun (congrArg Rows.types rows)
  constructor
  case groupMembers =>
    rintro ⟨actorId, row⟩
    rw [left.groups.byActor, right.groups.byActor]
    rw [show left.groups.groupMembersById.get? row.id = _ from members row.id]
    rfl
  case groupMembersById => exact members
  case groupMembersByGroup =>
    rintro ⟨groupId, id⟩
    rw [left.groups.byGroup, right.groups.byGroup]
    rw [show left.groups.groupMembersById.get? id = _ from members id]
    rfl
  case entityGroups =>
    rintro ⟨entityId, row⟩
    rw [left.entityGroups.byEntity, right.entityGroups.byEntity]
    rw [show left.entityGroups.entityGroupsById.get? row.id = _ from memberships row.id]
    rfl
  case entityGroupsById => exact memberships
  case entityGroupsByGroup =>
    intro pair
    rw [leftFiles, rightFiles]
    rw [show left.entityGroups.getEntityGroup = right.entityGroups.getEntityGroup from
      funext memberships]
  case relationships =>
    rintro ⟨sourceId, row⟩
    rw [left.relationships.bySource, right.relationships.bySource]
    rw [show left.relationships.relationshipsById.get? row.id = _ from related row.id]
    rfl
  case relationshipsById => exact related
  case entityTypes => exact types

end Ebb.Access
