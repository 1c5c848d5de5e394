import Ebb.Access.AcceptedActions
import Ebb.Access.LiveRows

namespace Ebb.Access

namespace Authorizer

open PermissionHelper

/-! Which entities still have a group once the accepted Actions of a request are
committed. -/

/-! ## The request's membership deltas -/

theorem mem_mergeWith {resolve : List β → List β → List β}
    (mem_resolve : ∀ first second value, value ∈ resolve first second ↔
      value ∈ first ∨ value ∈ second) [DecidableEq α]
    (earlier later : OrderedMap α (List β)) (key : α) (value : β) :
    value ∈ ((earlier.mergeWith resolve later).get? key).getD [] ↔
      value ∈ (earlier.get? key).getD [] ∨ value ∈ (later.get? key).getD [] := by
  rw [OrderedMap.get?_mergeWith]
  cases earlier.get? key with
  | none =>
      cases later.get? key with
      | none => simp
      | some new => simp
  | some old =>
      cases later.get? key with
      | none => simp
      | some new => simp [mem_resolve]

theorem sourceGroups_tableOpts (caches : SystemCaches) (entityId : Term) :
    EntityIndex.sourceGroups (tableOpts caches) entityId =
      ((caches.entityGroups.entityGroupEntries entityId).map (·.groupId)).eraseDups := by
  cases entityId with
  | _ => rfl

section Accepted

variable {caches : SystemCaches} {actorId : String} {actions : List ValidatedAction}
  {sim : RequestSim}

theorem updatesOf_concat (actions : List ValidatedAction) (action : ValidatedAction) :
    updatesOf (actions ++ [action]) = updatesOf actions ++ action.updates := by
  rw [updatesOf, updatesOf, List.flatMap_append, List.flatMap_singleton]

section

variable (accepts : acceptAll caches actorId actions = .ok sim)
include accepts

theorem files_of_mem_additions {entityId groupId : Term}
    (added : groupId ∈ (sim.additions.get? entityId).getD []) :
    ∃ update ∈ updatesOf actions, files entityId groupId update := by
  induction actions using List.reverseRecOn generalizing sim with
  | nil =>
      cases accepts
      cases added
  | append_singleton actions action induction =>
      rcases acceptAll_concat accepts with ⟨before, acceptsBefore, authorized⟩
      have step := accepts_of_authorizeAction authorized
      rw [step.additions, mergeAdditions, mem_mergeWith
        (fun _ _ _ => by rw [List.mem_eraseDups, List.mem_append])] at added
      rw [updatesOf_concat]
      rcases added with earlier | here
      · rcases induction acceptsBefore earlier with ⟨update, member, filed⟩
        exact ⟨update, List.mem_append_left _ member, filed⟩
      · rcases mem_buildIntraActionContext.mp here with ⟨_, _, update, member, filed⟩
        exact ⟨update, List.mem_append_right _ member, filed⟩

theorem mem_removals_of_delete {update : ValidatedUpdate}
    (member : update ∈ deletesOf "entityGroup" (updatesOf actions)) {row : EntityGroup}
    (stored : caches.entityGroups.getEntityGroup update.subjectId = some row) :
    row.groupId ∈ (sim.removals.get? row.entityId).getD [] := by
  induction actions using List.reverseRecOn generalizing sim with
  | nil => cases member
  | append_singleton actions action induction =>
      rcases acceptAll_concat accepts with ⟨before, acceptsBefore, authorized⟩
      have step := accepts_of_authorizeAction authorized
      rw [step.removals, mergeRemovals, mem_mergeWith (fun _ _ _ => List.mem_append)]
      rw [updatesOf_concat, mem_deletesOf, List.mem_append] at member
      rcases member with ⟨earlier | here, isDelete⟩
      · exact .inl (induction acceptsBefore (mem_deletesOf.mpr ⟨earlier, isDelete⟩))
      · exact .inr (mem_deletedGroupIds (mem_deletesOf.mpr ⟨here, isDelete⟩) stored)

theorem resultingGroups_ne_nil {entityId : Term}
    (touched : sim.additions.contains entityId || sim.removals.contains entityId) :
    resultingGroups entityId sim.additions sim.removals (tableOpts caches) ≠ [] := by
  cases actions using List.reverseRecOn with
  | nil =>
      cases accepts
      cases touched
  | append_singleton actions action =>
      rcases acceptAll_concat accepts with ⟨before, _, authorized⟩
      exact (accepts_of_authorizeAction authorized).owned entityId touched

theorem membershipAccepted_of_acceptAll {update : ValidatedUpdate}
    (member : update ∈ updatesOf actions) (type : update.subjectType = "entityGroup")
    : MembershipAccepted caches update := by
  induction actions using List.reverseRecOn generalizing sim with
  | nil => cases member
  | append_singleton actions action induction =>
      rcases acceptAll_concat accepts with ⟨before, acceptsBefore, authorized⟩
      rw [updatesOf_concat] at member
      rcases List.mem_append.mp member with earlier | here
      · exact induction acceptsBefore earlier
      · exact membershipAccepted_of_checkUpdate type
          ((accepts_of_authorizeAction authorized).checked update here)

end

end Accepted

/-! ## Puts that a later Update undoes -/

def writesMembership (id : String) (update : ValidatedUpdate) : Bool :=
  update.subjectType = "entityGroup" ∧ update.subjectId = id

def filesEntity (entityId : Term) (update : ValidatedUpdate) : Bool :=
  isPutOf update "entityGroup" ∧ getDataField update "entity_id" = entityId

/-- `later` deletes the row that `update` put, or puts it at another entity. -/
def undoes (update later : ValidatedUpdate) : Bool :=
  writesMembership update.subjectId later ∧
    (later.method = .delete ∨
      getDataField later "entity_id" ≠ getDataField update "entity_id")

def undonePut (entityId : Term) (updates : List ValidatedUpdate) : Bool :=
  anyTail (fun update after => filesEntity entityId update && after.any (undoes update)) updates

def keptPut (entityId : Term) (updates : List ValidatedUpdate) : Bool :=
  anyTail (fun update after => filesEntity entityId update && !after.any (undoes update)) updates

/-- The tables hold a membership row of the entity that no Update names. -/
def untouchedRow (caches : SystemCaches) (entityId : Term) (updates : List ValidatedUpdate) :
    Bool :=
  (caches.entityGroups.entityGroupEntries entityId).any fun row =>
    !updates.any (writesMembership row.id)

/-- An entity that loses a row it was put in by the request has another one: put and
not undone, or in the tables and not named. -/
def UndonePutsCovered (caches : SystemCaches) (updates : List ValidatedUpdate) : Prop :=
  ∀ entityId, undonePut entityId updates = true →
    keptPut entityId updates = true ∨ untouchedRow caches entityId updates = true

def Owned (caches : SystemCaches) (entityId : Term) : Prop :=
  caches.entityGroups.entityGroupEntries entityId ≠ []

/-- Every entity that had an owning group, or that an Update filed in one, has one in
the tables `after`. -/
def KeepsOwners (caches : SystemCaches) (updates : List ValidatedUpdate)
    (after : SystemCaches) : Prop :=
  ∀ entityId, Owned caches entityId ∨ updates.any (filesEntity entityId) = true →
    Owned after entityId

theorem owned_iff {caches : SystemCaches} {entityId : Term} :
    Owned caches entityId ↔ ∃ id row, caches.rows.memberships id = some row ∧
      row.entityId = entityId := by
  constructor
  · intro owned
    rcases List.exists_mem_of_ne_nil _ owned with ⟨row, member⟩
    rw [EntityGroupCache.mem_entityGroupEntries] at member
    exact ⟨row.id, row, member⟩
  · intro found
    rcases found with ⟨id, row, stored, entity⟩
    have sameId := (caches.entityGroups.named stored).1
    exact List.ne_nil_of_mem ((EntityGroupCache.mem_entityGroupEntries _ _ _).mpr
      ⟨sameId ▸ stored, entity⟩)

/-! ## The rows the Updates leave -/

section Left

variable {caches : SystemCaches} {rows : Rows} {updates : List ValidatedUpdate} {id : String}

theorem memberships_untouched (untouched : ∀ update ∈ updates, writesMembership id update = false) :
    (updates.foldl Rows.after rows).memberships id = rows.memberships id := by
  induction updates generalizing rows with
  | nil => rfl
  | cons update rest induction =>
      rw [List.foldl_cons, induction fun other member =>
        untouched other (List.mem_cons_of_mem _ member)]
      have other := untouched update List.mem_cons_self
      rw [writesMembership, decide_eq_false_iff_not] at other
      exact if_neg other

theorem membershipAfter_put {update : ValidatedUpdate}
    (accepted : MembershipAccepted caches update) (put : update.method = .put)
    (row : Option EntityGroup) :
    membershipAfter update row = some ⟨update.subjectId, fieldOf update.data "entity_id",
      fieldOf update.data "group_id"⟩ := by
  have ends := accepted.put put
  simp only [membershipAfter, put, patchedRow, Option.map_none, Option.getD_none,
    Term.or_null_of_truthy ends.1, Term.or_null_of_truthy ends.2.1]
  rw [if_neg]
  rw [not_or]
  exact ⟨Term.ne_null_of_truthy ends.1, Term.ne_null_of_truthy ends.2.1⟩

theorem memberships_kept (accepted : ∀ update ∈ updates, update.subjectType = "entityGroup" →
      MembershipAccepted caches update) {entityId : Term}
    (filed : ∃ row, rows.memberships id = some row ∧ row.entityId = entityId)
    (kept : ∀ update ∈ updates, writesMembership id update = true →
      update.method ≠ .delete ∧ getDataField update "entity_id" = entityId) :
    ∃ row, (updates.foldl Rows.after rows).memberships id = some row ∧
      row.entityId = entityId := by
  induction updates generalizing rows with
  | nil => exact filed
  | cons update rest induction =>
      rw [List.foldl_cons]
      apply induction (fun other member => accepted other (List.mem_cons_of_mem _ member)) _
        fun other member => kept other (List.mem_cons_of_mem _ member)
      simp only [Rows.after]
      split
      · next names =>
          have holds := accepted update List.mem_cons_self names.1
          have here := kept update List.mem_cons_self (decide_eq_true names)
          have put : update.method = .put := by
            cases method : update.method with
            | put => rfl
            | patch => exact absurd method holds.noPatch
            | delete => exact absurd method here.1
          rw [membershipAfter_put holds put]
          exact ⟨_, rfl, here.2⟩
      · exact filed

theorem kept_or_untouched (accepted : ∀ update ∈ updates, update.subjectType = "entityGroup" →
      MembershipAccepted caches update) {row : EntityGroup}
    (left : (updates.foldl Rows.after rows).memberships id = some row) :
    (∃ before update after, updates = before ++ update :: after ∧ update.subjectId = id ∧
        filesEntity row.entityId update = true ∧ after.any (undoes update) = false) ∨
      (rows.memberships id = some row ∧
        ∀ update ∈ updates, writesMembership id update = false) := by
  induction updates using List.reverseRecOn with
  | nil => exact .inr ⟨left, nofun⟩
  | append_singleton updates update induction =>
      rw [List.foldl_concat] at left
      simp only [Rows.after] at left
      split at left
      · next names =>
          have holds := accepted update (List.mem_append_right _ (List.mem_singleton_self _))
            names.1
          cases method : update.method with
          | put =>
              rw [membershipAfter_put holds method] at left
              cases left
              exact .inl ⟨updates, update, [], rfl, names.2,
                decide_eq_true ⟨isPutOf_iff.mpr ⟨names.1, method⟩, rfl⟩, rfl⟩
          | patch => exact absurd method holds.noPatch
          | delete =>
              simp only [membershipAfter, method] at left
              cases left
      · next unnamed =>
          rcases induction (fun other member => accepted other (List.mem_append_left _ member))
            left with ⟨before, put, after, split, sameId, filed, kept⟩ | ⟨stored, untouched⟩
          · refine .inl ⟨before, put, after ++ [update], by rw [split]; simp, sameId, filed, ?_⟩
            rw [List.any_append, kept, Bool.false_or, List.any_cons, List.any_nil,
              Bool.or_false, undoes, decide_eq_false_iff_not, sameId]
            intro both
            exact unnamed (of_decide_eq_true both.1)
          · refine .inr ⟨stored, fun other member => ?_⟩
            rcases List.mem_append.mp member with member | member
            · exact untouched other member
            · rw [List.mem_singleton.mp member]
              exact decide_eq_false unnamed

end Left

/-! ## The guard -/

section Guard

variable {caches : SystemCaches} {actorId : String} {accepted : List ValidatedAction}
  {sim : RequestSim}

theorem untouchedRow_of_unfiled (accepts : acceptAll caches actorId accepted = .ok sim)
    {entityId : Term} (owned : Owned caches entityId)
    (unfiled : (updatesOf accepted).any (filesEntity entityId) = false) :
    untouchedRow caches entityId (updatesOf accepted) = true := by
  have notPut : ∀ update ∈ updatesOf accepted, filesEntity entityId update = false := by
    rw [List.any_eq_false] at unfiled
    exact fun update member => Bool.eq_false_iff.mpr (unfiled update member)
  cases kept : untouchedRow caches entityId (updatesOf accepted) with
  | true => rfl
  | false =>
      exfalso
      -- Every row of the entity is then deleted, each with its group.
      have removed : ∀ row ∈ caches.entityGroups.entityGroupEntries entityId,
          row.groupId ∈ (sim.removals.get? entityId).getD [] := by
        intro row member
        rw [untouchedRow, List.any_eq_false] at kept
        have touched := kept row member
        rw [Bool.not_eq_true', Bool.not_eq_false, List.any_eq_true] at touched
        rcases touched with ⟨update, inUpdates, names⟩
        rw [writesMembership, decide_eq_true_eq] at names
        rw [EntityGroupCache.mem_entityGroupEntries] at member
        have stored : caches.entityGroups.getEntityGroup update.subjectId = some row :=
          names.2 ▸ member.1
        have holds := membershipAccepted_of_acceptAll accepts inUpdates names.1
        cases method : update.method with
        | put =>
            have sameEntity := (holds.put method).2.2 row stored
            have isFiled : filesEntity entityId update = true := decide_eq_true
              ⟨isPutOf_iff.mpr ⟨names.1, method⟩, sameEntity.symm.trans member.2⟩
            rw [notPut update inUpdates] at isFiled
            cases isFiled
        | patch => exact absurd method holds.noPatch
        | delete =>
            rw [← member.2]
            exact mem_removals_of_delete accepts (mem_deletesOf.mpr ⟨inUpdates, names.1, method⟩)
              stored
      rcases List.exists_mem_of_ne_nil _ owned with ⟨some, isSome⟩
      have touched : sim.removals.contains entityId = true := by
        cases found : sim.removals.get? entityId with
        | none =>
            have inside := removed some isSome
            rw [found] at inside
            cases inside
        | some groups => rw [OrderedMap.contains, found]; rfl
      have left := resultingGroups_ne_nil accepts (by rw [touched, Bool.or_true] :
        (sim.additions.contains entityId || sim.removals.contains entityId) = true)
      have noneAdded : (sim.additions.get? entityId).getD [] = [] := by
        rw [List.eq_nil_iff_forall_not_mem]
        intro groupId added
        rcases files_of_mem_additions accepts added with ⟨update, member, filed⟩
        have isFiled : filesEntity entityId update = true :=
          decide_eq_true ⟨filed.1, filed.2.1⟩
        rw [notPut update member] at isFiled
        cases isFiled
      rcases List.exists_mem_of_ne_nil _ left with ⟨groupId, remains⟩
      rw [resultingGroups, noneAdded, List.append_nil, List.diff_nil, sourceGroups_tableOpts]
        at remains
      rw [(nodup_eraseDups _).mem_sdiff_iff, List.mem_eraseDups, List.mem_eraseDups,
        List.mem_map] at remains
      rcases remains with ⟨⟨row, member, inGroup⟩, notRemoved⟩
      exact notRemoved (inGroup ▸ removed row member)

end Guard

/-- After the mutations of the accepted Actions, every entity that had an owning group
or was given one has one, exactly when each entity that loses a row the request put has
another row: a put no later Update undoes, or a table row no Update names. -/
theorem keepsOwners_iff {caches : SystemCaches} {actorId : String}
    {actions accepted : List ValidatedAction} {rejected : List Rejection}
    (authorized : authorize actions actorId caches = .ok (accepted, rejected))
    {plans : List (List Mutation × Overlay)}
    (planned : planAll caches (accepted.map (·.updates)) = .ok plans) :
    KeepsOwners caches (updatesOf accepted) (applyCacheMutations caches (mutationsOf plans)) ↔
      UndonePutsCovered caches (updatesOf accepted) := by
  rcases acceptAll_of_authorize authorized with ⟨sim, accepts⟩
  have holds : ∀ update ∈ updatesOf accepted, update.subjectType = "entityGroup" →
      MembershipAccepted caches update :=
    fun update member => membershipAccepted_of_acceptAll accepts member
  have rows : (applyCacheMutations caches (mutationsOf plans)).rows =
      (updatesOf accepted).foldl Rows.after caches.rows := by
    rw [rows_planAll planned, updatesOf, List.flatMap_def]
  constructor
  · intro keeps entityId undone
    rcases anyTail_iff.mp undone with ⟨before, update, after, split, filed⟩
    rw [Bool.and_eq_true] at filed
    have given : (updatesOf accepted).any (filesEntity entityId) = true := by
      rw [split, List.any_eq_true]
      exact ⟨update, by simp, filed.1⟩
    rcases owned_iff.mp (keeps entityId (.inr given)) with ⟨id, row, stored, entity⟩
    rw [rows] at stored
    rcases kept_or_untouched holds stored with
      ⟨before, put, after, split, _, filed, kept⟩ | ⟨cached, untouched⟩
    · left
      rw [← entity]
      exact anyTail_iff.mpr ⟨before, put, after, split, by rw [filed, kept]; rfl⟩
    · right
      have sameId := (caches.entityGroups.named cached).1
      rw [untouchedRow, List.any_eq_true]
      refine ⟨row, (EntityGroupCache.mem_entityGroupEntries _ _ _).mpr
        ⟨sameId ▸ cached, entity⟩, ?_⟩
      rw [Bool.not_eq_true', List.any_eq_false]
      intro update member
      rw [sameId, untouched update member]
      exact Bool.false_ne_true
  · intro covered entityId needed
    rw [owned_iff, rows]
    have fromKept : keptPut entityId (updatesOf accepted) = true →
        ∃ id row, ((updatesOf accepted).foldl Rows.after caches.rows).memberships id =
          some row ∧ row.entityId = entityId := by
      intro kept
      rcases anyTail_iff.mp kept with ⟨before, put, after, split, filed⟩
      rw [Bool.and_eq_true, Bool.not_eq_true', List.any_eq_false] at filed
      have isFiled := of_decide_eq_true filed.1
      have isPut := isPutOf_iff.mp isFiled.1
      have putHolds := holds put (by rw [split]; simp) isPut.1
      refine ⟨put.subjectId, ?_⟩
      rw [split, List.foldl_append, List.foldl_cons]
      apply memberships_kept
      · intro update member
        exact holds update (by rw [split]; simp [member])
      · simp only [Rows.after, isPut.1, true_and, if_true]
        rw [membershipAfter_put putHolds isPut.2]
        exact ⟨_, rfl, isFiled.2⟩
      · intro later member names
        have notUndone := filed.2 later member
        rw [undoes, decide_eq_true_eq] at notUndone
        constructor
        · exact fun isDelete => notUndone ⟨names, .inl isDelete⟩
        · have same : getDataField later "entity_id" = getDataField put "entity_id" := by
            apply Decidable.byContradiction
            exact fun different => notUndone ⟨names, .inr different⟩
          exact same.trans isFiled.2
    have fromUntouched : untouchedRow caches entityId (updatesOf accepted) = true →
        ∃ id row, ((updatesOf accepted).foldl Rows.after caches.rows).memberships id =
          some row ∧ row.entityId = entityId := by
      intro untouched
      rw [untouchedRow, List.any_eq_true] at untouched
      rcases untouched with ⟨row, member, unnamed⟩
      rw [Bool.not_eq_true', List.any_eq_false] at unnamed
      rw [EntityGroupCache.mem_entityGroupEntries] at member
      refine ⟨row.id, row, ?_, member.2⟩
      rw [memberships_untouched fun update inside =>
        Bool.eq_false_iff.mpr (unnamed update inside)]
      exact member.1
    cases given : (updatesOf accepted).any (filesEntity entityId) with
    | false =>
        rcases needed with owned | filed
        · exact fromUntouched (untouchedRow_of_unfiled accepts owned given)
        · rw [given] at filed
          cases filed
    | true =>
        cases kept : keptPut entityId (updatesOf accepted) with
        | true => exact fromKept kept
        | false =>
            rcases List.any_eq_true.mp given with ⟨update, member, filed⟩
            rcases List.append_of_mem member with ⟨before, after, split⟩
            have undone : undonePut entityId (updatesOf accepted) = true := by
              rw [undonePut, anyTail_iff]
              refine ⟨before, update, after, split, ?_⟩
              cases isUndone : after.any (undoes update) with
              | true => rw [filed]; rfl
              | false =>
                  have isKept : keptPut entityId (updatesOf accepted) = true :=
                    anyTail_iff.mpr ⟨before, update, after, split, by rw [filed, isUndone]; rfl⟩
                  rw [kept] at isKept
                  cases isKept
            rcases covered entityId undone with keptPut | untouched
            · exact fromKept keptPut
            · exact fromUntouched untouched

theorem undonePutsCovered_of_none {caches : SystemCaches} {updates : List ValidatedUpdate}
    (none : anyTail (fun update after => isPutOf update "entityGroup" && after.any (undoes update))
      updates = false) : UndonePutsCovered caches updates := by
  intro entityId undone
  rcases anyTail_iff.mp undone with ⟨before, update, after, split, filed⟩
  rw [Bool.and_eq_true] at filed
  have undoneHere : (isPutOf update "entityGroup" && after.any (undoes update)) = true := by
    rw [(of_decide_eq_true filed.1).1, filed.2]
    rfl
  have found := (@anyTail_iff _ (fun update after =>
    isPutOf update "entityGroup" && after.any (undoes update)) updates).mpr
      ⟨before, update, after, split, undoneHere⟩
  rw [none] at found
  cases found

/-- An entity `e` in group `g`, where actor `a` may create and update its type. -/
def ownedTask : SystemCaches :=
  applyCacheMutations .empty
    [.entityType "e" "task",
      .groupMemberPut ⟨"k", .string "g", .string "a",
        .list [.string "task.create", .string "task.update"]⟩,
      .entityGroupPut ⟨"m", .string "e", .string "g"⟩]

/-- The row `m`, put again and deleted in either order. -/
def membershipAction (methods : List UpdateMethod) : ValidatedAction where
  id := "act"
  actorId := "a"
  hlc := 1
  updates := methods.map membershipUpdate

def plansOf (caches : SystemCaches) (actions : List ValidatedAction) :
    List (List Mutation × Overlay) :=
  match planAll caches (actions.map (·.updates)) with
  | .ok plans => plans
  | .error _ => []

/-- The order the guard has in mind: the put replaces the deleted row. -/
theorem keepsOwners_replaced :
    UndonePutsCovered ownedTask (updatesOf [membershipAction [.delete, .put]]) ∧
      KeepsOwners ownedTask (updatesOf [membershipAction [.delete, .put]])
        (applyCacheMutations ownedTask
          (mutationsOf (plansOf ownedTask [membershipAction [.delete, .put]]))) := by
  have covered : UndonePutsCovered ownedTask
      (updatesOf [membershipAction [.delete, .put]]) := undonePutsCovered_of_none rfl
  have authorized : authorize [membershipAction [.delete, .put]] "a" ownedTask =
      .ok ([membershipAction [.delete, .put]], []) := rfl
  exact ⟨covered, (keepsOwners_iff authorized rfl).mpr covered⟩

/-- The other order is accepted alike, and the delete is the last word. -/
theorem keepsOwners_orphaned :
    ¬ ∀ caches actorId actions accepted rejected plans,
      (∀ id type, caches.entityTypes.get? id = some type → Owned caches (.string id)) →
      authorize actions actorId caches = .ok (accepted, rejected) →
      planAll caches (accepted.map (·.updates)) = .ok plans →
      KeepsOwners caches (updatesOf accepted)
        (applyCacheMutations caches (mutationsOf plans)) := by
  intro keeps
  have indexed : ∀ id type, ownedTask.entityTypes.get? id = some type →
      Owned ownedTask (.string id) := by
    intro id type typed
    have same : id = "e" := by
      change ([("e", "task")] : List (String × String)).lookup id = some type at typed
      rw [lookup_cons_eq] at typed
      split at typed
      · assumption
      · cases typed
    rw [same]
    exact List.cons_ne_nil _ _
  have owned := keeps ownedTask "a" [membershipAction [.put, .delete]]
    [membershipAction [.put, .delete]] []
    (plansOf ownedTask [membershipAction [.put, .delete]]) indexed rfl rfl (.string "e")
    (.inl (List.cons_ne_nil _ _))
  exact owned rfl

end Authorizer

end Ebb.Access
