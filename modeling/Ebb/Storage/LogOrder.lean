import Ebb.Core.FieldPaths
import Ebb.Storage.ActionLog

namespace Ebb

def Action.commit (action : Action V) (update : Update V) : CommittedUpdate V :=
  { gsn := action.gsn, hlc := action.hlc, actorId := action.actorId, update }

theorem entityUpdates_append (before after : List (Action V)) (entityId : String) :
    entityUpdates (before ++ after) entityId =
      entityUpdates before entityId ++ entityUpdates after entityId :=
  List.flatMap_append

theorem entityUpdates_singleton (action : Action V) (entityId : String) :
    entityUpdates [action] entityId = (action.updatesOf entityId).map action.commit :=
  List.flatMap_singleton _ action

theorem fiber_entityUpdates (gsn : Nat) (actions : List (Action V)) (entityId : String) :
    fiber CommittedUpdate.gsn gsn (entityUpdates actions entityId) =
      entityUpdates (fiber Action.gsn gsn actions) entityId := by
  induction actions with
  | nil => rfl
  | cons action rest induction =>
      rw [← List.singleton_append, entityUpdates_append, fiber_append, fiber_append,
        entityUpdates_append, induction, entityUpdates_singleton]
      congr 1
      by_cases found : action.gsn = gsn
      · have whole : fiber Action.gsn gsn [action] = [action] := by simp [fiber, found]
        rw [whole, entityUpdates_singleton, fiber, List.filter_eq_self]
        intro committed member
        rcases List.mem_map.mp member with ⟨update, _, rfl⟩
        simp [Action.commit, found]
      · have none : fiber Action.gsn gsn [action] = [] := by simp [fiber, found]
        rw [none, fiber, entityUpdates, List.flatMap_nil, List.filter_eq_nil_iff]
        intro committed member
        rcases List.mem_map.mp member with ⟨update, _, rfl⟩
        simp [Action.commit, found]

theorem sortedBy_entityUpdates {actions : List (Action V)}
    (sorted : SortedBy Action.gsn actions) (entityId : String) :
    SortedBy CommittedUpdate.gsn (entityUpdates actions entityId) := by
  induction actions with
  | nil => exact List.Pairwise.nil
  | cons action rest induction =>
      have parts := List.pairwise_cons.mp sorted
      rw [← List.singleton_append, entityUpdates_append, entityUpdates_singleton, SortedBy,
        List.pairwise_append]
      refine ⟨?_, induction parts.2, ?_⟩
      · rw [List.pairwise_map]
        exact List.pairwise_of_forall fun _ _ => Nat.le_refl _
      · intro earlier earlierMember later laterMember
        rcases List.mem_map.mp earlierMember with ⟨update, _, rfl⟩
        rcases List.mem_flatMap.mp laterMember with ⟨other, otherMember, member⟩
        rcases List.mem_map.mp member with ⟨otherUpdate, _, rfl⟩
        exact parts.1 other otherMember

namespace Storage.ActionLog

/-! The order in which the store replays an entity's Updates, and how one more
logged Update enters it. -/

def logged (log : ActionLog V) (entityId : String) : List (CommittedUpdate V) :=
  entityUpdates (log.getForEntity entityId) entityId

variable {action : Action V} (log : ActionLog V) (entityId id : String)

theorem sortedBy_logged : SortedBy CommittedUpdate.gsn (log.logged entityId) :=
  sortedBy_entityUpdates (sortedBy_sortBy _) entityId

theorem logged_nil : logged ([] : ActionLog V) entityId = [] := by
  simp [logged, getForEntity, sortBy, entityUpdates]

theorem fiber_logged (gsn : Nat) :
    fiber CommittedUpdate.gsn gsn (log.logged entityId) =
      entityUpdates (fiber Action.gsn gsn log) entityId := by
  rw [logged, fiber_entityUpdates, getForEntity, fiber_sortBy, fiber_filter,
    entityUpdates_filter_touches]

theorem mem_logged {log : ActionLog V} {entityId : String} {committed : CommittedUpdate V}
    (member : committed ∈ log.logged entityId) :
    ∃ action ∈ log, ∃ update ∈ action.updates, committed = action.commit update := by
  rcases List.mem_flatMap.mp member with ⟨action, actionMember, inAction⟩
  rcases List.mem_map.mp inAction with ⟨update, updateMember, rfl⟩
  exact ⟨action, (List.mem_filter.mp (mem_sortBy.mp actionMember)).1, update,
    (List.mem_filter.mp updateMember).1, rfl⟩

structure WellFormed (log : ActionLog V) : Prop where
  ids : (log.map Action.id).Nodup
  gsns : (log.map Action.gsn).Nodup
  updateIds : ∀ action ∈ log, (action.updates.map Update.id).Nodup
  keyed : ∀ action ∈ log, ∀ update ∈ action.updates, (FieldValue.map (readFields update)).Keyed

theorem wellFormed_empty : WellFormed ([] : ActionLog V) where
  ids := List.nodup_nil
  gsns := List.nodup_nil
  updateIds := by simp
  keyed := by simp

/-! ## Recording one Update -/

def record (id : String) (log : ActionLog V) (update : Update V) : ActionLog V :=
  log.map fun action =>
    if action.id = id then { action with updates := action.updates ++ [update] } else action

theorem record_ids (log : ActionLog V) (update : Update V) :
    (record id log update).map Action.id = log.map Action.id := by
  simp only [record, List.map_map]
  congr 1
  funext action
  simp only [Function.comp_apply]
  split <;> rfl

theorem record_gsns (log : ActionLog V) (update : Update V) :
    (record id log update).map Action.gsn = log.map Action.gsn := by
  simp only [record, List.map_map]
  congr 1
  funext action
  simp only [Function.comp_apply]
  split <;> rfl

theorem mem_record {id : String} {log : ActionLog V} {update : Update V}
    (member : action ∈ record id log update) :
    (action ∈ log ∧ action.id ≠ id) ∨
      ∃ stored ∈ log, stored.id = id ∧
        action = { stored with updates := stored.updates ++ [update] } := by
  rcases List.mem_map.mp member with ⟨stored, storedMember, equal⟩
  split at equal
  · next found => exact .inr ⟨stored, storedMember, found, equal.symm⟩
  · next other => exact .inl ⟨equal ▸ storedMember, equal ▸ other⟩

theorem WellFormed.record {log : ActionLog V} (wellFormed : log.WellFormed) {id : String}
    {update : Update V}
    (fresh : ∀ stored ∈ log, stored.id = id → update.id ∉ stored.updates.map Update.id)
    (keyed : (FieldValue.map (readFields update)).Keyed) :
    (log.record id update).WellFormed where
  ids := by
    rw [record_ids]
    exact wellFormed.ids
  gsns := by
    rw [record_gsns]
    exact wellFormed.gsns
  updateIds := by
    intro action member
    rcases mem_record member with ⟨stored, _⟩ | ⟨stored, storedMember, found, rfl⟩
    · exact wellFormed.updateIds action stored
    · rw [List.map_append, List.nodup_append]
      refine ⟨wellFormed.updateIds stored storedMember, List.nodup_singleton _, ?_⟩
      intro known knownMember added addedMember
      simp only [List.map_cons, List.map_nil, List.mem_singleton] at addedMember
      rintro rfl
      exact fresh stored storedMember found (addedMember ▸ knownMember)
  keyed := by
    intro action member other otherMember
    rcases mem_record member with ⟨stored, _⟩ | ⟨stored, storedMember, found, rfl⟩
    · exact wellFormed.keyed action stored other otherMember
    · rcases List.mem_append.mp otherMember with known | added
      · exact wellFormed.keyed stored storedMember other known
      · rw [List.mem_singleton.mp added]
        exact keyed

theorem fiber_record (log : ActionLog V) (update : Update V) (gsn : Nat) :
    fiber Action.gsn gsn (log.record id update) =
      (fiber Action.gsn gsn log).map fun action =>
        if action.id = id then { action with updates := action.updates ++ [update] }
        else action := by
  rw [ActionLog.record, fiber_map]
  congr 2
  funext action
  split <;> rfl

theorem updatesOf_append (action : Action V) (update : Update V) (entityId : String) :
    ({ action with updates := action.updates ++ [update] } : Action V).updatesOf entityId =
      action.updatesOf entityId ++ if update.subjectId = entityId then [update] else [] := by
  simp only [Action.updatesOf, List.filter_append]
  congr 1
  by_cases found : update.subjectId = entityId
  · simp [found]
  · simp [found]

theorem logged_record {log : ActionLog V} (wellFormed : log.WellFormed) {header : Action V}
    (member : header ∈ log) (update : Update V) (entityId : String) :
    (log.record header.id update).logged entityId =
      if update.subjectId = entityId then
        insertBy CommittedUpdate.gsn (header.commit update) (log.logged entityId)
      else log.logged entityId := by
  have sameGsn : (header.commit update).gsn = header.gsn := rfl
  have fibers : ∀ gsn, fiber CommittedUpdate.gsn gsn
      ((log.record header.id update).logged entityId) =
        fiber CommittedUpdate.gsn gsn (log.logged entityId) ++
          fiber CommittedUpdate.gsn gsn
            (if update.subjectId = entityId then [header.commit update] else []) := by
    intro gsn
    rw [fiber_logged, fiber_logged, fiber_record]
    by_cases found : header.gsn = gsn
    · subst found
      rw [fiber_eq_singleton wellFormed.gsns member, List.map_singleton, if_pos rfl,
        entityUpdates_singleton, entityUpdates_singleton, updatesOf_append, List.map_append]
      congr 1
      split
      · simp [fiber, Action.commit]
      · rfl
    · have unchanged : (fiber Action.gsn gsn log).map (fun action =>
          if action.id = header.id then
            { action with updates := action.updates ++ [update] } else action) =
          fiber Action.gsn gsn log := by
        conv_rhs => rw [← List.map_id (fiber Action.gsn gsn log)]
        apply List.map_congr_left
        intro action actionMember
        have parts := mem_fiber.mp actionMember
        have different : action.id ≠ header.id := by
          intro same
          rw [List.inj_on_of_nodup_map wellFormed.ids parts.1 member same] at parts
          exact found parts.2
        simp [different]
      rw [unchanged]
      split
      · simp [fiber, Action.commit, found]
      · simp [fiber]
  by_cases subject : update.subjectId = entityId
  · rw [if_pos subject]
    apply eq_of_fibers (sortedBy_logged _ _) (sortedBy_insertBy (sortedBy_logged _ _) _)
    intro gsn
    rw [fibers, if_pos subject, fiber_insertBy]
  · rw [if_neg subject]
    apply eq_of_fibers (sortedBy_logged _ _) (sortedBy_logged _ _)
    intro gsn
    rw [fibers, if_neg subject]
    exact List.append_nil _

/-! ## Appending a delivery, Update by Update -/

def opened (log : ActionLog V) (action : Action V) : ActionLog V :=
  match log.find? fun stored => stored.id == action.id with
  | none => log ++ [{ action with updates := [] }]
  | some _ => log

theorem logged_opened (action : Action V) (entityId : String) :
    (log.opened action).logged entityId = log.logged entityId := by
  apply eq_of_fibers (sortedBy_logged _ _) (sortedBy_logged _ _)
  intro gsn
  rw [opened]
  split
  · rw [fiber_logged, fiber_logged, fiber_append, entityUpdates_append]
    have silent : entityUpdates
        (fiber Action.gsn gsn [({ action with updates := [] } : Action V)]) entityId = [] := by
      by_cases found : action.gsn = gsn
      · simp [fiber, found, entityUpdates, Action.updatesOf]
      · simp [fiber, found, entityUpdates]
    rw [silent, List.append_nil]
  · rfl

theorem foldl_record (log : ActionLog V) (updates : List (Update V)) :
    updates.foldl (ActionLog.record id) log =
      log.map fun action =>
        if action.id = id then { action with updates := action.updates ++ updates }
        else action := by
  induction updates generalizing log with
  | nil => simp
  | cons update rest induction =>
      rw [List.foldl_cons, induction, ActionLog.record, List.map_map]
      congr 1
      funext action
      by_cases found : action.id = id
      · simp [found]
      · simp [found]

theorem append_eq_foldl_record {log : ActionLog V} (wellFormed : log.WellFormed)
    (updateIds : (action.updates.map Update.id).Nodup)
    (genuine : ∀ stored ∈ log, stored.id = action.id → ∀ update ∈ stored.updates,
      ∀ copy ∈ action.updates, copy.id = update.id → copy = update) :
    (log.append action).1 =
      (log.append action).2.added.foldl (ActionLog.record action.id) (log.opened action) := by
  rw [foldl_record]
  simp only [append, opened]
  cases found : log.find? fun stored => stored.id == action.id with
  | none =>
      have absent : ∀ stored ∈ log, stored.id ≠ action.id := by
        intro stored member
        simpa using List.find?_eq_none.mp found stored member
      simp only [List.map_append, List.map_cons, List.map_nil, if_true, List.nil_append]
      congr 1
      conv_lhs => rw [← List.map_id log]
      apply List.map_congr_left
      intro stored member
      simp [absent stored member]
  | some existing =>
      have existingMember := List.mem_of_find?_eq_some found
      have existingId : existing.id = action.id := by
        simpa using List.find?_some found
      apply List.map_congr_left
      intro stored member
      by_cases same : stored.id = action.id
      · have equal : stored = existing :=
          List.inj_on_of_nodup_map wellFormed.ids member existingMember
            (same.trans existingId.symm)
        rw [if_pos same, if_pos same, equal,
          mergeActionUpdates_eq_append (wellFormed.updateIds existing existingMember) updateIds
            (genuine existing existingMember existingId)]
      · rw [if_neg same, if_neg same]

/-! ### What an append adds -/

theorem append_action_id (action : Action V) : (log.append action).2.action.id = action.id := by
  rw [append]
  cases found : log.find? fun stored => stored.id == action.id with
  | none => rfl
  | some existing => simpa using List.find?_some found

theorem added_subset (action : Action V) {update : Update V}
    (member : update ∈ (log.append action).2.added) : update ∈ action.updates := by
  rw [append] at member
  cases found : log.find? fun stored => stored.id == action.id with
  | none =>
      rw [found] at member
      exact member
  | some existing =>
      rw [found] at member
      exact (List.mem_filter.mp member).1

theorem added_nodup (updateIds : (action.updates.map Update.id).Nodup) :
    ((log.append action).2.added.map Update.id).Nodup := by
  rw [append]
  cases log.find? fun stored => stored.id == action.id with
  | none => exact updateIds
  | some existing => exact updateIds.sublist (List.filter_sublist.map Update.id)

theorem added_fresh {log : ActionLog V} (wellFormed : log.WellFormed) {stored : Action V}
    (member : stored ∈ log.opened action) (sameId : stored.id = action.id) {update : Update V}
    (added : update ∈ (log.append action).2.added) :
    update.id ∉ stored.updates.map Update.id := by
  simp only [append, opened] at added member
  cases found : log.find? fun stored => stored.id == action.id with
  | none =>
      rw [found] at member
      rcases List.mem_append.mp member with logged | new
      · have different := List.find?_eq_none.mp found stored logged
        simp only [beq_iff_eq] at different
        exact absurd sameId different
      · rw [List.mem_singleton.mp new]
        simp
  | some existing =>
      rw [found] at member added
      have existingId : existing.id = action.id := by simpa using List.find?_some found
      have equal : stored = existing :=
        List.inj_on_of_nodup_map wellFormed.ids member (List.mem_of_find?_eq_some found)
          (sameId.trans existingId.symm)
      rw [equal]
      exact of_decide_eq_true (List.mem_filter.mp added).2

theorem exists_opened (action : Action V) :
    ∃ stored ∈ log.opened action, stored.id = (log.append action).2.action.id ∧
      stored.commit = (log.append action).2.action.commit := by
  simp only [append, opened]
  cases found : log.find? fun stored => stored.id == action.id with
  | none => exact ⟨{ action with updates := [] }, by simp, rfl, rfl⟩
  | some existing => exact ⟨existing, List.mem_of_find?_eq_some found, rfl, rfl⟩

theorem WellFormed.opened {log : ActionLog V} (wellFormed : log.WellFormed)
    (gsnFresh : (∀ stored ∈ log, stored.id ≠ action.id) → ∀ stored ∈ log, stored.gsn ≠ action.gsn)
    : (log.opened action).WellFormed := by
  rw [ActionLog.opened]
  cases found : log.find? fun stored => stored.id == action.id with
  | some existing => exact wellFormed
  | none =>
      have absent : ∀ stored ∈ log, stored.id ≠ action.id := by
        intro stored member
        simpa using List.find?_eq_none.mp found stored member
      have distinct := gsnFresh absent
      exact {
        ids := by
          rw [List.map_append, List.nodup_append]
          refine ⟨wellFormed.ids, List.nodup_singleton _, ?_⟩
          intro left leftMember right rightMember
          rcases List.mem_map.mp leftMember with ⟨stored, member, rfl⟩
          simp only [List.map_cons, List.map_nil, List.mem_singleton] at rightMember
          rw [rightMember]
          exact absent stored member
        gsns := by
          rw [List.map_append, List.nodup_append]
          refine ⟨wellFormed.gsns, List.nodup_singleton _, ?_⟩
          intro left leftMember right rightMember
          rcases List.mem_map.mp leftMember with ⟨stored, member, rfl⟩
          simp only [List.map_cons, List.map_nil, List.mem_singleton] at rightMember
          rw [rightMember]
          exact distinct stored member
        updateIds := by
          intro stored member
          rcases List.mem_append.mp member with logged | new
          · exact wellFormed.updateIds stored logged
          · rw [List.mem_singleton.mp new]
            exact List.nodup_nil
        keyed := by
          intro stored member update updateMember
          rcases List.mem_append.mp member with logged | new
          · exact wellFormed.keyed stored logged update updateMember
          · rw [List.mem_singleton.mp new] at updateMember
            cases updateMember }

end Storage.ActionLog

end Ebb
