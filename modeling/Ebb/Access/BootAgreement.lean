import Ebb.Access.MembershipPairs
import Ebb.Access.SystemCacheBoot

namespace Ebb.Access

namespace SystemCache

open Ebb.Server Ebb.Server.EntityStore

/-! Where the tables of a running server are the ones it would rebuild: the Writer merges
whole rows in the order of arrival, the log's replay merges fields by their clocks. -/

def committedUpdates (actions : List (Action Term)) : List (CommittedUpdate Term) :=
  actions.flatMap fun action => action.updates.map fun update =>
    { gsn := action.gsn, hlc := action.hlc, actorId := action.actorId, update }

def rowsOf (updates : List (CommittedUpdate Term)) : Rows :=
  (updates.map fun committed => decoded committed.update).foldl Rows.after
    SystemCaches.empty.rows

def replayOf (updates : List (CommittedUpdate Term)) (entityId : String) : Replay Term :=
  (updates.filter fun committed => committed.update.subjectId = entityId).foldl
    applyCommitted (.initial [])

/-! ## The condition -/

def columns : String → List String
  | "groupMember" => ["actor_id", "group_id", "permissions"]
  | "entityGroup" => ["entity_id", "group_id"]
  | "relationship" => ["source_id", "target_id", "type", "field"]
  | _ => []

def stands (rows : Rows) (update : Update Term) : Bool :=
  match update.subjectType with
  | "groupMember" => (rows.members update.subjectId).isSome
  | "entityGroup" => (rows.memberships update.subjectId).isSome
  | "relationship" => (rows.relationships update.subjectId).isSome
  | _ => false

def carried (update : Update Term) (field : String) : Term :=
  valueOf ((readFields update).lookup field)

def namesEnds (update : Update Term) : Bool :=
  ((columns update.subjectType).take 2).all fun field => (carried update field).truthy

def carriesAll (update : Update Term) : Bool :=
  (columns update.subjectType).all fun field => ((readFields update).lookup field).isSome

theorem fieldOf_carried (update : Update Term) (field : String) :
    fieldOf (decoded update).data field = carried update field :=
  fieldOf_decoded update field

/-- Every column the patch carries wins its merge, and is none that the Writer would
skip. -/
def wins (result : Replay Term) (update : Update Term) : Bool :=
  (columns update.subjectType).all fun field =>
    match (readFields update).lookup field with
    | none => true
    | some value =>
        valueOf (some (FieldMerge.merge (result.data.lookup field) value)) = valueOf (some value)
          && ((valueOf (some value)).truthy || field ∈ ["type", "field"])

/-- A membership row that the Update removes or points elsewhere shares its entity and
its group with no other row. -/
def goesAlone (before : List (CommittedUpdate Term)) (update : Update Term) : Bool :=
  let rows := rowsOf before
  match rows.memberships update.subjectId with
  | none => true
  | some row =>
      (rows.after (decoded update)).memberships update.subjectId = some row ||
        before.all fun other => other.update.subjectId = update.subjectId ||
          (rows.memberships other.update.subjectId).all fun shared =>
            (shared.groupId, shared.entityId) ≠ (row.groupId, row.entityId)

/-- The Update does the same to the live row and to the replayed one: an id keeps its
type, no put lands on a tombstone or drops the ends of a row, and a patch brings the
newest fields, all of them where there is nothing it would be merged over alike. What
it takes from the memberships goes alone. -/
def inOrder (before : List (CommittedUpdate Term)) (update : Update Term) : Bool :=
  let rows := rowsOf before
  let result := replayOf before update.subjectId
  goesAlone before update && (rows.types update.subjectId).all (· = update.subjectType) &&
    (columns update.subjectType = [] ||
      match update.method with
      | .put => if namesEnds update then result.deletedHlc.isNone else !stands rows update
      | .patch =>
          (carriesAll update || (stands rows update && update.subjectType ≠ "relationship")) &&
            wins result update
      | .delete => true)

/-- All Updates of a log are in order, each after those before it. -/
def allInOrder (before : List (CommittedUpdate Term)) : List (CommittedUpdate Term) → Bool
  | [] => true
  | committed :: rest =>
      inOrder before committed.update && allInOrder (before ++ [committed]) rest

/-! ## One replayed Update -/

def column (result : Replay Term) (field : String) : Term :=
  valueOf (result.data.lookup field)

/-- What the rebuilt table keeps of a replayed entity. -/
def keptFrom {α : Type} (kept : EntityRow Term → Option α) (id : String)
    (result : Replay Term) : Option α :=
  (formatLiveEntity (result.row id)).bind kept

section Replayed

variable {committed : CommittedUpdate Term}

theorem column_put (wellFormed : committed.update.WellFormed) (result : Replay Term)
    (field : String) :
    column (applyPut committed result) field = carried committed.update field := by
  rw [column, applyPut, carried]
  dsimp only
  rw [stampedFields, FieldMerge.stampEntries_eq_self _ wellFormed]

theorem column_patch (wellFormed : committed.update.WellFormed)
    (keyed : ((readFields committed.update).map Prod.fst).Nodup) (result : Replay Term)
    (field : String) :
    column (applyPatch committed result) field =
      match (readFields committed.update).lookup field with
      | none => column result field
      | some value => valueOf (some (FieldMerge.merge (result.data.lookup field) value)) := by
  rw [column, applyPatch]
  dsimp only
  rw [foldl_mergeField_eq, stampedFields, FieldMerge.stampEntries_eq_self _ wellFormed,
    FieldMerge.mergeMaps_eq_mergeEntriesBy, lookup_mergeEntriesBy _ keyed]
  cases (readFields committed.update).lookup field with
  | none => rfl
  | some value =>
      dsimp only [mergeEntry]
      rw [FieldMerge.merge_eq_mergeBy]

theorem column_winning (wellFormed : committed.update.WellFormed)
    (keyed : ((readFields committed.update).map Prod.fst).Nodup) {result : Replay Term}
    (won : wins result committed.update = true) {field : String}
    (isColumn : field ∈ columns committed.update.subjectType) :
    (column (applyPatch committed result) field =
        if ((readFields committed.update).lookup field).isSome then
          carried committed.update field
        else column result field) ∧
      (((readFields committed.update).lookup field).isSome →
        (carried committed.update field).truthy = true ∨ field ∈ ["type", "field"]) := by
  rw [column_patch wellFormed keyed, carried]
  rw [wins, List.all_eq_true] at won
  have here := won field isColumn
  cases found : (readFields committed.update).lookup field with
  | none => exact ⟨rfl, nofun⟩
  | some value =>
      rw [found] at here
      simp only [Bool.and_eq_true, Bool.or_eq_true, decide_eq_true_eq] at here
      exact ⟨here.1, fun _ => here.2⟩

end Replayed

theorem keptFrom_eq {α : Type} {kept : EntityRow Term → Option α} {id : String}
    {result : Replay Term} :
    keptFrom kept id result =
      if result.deletedHlc.isSome then none else kept (result.row id) := by
  have same : (result.row id).deletedHlc = result.deletedHlc := rfl
  rw [keptFrom, formatLiveEntity, same]
  by_cases deleted : result.deletedHlc.isSome = true
  · rw [if_pos deleted, if_pos deleted]
    rfl
  · rw [if_neg deleted, if_neg deleted]
    rfl

variable {actions : List (Action Term)} (result : Replay Term) (id : String)

theorem entityField_row (field : String) :
    entityField (result.row id) field = column result field := by
  rw [entityField, fieldOf_dataTerm]
  rfl

theorem keptMember_row :
    keptMember (result.row id) =
      if (column result "actor_id").truthy = true ∧ (column result "group_id").truthy = true then
        some ⟨id, column result "group_id", column result "actor_id",
          (column result "permissions").or .null⟩
      else none := by
  simp only [keptMember, memberOf, GroupMember.stored, entityField_row]
  rfl

theorem keptEntityGroup_row :
    keptEntityGroup (result.row id) =
      if (column result "entity_id").truthy = true ∧
          (column result "group_id").truthy = true then
        some ⟨id, column result "entity_id", column result "group_id"⟩
      else none := by
  simp only [keptEntityGroup, entityGroupOf, entityField_row]
  rfl

theorem keptRelationship_row :
    keptRelationship (result.row id) =
      if (column result "source_id").truthy = true ∧
          (column result "target_id").truthy = true then
        some ⟨id, column result "source_id", column result "target_id",
          (column result "type").or .null, (column result "field").or .null⟩
      else none := by
  simp only [keptRelationship, relationshipOf, Relationship.stored, entityField_row]
  rfl

/-! ## One Update on both sides -/

/-- What the replay keeps of an entity after one more Update. -/
structure StepKept (before after : Replay Term) (update : Update Term) : Prop where
  put : update.method = .put → after.deletedHlc = before.deletedHlc ∧
    ∀ field, column after field = carried update field
  patch : update.method = .patch → after.deletedHlc = none ∧
    (wins before update = true → ∀ field ∈ columns update.subjectType,
      (column after field = if ((readFields update).lookup field).isSome then
          carried update field else column before field) ∧
        (((readFields update).lookup field).isSome →
          (carried update field).truthy = true ∨ field ∈ ["type", "field"]))
  delete : update.method = .delete → after.deletedHlc.isSome = true

theorem stepKept {committed : CommittedUpdate Term} (wellFormed : committed.update.WellFormed)
    (keyed : ((readFields committed.update).map Prod.fst).Nodup) (result : Replay Term) :
    StepKept result (applyCommitted result committed) committed.update where
  put := by
    intro method
    simp only [applyCommitted, method]
    exact ⟨rfl, column_put wellFormed result⟩
  patch := by
    intro method
    simp only [applyCommitted, method]
    exact ⟨rfl, fun won field isColumn => column_winning wellFormed keyed won isColumn⟩
  delete := by
    intro method
    simp only [applyCommitted, method]
    rfl

theorem or_of_carried {update : Update Term} {field : String} {earlier stored after : Term}
    (kept : after = if ((readFields update).lookup field).isSome then carried update field
      else stored)
    (truthy : ((readFields update).lookup field).isSome →
      (carried update field).truthy = true)
    (either : ((readFields update).lookup field).isSome ∨ earlier = stored) :
    (carried update field).or earlier = after := by
  rw [kept]
  cases found : (readFields update).lookup field with
  | none =>
      rw [found] at either
      rw [carried, found, either.resolve_left nofun]
      rfl
  | some value =>
      rw [found] at truthy
      rw [Term.or_of_truthy (truthy rfl)]
      rfl

theorem truthy_of_carried {update : Update Term} {field : String} {stored after : Term}
    (kept : after = if ((readFields update).lookup field).isSome then carried update field
      else stored)
    (truthy : ((readFields update).lookup field).isSome →
      (carried update field).truthy = true)
    (either : ((readFields update).lookup field).isSome ∨ stored.truthy = true) :
    after.truthy = true := by
  rw [kept]
  split
  · next isCarried => exact truthy isCarried
  · next absent => exact either.resolve_left absent

section Steps

variable {update : Update Term} {before after : Replay Term}

section

variable (kept : StepKept before after update)
include kept

theorem patched_column (method : update.method = .patch) (won : wins before update = true)
    {field : String} (isColumn : field ∈ columns update.subjectType)
    (strict : field ∉ ["type", "field"]) {earlier : Term}
    (either : carriesAll update = true ∨ earlier = column before field) :
    (carried update field).or earlier = column after field := by
  have effect := (kept.patch method).2 won field isColumn
  apply or_of_carried effect.1 (fun isCarried => (effect.2 isCarried).resolve_right strict)
  apply either.imp_left
  intro all
  exact List.all_eq_true.mp all field isColumn

theorem patched_truthy (method : update.method = .patch) (won : wins before update = true)
    {field : String} (isColumn : field ∈ columns update.subjectType)
    (strict : field ∉ ["type", "field"])
    (either : carriesAll update = true ∨ (column before field).truthy = true) :
    (column after field).truthy = true := by
  have effect := (kept.patch method).2 won field isColumn
  apply truthy_of_carried effect.1 (fun isCarried => (effect.2 isCarried).resolve_right strict)
  apply either.imp_left
  intro all
  exact List.all_eq_true.mp all field isColumn

theorem member_step (type : update.subjectType = "groupMember")
    (put : update.method = .put → if namesEnds update then before.deletedHlc.isNone = true else
      keptFrom keptMember update.subjectId before = none)
    (patch : update.method = .patch → (carriesAll update = true ∨
      keptFrom keptMember update.subjectId before ≠ none) ∧ wins before update = true) :
    memberAfter (decoded update) (keptFrom keptMember update.subjectId before) =
      keptFrom keptMember update.subjectId after := by
  have method' : (decoded update).method = update.method := rfl
  have subject : (decoded update).subjectId = update.subjectId := rfl
  have afterRow : keptFrom keptMember update.subjectId after = _ := keptFrom_eq
  rw [afterRow, keptMember_row]
  cases method : update.method with
  | delete =>
      rw [if_pos (kept.delete method)]
      simp only [memberAfter, method', method]
  | put =>
      have effect := kept.put method
      have condition := put method
      simp only [memberAfter, method', method, patchedRow, Option.map_none, Option.getD_none,
        fieldOf_carried, subject, Term.or_null_eq_null]
      rw [effect.1, effect.2, effect.2, effect.2]
      have ends : namesEnds update = true ↔
          (carried update "actor_id").truthy = true ∧
            (carried update "group_id").truthy = true := by
        simp [namesEnds, type, columns]
      by_cases both : (carried update "actor_id").truthy = true ∧
          (carried update "group_id").truthy = true
      · rw [if_pos (ends.mpr both), Option.isNone_iff_eq_none] at condition
        rw [condition, if_pos both, Term.or_null_or_null, Term.or_null_of_truthy both.1,
          Term.or_null_of_truthy both.2]
        simp [both.1, both.2]
      · rw [if_neg fun names => both (ends.mp names)] at condition
        have dropped : (carried update "actor_id").truthy = false ∨
            (carried update "group_id").truthy = false := by
          simpa [or_iff_not_imp_left] using both
        rw [condition, if_neg both, if_pos dropped, ite_self]
  | patch =>
      have condition := patch method
      have isColumn : ∀ field ∈ ["actor_id", "group_id", "permissions"],
          field ∈ columns update.subjectType := by
        rw [type]
        exact fun _ member => member
      have actor := isColumn "actor_id" (by simp)
      have group := isColumn "group_id" (by simp)
      have permissions := isColumn "permissions" (by simp)
      rw [(kept.patch method).1]
      simp only [memberAfter, method', method, patchedRow, fieldOf_carried, subject]
      cases row : keptFrom keptMember update.subjectId before with
      | none =>
          have all := condition.1.resolve_right (fun stands => stands row)
          have actorTruthy := patched_truthy kept method condition.2 actor (by simp) (.inl all)
          have groupTruthy := patched_truthy kept method condition.2 group (by simp) (.inl all)
          simp only [Option.map_none, Option.getD_none]
          rw [patched_column kept method condition.2 actor (by simp) (.inl all),
            patched_column kept method condition.2 group (by simp) (.inl all),
            patched_column kept method condition.2 permissions (by simp) (.inl all)]
          simp [actorTruthy, groupTruthy, Term.ne_null_of_truthy]
      | some r =>
          rw [keptFrom_eq, keptMember_row] at row
          split at row
          · cases row
          · split at row
            · next ends =>
                have actorTruthy := patched_truthy kept method condition.2 actor (by simp)
                  (.inr ends.1)
                have groupTruthy := patched_truthy kept method condition.2 group (by simp)
                  (.inr ends.2)
                cases row
                simp only [Option.map_some, Option.getD_some, Term.or_or_null]
                rw [patched_column kept method condition.2 actor (by simp) (.inr rfl),
                  patched_column kept method condition.2 group (by simp) (.inr rfl),
                  patched_column kept method condition.2 permissions (by simp) (.inr rfl)]
                simp [actorTruthy, groupTruthy, Term.ne_null_of_truthy]
            · cases row

theorem membership_step (type : update.subjectType = "entityGroup")
    (put : update.method = .put → if namesEnds update then before.deletedHlc.isNone = true else
      keptFrom keptEntityGroup update.subjectId before = none)
    (patch : update.method = .patch → (carriesAll update = true ∨
      keptFrom keptEntityGroup update.subjectId before ≠ none) ∧ wins before update = true) :
    membershipAfter (decoded update) (keptFrom keptEntityGroup update.subjectId before) =
      keptFrom keptEntityGroup update.subjectId after := by
  have method' : (decoded update).method = update.method := rfl
  have subject : (decoded update).subjectId = update.subjectId := rfl
  have afterRow : keptFrom keptEntityGroup update.subjectId after = _ := keptFrom_eq
  rw [afterRow, keptEntityGroup_row]
  cases method : update.method with
  | delete =>
      rw [if_pos (kept.delete method)]
      simp only [membershipAfter, method', method]
  | put =>
      have effect := kept.put method
      have condition := put method
      simp only [membershipAfter, method', method, patchedRow, Option.map_none,
        Option.getD_none, fieldOf_carried, subject, Term.or_null_eq_null]
      rw [effect.1, effect.2, effect.2]
      have ends : namesEnds update = true ↔
          (carried update "entity_id").truthy = true ∧
            (carried update "group_id").truthy = true := by
        simp [namesEnds, type, columns]
      by_cases both : (carried update "entity_id").truthy = true ∧
          (carried update "group_id").truthy = true
      · rw [if_pos (ends.mpr both), Option.isNone_iff_eq_none] at condition
        rw [condition, if_pos both, Term.or_null_of_truthy both.1,
          Term.or_null_of_truthy both.2]
        simp [both.1, both.2]
      · rw [if_neg fun names => both (ends.mp names)] at condition
        have dropped : (carried update "entity_id").truthy = false ∨
            (carried update "group_id").truthy = false := by
          simpa [or_iff_not_imp_left] using both
        rw [condition, if_neg both, if_pos dropped, ite_self]
  | patch =>
      have condition := patch method
      have isColumn : ∀ field ∈ ["entity_id", "group_id"],
          field ∈ columns update.subjectType := by
        rw [type]
        exact fun _ member => member
      have entity := isColumn "entity_id" (by simp)
      have group := isColumn "group_id" (by simp)
      rw [(kept.patch method).1]
      simp only [membershipAfter, method', method, patchedRow, fieldOf_carried, subject]
      cases row : keptFrom keptEntityGroup update.subjectId before with
      | none =>
          have all := condition.1.resolve_right (fun stands => stands row)
          have entityTruthy := patched_truthy kept method condition.2 entity (by simp) (.inl all)
          have groupTruthy := patched_truthy kept method condition.2 group (by simp) (.inl all)
          simp only [Option.map_none, Option.getD_none]
          rw [patched_column kept method condition.2 entity (by simp) (.inl all),
            patched_column kept method condition.2 group (by simp) (.inl all)]
          simp [entityTruthy, groupTruthy, Term.ne_null_of_truthy]
      | some r =>
          rw [keptFrom_eq, keptEntityGroup_row] at row
          split at row
          · cases row
          · split at row
            · next ends =>
                have entityTruthy := patched_truthy kept method condition.2 entity (by simp)
                  (.inr ends.1)
                have groupTruthy := patched_truthy kept method condition.2 group (by simp)
                  (.inr ends.2)
                cases row
                simp only [Option.map_some, Option.getD_some]
                rw [patched_column kept method condition.2 entity (by simp) (.inr rfl),
                  patched_column kept method condition.2 group (by simp) (.inr rfl)]
                simp [entityTruthy, groupTruthy, Term.ne_null_of_truthy]
            · cases row

theorem relationship_step (type : update.subjectType = "relationship")
    (put : update.method = .put → if namesEnds update then before.deletedHlc.isNone = true else
      keptFrom keptRelationship update.subjectId before = none)
    (patch : update.method = .patch → carriesAll update = true ∧ wins before update = true) :
    relationshipAfter (decoded update) (keptFrom keptRelationship update.subjectId before) =
      keptFrom keptRelationship update.subjectId after := by
  have method' : (decoded update).method = update.method := rfl
  have subject : (decoded update).subjectId = update.subjectId := rfl
  have afterRow : keptFrom keptRelationship update.subjectId after = _ := keptFrom_eq
  rw [afterRow, keptRelationship_row]
  cases method : update.method with
  | delete =>
      rw [if_pos (kept.delete method)]
      simp only [relationshipAfter, method', method]
  | put =>
      have effect := kept.put method
      have condition := put method
      simp only [relationshipAfter, method', method, fieldOf_carried, subject]
      rw [effect.1, effect.2, effect.2, effect.2, effect.2]
      have ends : namesEnds update = true ↔
          (carried update "source_id").truthy = true ∧
            (carried update "target_id").truthy = true := by
        simp [namesEnds, type, columns]
      by_cases both : (carried update "source_id").truthy = true ∧
          (carried update "target_id").truthy = true
      · rw [if_pos (ends.mpr both), Option.isNone_iff_eq_none] at condition
        simp only [condition, if_pos both]
        rfl
      · rw [if_neg fun names => both (ends.mp names)] at condition
        rw [condition, if_neg both, ite_self]
  | patch =>
      have condition := patch method
      have carries : ∀ field ∈ ["source_id", "target_id", "type", "field"],
          column after field = carried update field := by
        intro field member
        have isColumn : field ∈ columns update.subjectType := by
          rw [type]
          exact member
        rw [((kept.patch method).2 condition.2 field isColumn).1, if_pos]
        exact List.all_eq_true.mp condition.1 field isColumn
      have isColumn : ∀ field ∈ ["source_id", "target_id"],
          field ∈ columns update.subjectType := by
        rw [type]
        intro field member
        exact List.mem_append_left ["type", "field"] member
      have sourceTruthy := patched_truthy kept method condition.2
        (isColumn "source_id" (by simp)) (by simp) (.inl condition.1)
      have targetTruthy := patched_truthy kept method condition.2
        (isColumn "target_id" (by simp)) (by simp) (.inl condition.1)
      rw [(kept.patch method).1]
      simp only [relationshipAfter, method', method, fieldOf_carried, subject]
      rw [← carries "source_id" (by simp), ← carries "target_id" (by simp),
        ← carries "type" (by simp), ← carries "field" (by simp)]
      simp [sourceTruthy, targetTruthy]

end

end Steps

/-! ## A whole log -/

theorem rowsOf_concat (updates : List (CommittedUpdate Term))
    (committed : CommittedUpdate Term) :
    rowsOf (updates ++ [committed]) = (rowsOf updates).after (decoded committed.update) := by
  rw [rowsOf, List.map_append, List.foldl_append]
  rfl

theorem replayOf_concat (updates : List (CommittedUpdate Term))
    (committed : CommittedUpdate Term) (id : String) :
    replayOf (updates ++ [committed]) id =
      if committed.update.subjectId = id then applyCommitted (replayOf updates id) committed
      else replayOf updates id := by
  rw [replayOf, List.filter_append]
  by_cases here : committed.update.subjectId = id
  · rw [if_pos here, List.filter_cons_of_pos (by simpa using here), List.filter_nil,
      List.foldl_append]
    rfl
  · rw [if_neg here, List.filter_cons_of_neg (by simpa using here), List.filter_nil,
      List.append_nil]
    rfl

/-- The live rows are the ones the replays give, in the table of their id's type. -/
structure Agrees (updates : List (CommittedUpdate Term)) : Prop where
  typed : ∀ committed ∈ updates,
    (rowsOf updates).types committed.update.subjectId = some committed.update.subjectType
  fresh : ∀ id, (rowsOf updates).types id = none → replayOf updates id = .initial []
  members : ∀ id, (rowsOf updates).members id =
    if (rowsOf updates).types id = some "groupMember" then
      keptFrom keptMember id (replayOf updates id)
    else none
  memberships : ∀ id, (rowsOf updates).memberships id =
    if (rowsOf updates).types id = some "entityGroup" then
      keptFrom keptEntityGroup id (replayOf updates id)
    else none
  relationships : ∀ id, (rowsOf updates).relationships id =
    if (rowsOf updates).types id = some "relationship" then
      keptFrom keptRelationship id (replayOf updates id)
    else none

theorem agrees_nil : Agrees [] where
  typed := nofun
  fresh _ _ := rfl
  members _ := rfl
  memberships _ := rfl
  relationships _ := rfl

theorem keptFrom_initial :
    keptFrom keptMember id (.initial []) = none ∧
      keptFrom keptEntityGroup id (.initial []) = none ∧
      keptFrom keptRelationship id (.initial []) = none := ⟨rfl, rfl, rfl⟩

section Run

variable {updates : List (CommittedUpdate Term)} {committed : CommittedUpdate Term}

theorem Agrees.before (agrees : Agrees updates)
    (order : inOrder updates committed.update = true) :
    ((rowsOf updates).types committed.update.subjectId = none ∨
        (rowsOf updates).types committed.update.subjectId = some committed.update.subjectType) ∧
      (committed.update.subjectType = "groupMember" →
        (rowsOf updates).members committed.update.subjectId =
          keptFrom keptMember committed.update.subjectId
            (replayOf updates committed.update.subjectId)) ∧
      (committed.update.subjectType = "entityGroup" →
        (rowsOf updates).memberships committed.update.subjectId =
          keptFrom keptEntityGroup committed.update.subjectId
            (replayOf updates committed.update.subjectId)) ∧
      (committed.update.subjectType = "relationship" →
        (rowsOf updates).relationships committed.update.subjectId =
          keptFrom keptRelationship committed.update.subjectId
            (replayOf updates committed.update.subjectId)) := by
  have initial := keptFrom_initial committed.update.subjectId
  have kind : (rowsOf updates).types committed.update.subjectId = none ∨
      (rowsOf updates).types committed.update.subjectId =
        some committed.update.subjectType := by
    rw [inOrder, Bool.and_eq_true] at order
    cases known : (rowsOf updates).types committed.update.subjectId with
    | none => exact .inl rfl
    | some type =>
        have same := ((Bool.and_eq_true _ _).mp order.1).2
        rw [known] at same
        exact .inr (congrArg some (of_decide_eq_true same))
  refine ⟨kind, ?_, ?_, ?_⟩
  · intro type
    rw [agrees.members]
    rcases kind with unknown | known
    · rw [unknown, agrees.fresh _ unknown, initial.1]
      rfl
    · rw [known, type, if_pos rfl]
  · intro type
    rw [agrees.memberships]
    rcases kind with unknown | known
    · rw [unknown, agrees.fresh _ unknown, initial.2.1]
      rfl
    · rw [known, type, if_pos rfl]
  · intro type
    rw [agrees.relationships]
    rcases kind with unknown | known
    · rw [unknown, agrees.fresh _ unknown, initial.2.2]
      rfl
    · rw [known, type, if_pos rfl]

theorem inOrder_system {before : List (CommittedUpdate Term)} {update : Update Term}
    (system : columns update.subjectType ≠ []) (order : inOrder before update = true) :
    (update.method = .put → if namesEnds update then
        (replayOf before update.subjectId).deletedHlc.isNone = true
      else stands (rowsOf before) update = false) ∧
      (update.method = .patch →
        (carriesAll update = true ∨
          (stands (rowsOf before) update = true ∧ update.subjectType ≠ "relationship")) ∧
        wins (replayOf before update.subjectId) update = true) := by
  rw [inOrder, Bool.and_eq_true] at order
  have condition := order.2
  rw [decide_eq_false system, Bool.false_or] at condition
  constructor
  · intro method
    simp only [method] at condition
    split at condition
    · next ends =>
        rw [if_pos ends]
        exact condition
    · next ends =>
        rw [if_neg ends]
        simpa using condition
  · intro method
    simp only [method, Bool.and_eq_true, Bool.or_eq_true, decide_eq_true_eq] at condition
    exact condition

theorem row_concat {α : Type} {row next stepped : Option α} {tableType : String}
    {kept : EntityRow Term → Option α} {id : String} {type : Option String}
    {result : Replay Term}
    (earlier : row = if type = some tableType then keptFrom kept id result else none)
    (after : next = if committed.update.subjectType = tableType ∧
      committed.update.subjectId = id then stepped else row)
    (step : committed.update.subjectType = tableType → committed.update.subjectId = id →
      stepped = keptFrom kept id (applyCommitted result committed))
    (kind : committed.update.subjectId = id →
      type = none ∨ type = some committed.update.subjectType) :
    next =
      if (if committed.update.subjectId = id then some committed.update.subjectType
          else type) = some tableType then
        keptFrom kept id (if committed.update.subjectId = id then applyCommitted result committed
          else result)
      else none := by
  rw [after]
  by_cases here : committed.update.subjectId = id
  · simp only [if_pos here]
    by_cases same : committed.update.subjectType = tableType
    · rw [if_pos ⟨same, here⟩, if_pos (congrArg some same), step same here]
    · have other : some committed.update.subjectType ≠ some tableType :=
        fun equal => same (Option.some.inj equal)
      rw [if_neg fun both => same both.1, if_neg other, earlier, if_neg]
      intro isTable
      rcases kind here with unknown | known
      · rw [unknown] at isTable
        cases isTable
      · exact other (known.symm.trans isTable)
  · simp only [if_neg here]
    rw [if_neg fun both => here both.2, earlier]

theorem agrees_concat (agrees : Agrees updates) (wellFormed : committed.update.WellFormed)
    (keyed : ((readFields committed.update).map Prod.fst).Nodup)
    (order : inOrder updates committed.update = true) : Agrees (updates ++ [committed]) := by
  have kept := stepKept wellFormed keyed (replayOf updates committed.update.subjectId)
  have before := agrees.before order
  have types : ∀ id, (rowsOf (updates ++ [committed])).types id =
      if committed.update.subjectId = id then some committed.update.subjectType
      else (rowsOf updates).types id := by
    intro id
    rw [rowsOf_concat]
    rfl
  constructor
  case typed =>
    intro other member
    rw [types]
    rcases List.mem_append.mp member with earlier | last
    · split
      · next same =>
          have known := agrees.typed other earlier
          rw [← same] at known
          rcases before.1 with unknown | kind
          · rw [unknown] at known
            cases known
          · rw [← kind, known]
      · exact agrees.typed other earlier
    · rw [List.mem_singleton.mp last, if_pos rfl]
  case fresh =>
    intro id unknown
    rw [types] at unknown
    split at unknown
    · cases unknown
    · next other =>
        rw [replayOf_concat, if_neg other]
        exact agrees.fresh id unknown
  case members =>
    intro id
    rw [types, replayOf_concat, rowsOf_concat]
    apply row_concat (agrees.members id) rfl
    · intro type subject
      subst subject
      have condition := inOrder_system (by rw [type]; exact nofun) order
      change memberAfter _ ((rowsOf updates).members _) = _
      rw [before.2.1 type]
      have absent : stands (rowsOf updates) committed.update =
          (keptFrom keptMember committed.update.subjectId
            (replayOf updates committed.update.subjectId)).isSome := by
        simp only [stands, type]
        rw [before.2.1 type]
      rw [absent] at condition
      exact member_step kept type (by simpa using condition.1)
        (fun method => by
          have patched := condition.2 method
          rw [Option.isSome_iff_ne_none] at patched
          exact ⟨patched.1.imp_right And.left, patched.2⟩)
    · intro subject
      subst subject
      exact before.1
  case memberships =>
    intro id
    rw [types, replayOf_concat, rowsOf_concat]
    apply row_concat (agrees.memberships id) rfl
    · intro type subject
      subst subject
      have condition := inOrder_system (by rw [type]; exact nofun) order
      change membershipAfter _ ((rowsOf updates).memberships _) = _
      rw [before.2.2.1 type]
      have absent : stands (rowsOf updates) committed.update =
          (keptFrom keptEntityGroup committed.update.subjectId
            (replayOf updates committed.update.subjectId)).isSome := by
        simp only [stands, type]
        rw [before.2.2.1 type]
      rw [absent] at condition
      exact membership_step kept type (by simpa using condition.1)
        (fun method => by
          have patched := condition.2 method
          rw [Option.isSome_iff_ne_none] at patched
          exact ⟨patched.1.imp_right And.left, patched.2⟩)
    · intro subject
      subst subject
      exact before.1
  case relationships =>
    intro id
    rw [types, replayOf_concat, rowsOf_concat]
    apply row_concat (agrees.relationships id) rfl
    · intro type subject
      subst subject
      have condition := inOrder_system (by rw [type]; exact nofun) order
      change relationshipAfter _ ((rowsOf updates).relationships _) = _
      rw [before.2.2.2 type]
      have absent : stands (rowsOf updates) committed.update =
          (keptFrom keptRelationship committed.update.subjectId
            (replayOf updates committed.update.subjectId)).isSome := by
        simp only [stands, type]
        rw [before.2.2.2 type]
      rw [absent] at condition
      exact relationship_step kept type (by simpa using condition.1)
        (fun method => by
          have patched := condition.2 method
          exact ⟨patched.1.resolve_right fun merged => merged.2 type, patched.2⟩)
    · intro subject
      subst subject
      exact before.1

theorem agrees_append {later : List (CommittedUpdate Term)} (agrees : Agrees updates)
    (wellFormed : ∀ committed ∈ later, committed.update.WellFormed)
    (keyed : ∀ committed ∈ later, ((readFields committed.update).map Prod.fst).Nodup)
    (order : allInOrder updates later = true) : Agrees (updates ++ later) := by
  induction later generalizing updates with
  | nil =>
      rw [List.append_nil]
      exact agrees
  | cons committed rest induction =>
      rw [allInOrder, Bool.and_eq_true] at order
      have next := agrees_concat agrees (wellFormed committed List.mem_cons_self)
        (keyed committed List.mem_cons_self) order.1
      have all := induction next (fun other member => wellFormed other (.tail _ member))
        (fun other member => keyed other (.tail _ member)) order.2
      rw [List.append_assoc] at all
      exact all

theorem exists_of_types {id type : String} (known : (rowsOf updates).types id = some type) :
    ∃ committed ∈ updates, committed.update.subjectId = id ∧
      committed.update.subjectType = type := by
  induction updates using List.reverseRecOn with
  | nil => cases known
  | append_singleton updates committed induction =>
      rw [rowsOf_concat] at known
      have read : (if committed.update.subjectId = id then some committed.update.subjectType
          else (rowsOf updates).types id) = some type := known
      split at read
      · next here =>
          exact ⟨committed, List.mem_append_right _ (List.mem_singleton_self _), here,
            Option.some.inj read⟩
      · rcases induction read with ⟨other, member, found⟩
        exact ⟨other, List.mem_append_left _ member, found⟩

end Run

/-! ## Memberships that go alone -/

theorem goesAlone_of {update : Update Term} {before : List (CommittedUpdate Term)}
    (agrees : Agrees before) (alone : goesAlone before update = true) :
    GoesAlone (rowsOf before).memberships
      ((rowsOf before).after (decoded update)).memberships := by
  intro id row stands changed other shared here files
  have own : update.subjectId = id := by
    by_contra different
    apply changed
    have kept : ((rowsOf before).after (decoded update)).memberships id =
        (rowsOf before).memberships id := if_neg fun both => different both.2
    rw [kept, stands]
  subst own
  simp only [goesAlone, stands, Bool.or_eq_true, decide_eq_true_eq, List.all_eq_true] at alone
  have known : (rowsOf before).types other = some "entityGroup" := by
    by_contra unknown
    rw [agrees.memberships, if_neg unknown] at here
    cases here
  rcases exists_of_types known with ⟨committed, member, named, _⟩
  rcases alone.resolve_left changed committed member with same | foreign
  · exact named.symm.trans same
  · rw [named, here, Option.all_some, decide_eq_true_eq] at foreign
    exact absurd files foreign

theorem allInOrder_split {start updates before after : List (CommittedUpdate Term)}
    {committed : CommittedUpdate Term} (order : allInOrder start updates = true)
    (split : updates = before ++ committed :: after) :
    allInOrder start before = true ∧ inOrder (start ++ before) committed.update = true := by
  induction before generalizing start updates with
  | nil =>
      rw [split, List.nil_append, allInOrder, Bool.and_eq_true] at order
      rw [List.append_nil]
      exact ⟨rfl, order.1⟩
  | cons head before induction =>
      rw [split, List.cons_append, allInOrder, Bool.and_eq_true] at order
      have rest := induction order.2 rfl
      rw [List.append_assoc] at rest
      rw [allInOrder, Bool.and_eq_true]
      exact ⟨⟨order.1, rest.1⟩, rest.2⟩

theorem allAlone_of_order {updates : List (CommittedUpdate Term)}
    (wellFormed : ∀ committed ∈ updates, committed.update.WellFormed)
    (keyed : ∀ committed ∈ updates, ((readFields committed.update).map Prod.fst).Nodup)
    (order : allInOrder [] updates = true) :
    AllAlone Rows.after SystemCaches.empty.rows
      (updates.map fun committed => decoded committed.update) := by
  intro before update after split
  rcases List.map_eq_append_iff.mp split with ⟨earlier, later, same, here, tail⟩
  rcases List.map_eq_cons_iff.mp tail with ⟨committed, rest, cons, isUpdate, _⟩
  rw [cons] at same
  have ordered := allInOrder_split order same
  have inside : ∀ other ∈ earlier, other ∈ updates :=
    fun other member => same ▸ List.mem_append_left _ member
  have agrees := agrees_append agrees_nil
    (fun other member => wellFormed other (inside other member))
    (fun other member => keyed other (inside other member)) ordered.1
  rw [← here, ← isUpdate]
  apply goesAlone_of agrees
  have both := ordered.2
  rw [inOrder, Bool.and_eq_true, Bool.and_eq_true] at both
  exact both.1.1

/-! ## Both sides of a log -/

theorem mem_committedUpdates {committed : CommittedUpdate Term}
    (member : committed ∈ committedUpdates actions) :
    ∃ action ∈ actions, committed.update ∈ action.updates := by
  rcases List.mem_flatMap.mp member with ⟨action, inActions, inside⟩
  rcases List.mem_map.mp inside with ⟨update, inUpdates, same⟩
  exact ⟨action, inActions, same ▸ inUpdates⟩

theorem updates_of_committed {update : Update Term} :
    update ∈ actions.flatMap (·.updates) ↔
      ∃ committed ∈ committedUpdates actions, committed.update = update := by
  rw [List.mem_flatMap]
  constructor
  · intro found
    rcases found with ⟨action, inActions, inUpdates⟩
    exact ⟨_, List.mem_flatMap.mpr ⟨action, inActions, List.mem_map.mpr ⟨update, inUpdates, rfl⟩⟩,
      rfl⟩
  · intro found
    rcases found with ⟨committed, member, same⟩
    rw [← same]
    exact mem_committedUpdates member

theorem entityUpdates_eq (actions : List (Action Term)) (id : String) :
    entityUpdates actions id =
      (committedUpdates actions).filter fun committed => committed.update.subjectId = id := by
  rw [entityUpdates, committedUpdates, List.filter_flatMap]
  congr 1
  funext action
  rw [Action.updatesOf, List.filter_map]
  rfl

theorem coldMaterialize_kept {α : Type} {kept : EntityRow Term → Option α}
    (log : CommittedLog Term) (id : String)
    (none : keptFrom kept id (.initial []) = none) :
    (coldMaterialize log id).bind kept =
      keptFrom kept id (replayOf (committedUpdates log.actions) id) := by
  have replayed : replayOf (committedUpdates log.actions) id =
      replay [] (log.actions.filter fun action => action.touches id) id := by
    rw [replay_eq_foldl, entityUpdates_filter_touches, entityUpdates_eq, replayOf]
  rw [coldMaterialize, relevantActions_eq_filter log.positive, replayed]
  cases log.actions.filter fun action => action.touches id with
  | nil => exact none.symm
  | cons action rest => rfl

theorem readable_decoded (update : Update Term) :
    readable (dataOrEmpty (decoded update).data) = true := by
  rw [decoded]
  cases update.data with
  | none => rfl
  | some fields => rfl

theorem rows_liveCaches (actions : List (Action Term)) :
    ∃ caches, actions.foldlM applyAction .empty = .ok caches ∧
      caches.rows = rowsOf (committedUpdates actions) := by
  induction actions using List.reverseRecOn with
  | nil => exact ⟨.empty, rfl, rfl⟩
  | append_singleton actions action induction =>
      rcases induction with ⟨caches, run, rows⟩
      have reads : ∀ update ∈ action.updates.map decoded,
          readable (dataOrEmpty update.data) = true := by
        intro update member
        rcases List.mem_map.mp member with ⟨raw, _, same⟩
        rw [← same]
        exact readable_decoded raw
      rcases @plan_ok caches _ reads .empty with ⟨planned, plans⟩
      refine ⟨applyCacheMutations caches planned.1, ?_, ?_⟩
      · rw [List.foldlM_append, run]
        change (applyAction caches action >>= pure) = _
        rw [applyAction, plans]
        rfl
      · have split : committedUpdates (actions ++ [action]) =
            committedUpdates actions ++ committedUpdates [action] := List.flatMap_append
        have here : (committedUpdates [action]).map (fun committed => decoded committed.update) =
            action.updates.map decoded := by
          simp [committedUpdates]
        rw [rows_plan plans, rows, split, rowsOf, rowsOf, List.map_append, List.foldl_append,
          here]

theorem filesPairs_live {caches : SystemCaches}
    (alone : AllAlone Rows.after SystemCaches.empty.rows
      ((committedUpdates actions).map fun committed => decoded committed.update))
    (run : actions.foldlM applyAction .empty = .ok caches) :
    caches.entityGroups.FilesPairs := by
  induction actions using List.reverseRecOn generalizing caches with
  | nil =>
      cases run
      exact EntityGroupCache.filesPairs_empty
  | append_singleton actions action induction =>
      rcases rows_liveCaches actions with ⟨before, runBefore, rows⟩
      rw [List.foldlM_append] at run
      rcases bind_eq_ok.mp run with ⟨_, same, step⟩
      cases runBefore.symm.trans same
      rw [List.foldlM_cons] at step
      rcases bind_eq_ok.mp step with ⟨next, step, finished⟩
      cases finished
      rcases bind_eq_ok.mp step with ⟨planned, plans, applied⟩
      cases applied
      rw [show committedUpdates (actions ++ [action]) =
        committedUpdates actions ++ committedUpdates [action] from List.flatMap_append,
        List.map_append] at alone
      have here := alone.rest
      rw [← rowsOf, ← rows] at here
      apply filesPairs_plan (induction alone.first runBefore) _ plans
      rw [committedUpdates, List.flatMap_singleton, List.map_map] at here
      exact here

/-- A row is put once, or again as it is: no pair is lost. -/
theorem filesPairs_populateType {log : CommittedLog Term} {caches : SystemCaches}
    (files : caches.entityGroups.FilesPairs)
    (known : ∀ id, caches.rows.memberships id = none ∨
      caches.rows.memberships id = (coldMaterialize log id).bind keptEntityGroup) :
    (populateType "entityGroup" log putEntityGroup caches).entityGroups.FilesPairs := by
  rw [populateType]
  generalize (typeEntities log).filter (fun entry => entry.1 = "entityGroup") = entries
  induction entries generalizing caches with
  | nil => exact files
  | cons entry rest induction =>
      rw [List.foldl_cons]
      cases live : coldMaterialize log entry.2 with
      | none => exact induction files known
      | some entity =>
          have named := coldMaterialize_id live
          have after := getEntityGroup_inserted caches entity
          apply induction
          · apply EntityGroupCache.filesPairs_put files
            intro id row stands changed
            exfalso
            apply changed
            have before : caches.rows.memberships id = some row := stands
            have stored := (known id).resolve_left (by
              rw [before]
              exact Option.some_ne_none row)
            refine (after id).trans ?_
            rw [before] at stored ⊢
            split
            · next same =>
                rw [same, named, live, Option.bind_some] at stored
                rw [← stored]
                rfl
            · rfl
          · intro id
            rw [after]
            split
            · next same =>
                have read : (coldMaterialize log id).bind keptEntityGroup =
                    keptEntityGroup entity := by
                  rw [same, named, live, Option.bind_some]
                rw [read]
                have before := known id
                rw [read] at before
                cases kept : keptEntityGroup entity with
                | some row => exact .inr rfl
                | none =>
                    rw [kept] at before
                    exact before
            · exact known id

theorem filesPairs_populated (log : CommittedLog Term) :
    (populateSystemCaches log).entityGroups.FilesPairs := by
  have earlier : (populateType "groupMember" log putGroupMember
      (populateEntityTypes log .empty)).entityGroups = EntityGroupCache.empty := by
    rw [populateType_frame SystemCaches.entityGroups]
    · rfl
    · exact fun _ _ => rfl
  rw [populateSystemCaches, populateType_frame SystemCaches.entityGroups]
  · apply filesPairs_populateType
    · rw [earlier]
      exact EntityGroupCache.filesPairs_empty
    · intro id
      apply Or.inl
      change EntityGroupCache.getEntityGroup (populateType "groupMember" log putGroupMember
        (populateEntityTypes log .empty)).entityGroups id = none
      rw [earlier]
      rfl
  · exact fun _ _ => rfl

/-- The tables of a log whose Updates are all in order are the ones a restart
rebuilds. -/
theorem live_eq_populated {log : CommittedLog Term}
    (order : allInOrder [] (committedUpdates log.actions) = true) :
    ∃ caches, liveCaches log = .ok caches ∧ SameTables caches (populateSystemCaches log) := by
  rcases rows_liveCaches log.actions with ⟨caches, run, rows⟩
  refine ⟨caches, run, ?_⟩
  have wellFormed : ∀ committed ∈ committedUpdates log.actions, committed.update.WellFormed := by
    intro committed member
    rcases mem_committedUpdates member with ⟨action, inActions, inUpdates⟩
    exact log.wellFormed action inActions _ inUpdates
  have keyed : ∀ committed ∈ committedUpdates log.actions,
      ((readFields committed.update).map Prod.fst).Nodup := by
    intro committed member
    rcases mem_committedUpdates member with ⟨action, inActions, inUpdates⟩
    exact (log.keyed action inActions _ inUpdates).1
  have agrees : Agrees (committedUpdates log.actions) :=
    agrees_append agrees_nil wellFormed keyed order
  apply sameTables_of_rows _ (filesPairs_live (allAlone_of_order wellFormed keyed order) run)
    (filesPairs_populated log)
  have keys : ∀ type id, (type, id) ∈ typeEntities log ↔
      (rowsOf (committedUpdates log.actions)).types id = some type := by
    intro type id
    rw [mem_typeEntities]
    constructor
    · intro found
      rcases found with ⟨update, member, isType, isId⟩
      rcases updates_of_committed.mp member with ⟨committed, inside, same⟩
      have typed := agrees.typed committed inside
      rw [same, isId, isType] at typed
      exact typed
    · intro known
      rcases exists_of_types known with ⟨committed, inside, isId, isType⟩
      exact ⟨committed.update, updates_of_committed.mpr ⟨committed, inside, rfl⟩, isType, isId⟩
  have initial := keptFrom_initial
  rw [rows]
  ext id : 2
  · rw [members_populated, agrees.members, coldMaterialize_kept _ id (initial id).1]
    simp only [keys]
  · rw [memberships_populated, agrees.memberships, coldMaterialize_kept _ id (initial id).2.1]
    simp only [keys]
  · rw [relationships_populated, agrees.relationships,
      coldMaterialize_kept _ id (initial id).2.2]
    simp only [keys]
  · rw [types_populated]
    cases known : (rowsOf (committedUpdates log.actions)).types id with
    | none =>
        symm
        rw [lastSome_eq_none]
        intro entry member
        split
        · next same =>
            have typed := (keys entry.1 entry.2).mp member
            rw [same, known] at typed
            cases typed
        · rfl
    | some type =>
        cases last : lastSome (fun entry : String × String =>
            if entry.2 = id then some entry.1 else none) (typeEntities log) with
        | none =>
            rw [lastSome_eq_none] at last
            have absent := last (type, id) ((keys type id).mpr known)
            rw [if_pos rfl] at absent
            cases absent
        | some other =>
            rcases exists_of_lastSome last with ⟨entry, member, names⟩
            split at names
            · next same =>
                have typed := (keys entry.1 entry.2).mp member
                rw [same, known] at typed
                rw [typed]
                exact names
            · cases names

/-- A field of the member row, written by one Update. -/
def memberField (updateId : String) (clock : HLCTimestamp) (field : String) (value : Term) :
    String × FieldValue Term :=
  (field, .leaf { value, updateId, hlc := some clock })

/-- The actor `a` joins the group `g`. -/
def joinUpdate : Update Term where
  id := "upd_join"
  subjectId := "r"
  subjectType := "groupMember"
  method := .put
  data := some [memberField "upd_join" 5 "actor_id" (.string "a"),
    memberField "upd_join" 5 "group_id" (.string "g"),
    memberField "upd_join" 5 "permissions" (.list [.string "task.*"])]

/-- A patch that takes all permissions away, at a clock of its own. -/
def revokeUpdate (clock : HLCTimestamp) : Update Term where
  id := "upd_revoke"
  subjectId := "r"
  subjectType := "groupMember"
  method := .patch
  data := some [memberField "upd_revoke" clock "permissions" (.list [])]

def revokeLog (clock : HLCTimestamp) : CommittedLog Term where
  actions :=
    [{ id := "act_join", actorId := "b", hlc := 5, gsn := 1, updates := [joinUpdate] },
      { id := "act_revoke", actorId := "b", hlc := clock, gsn := 2,
        updates := [revokeUpdate clock] }]
  positive := by simp
  ordered := by simp
  wellFormed := by
    have join : isNanoId "upd_join" = true := by decide
    have revoke : isNanoId "upd_revoke" = true := by decide
    simp [Update.WellFormed, readFields, joinUpdate, revokeUpdate, memberField,
      fieldsWellFormed, FieldValue.WellFormed, join, revoke]
  keyed := by
    simp [readFields, joinUpdate, revokeUpdate, memberField, FieldValue.Keyed, fieldsKeyed]

theorem revoked_after_restart :
    allInOrder [] (committedUpdates (revokeLog 6).actions) = true ∧
      ∃ caches, liveCaches (revokeLog 6) = .ok caches ∧
        SameTables caches (populateSystemCaches (revokeLog 6)) :=
  ⟨rfl, live_eq_populated rfl⟩

/-- A revocation that a clock behind wrote holds until the next restart. -/
theorem restored_after_restart :
    ¬ ∀ (log : CommittedLog Term) (caches : SystemCaches),
      liveCaches log = .ok caches → SameTables caches (populateSystemCaches log) := by
  intro same
  have row := (same (revokeLog 3) _ rfl).groupMembersById "r"
  have restored : (populateSystemCaches (revokeLog 3)).groups.groupMembersById.get? "r" =
      some ⟨"r", .string "g", .string "a", .list [.string "task.*"]⟩ := rfl
  rw [restored] at row
  have revoked : some (⟨"r", .string "g", .string "a", .list []⟩ : GroupMember) =
      some ⟨"r", .string "g", .string "a", .list [.string "task.*"]⟩ := row
  exact absurd revoked (by decide)

/-- The entity `e` is filed under the group `g`. -/
def filesUpdate (id subjectId : String) : Update Term where
  id := id
  subjectId := subjectId
  subjectType := "entityGroup"
  method := .put
  data := some [memberField id 5 "entity_id" (.string "e"),
    memberField id 5 "group_id" (.string "g")]

/-- Two rows file one pair and the first of them goes. -/
def sharedPairLog : CommittedLog Term where
  actions :=
    [{ id := "act_files", actorId := "b", hlc := 5, gsn := 1,
        updates := [filesUpdate "upd_a" "m"] },
      { id := "act_swaps", actorId := "b", hlc := 6, gsn := 2,
        updates := [filesUpdate "upd_b" "n",
          { id := "upd_c", subjectId := "m", subjectType := "entityGroup", method := .delete,
            data := none }] }]
  positive := by simp
  ordered := by simp
  wellFormed := by
    have first : isNanoId "upd_a" = true := by decide
    have second : isNanoId "upd_b" = true := by decide
    simp [Update.WellFormed, readFields, filesUpdate, memberField,
      fieldsWellFormed, FieldValue.WellFormed, first, second]
  keyed := by
    simp [readFields, filesUpdate, memberField, FieldValue.Keyed, fieldsKeyed]

/-- The running server's table by group has lost the pair of a row that still stands. -/
theorem pair_lost_until_restart : ∃ caches, liveCaches sharedPairLog = .ok caches ∧
    ¬ SameTables caches (populateSystemCaches sharedPairLog) := by
  refine ⟨_, rfl, ?_⟩
  intro same
  have pair := same.entityGroupsByGroup (.string "g", .string "e")
  exact absurd (pair.mpr (by decide)) (by decide)

end SystemCache

end Ebb.Access
