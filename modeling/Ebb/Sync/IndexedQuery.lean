import Ebb.Sync.QueryAgreement
import Ebb.Sync.QueryOrder

namespace Ebb.Sync

/-! Queries that the indices of a live replica answer, against a walk over all its rows. -/

open Storage (Entity LiveReplica ReplicaOptions reverseIndexKey membershipIndexKey)

/-! ## Without an index -/

section Rows

variable (options : ReplicaOptions JsonValue) (replica : LiveReplica JsonValue)

/-- A row of the replica is an edge of the source under the key. -/
def Edge (key sourceId : String) : Prop :=
  ∃ edge entry, replica.viewOf edge.id = some edge ∧
    Storage.indexEntryFor options.asString edge = some entry ∧
      entry.key = key ∧ entry.value = sourceId

def PlanPredicate.Holds (row : Entity JsonValue) : PlanPredicate → Prop
  | .filter field value => matchesFieldValue (fieldEntry row field) value = true
  | .adjacency as type anyOf =>
      ∃ targetId ∈ anyOf.getD [], Edge options replica (reverseIndexKey as type targetId) row.id
  | .membership anyOf =>
      ∃ groupId ∈ anyOf.getD [], Edge options replica (membershipIndexKey groupId) row.id

/-- The live rows of the source; of groups with predicates, one holds. -/
def Asked (query : Query) (row : Entity JsonValue) : Prop :=
  (replica.viewOf row.id = some row ∧ row.type = query.source) ∧ isLive row = true ∧
    ((∀ group ∈ query.groups, group = []) ∨ ∃ group ∈ query.groups, group ≠ [] ∧
      ∀ predicate ∈ group, (toPlanPredicate predicate).Holds options replica row)

end Rows

/-- Rows in the order of a query, as far as its limit. -/
def arrange (collation : Collation) (resolveField : FieldResolver JsonValue) (query : Query)
    (rows : List (Entity JsonValue)) : List (Entity JsonValue) :=
  let sorted := rows.mergeSort fun left right =>
    decide (rowOrder collation resolveField (query.order.map QueryOrder.field)
      ((query.order.map QueryOrder.direction).getD .asc) left right ≤ 0)
  match query.limit with
  | some limit => if 0 ≤ limit then sorted.take limit.toNat else sorted
  | none => sorted

/-! ## One group -/

theorem mem_foldl_filter (rest : List (List String)) (head : List String) (id : String) :
    id ∈ rest.foldl (fun ids next => ids.filter fun id => id ∈ next) head ↔
      id ∈ head ∧ ∀ next ∈ rest, id ∈ next := by
  induction rest generalizing head with
  | nil => simp
  | cons next rest induction =>
      rw [List.foldl_cons, induction]
      simp [and_assoc]

theorem foldl_passes (predicates : List PlanPredicate) (rows : List (Entity JsonValue)) :
    predicates.foldl (fun rows predicate => rows.filter (passes predicate)) rows =
      rows.filter fun row => predicates.all fun predicate => passes predicate row := by
  induction predicates generalizing rows with
  | nil => simp
  | cons predicate rest induction =>
      rw [List.foldl_cons, induction, List.filter_filter]
      congr 1
      funext row
      rw [List.all_cons, Bool.and_comm]

section Replica

variable {options : ReplicaOptions JsonValue} {replica : LiveReplica JsonValue}
  (adjacent : LiveReplica.Adjacent options replica)
  (named : ∀ id, LiveReplica.Named id (replica.viewOf id))

include adjacent named

theorem mem_liveSourceIds (key sourceId : String) :
    sourceId ∈ liveSourceIds (replica.reverseIndex.get? key) ↔
      Edge options replica key sourceId := by
  have indexed : ∀ rowId, (replica.reverseIndex.get? key).bind (fun rows => rows.get? rowId) =
      some sourceId ↔ _ := fun rowId => adjacent.reverse rowId key sourceId
  rw [liveSourceIds, List.mem_mergeSort]
  constructor
  · intro member
    cases found : replica.reverseIndex.get? key with
    | none => simp [found] at member
    | some rows =>
        rw [found] at member
        rcases List.mem_map.mp (List.mem_eraseDups.mp member) with ⟨⟨rowId, value⟩, held, rfl⟩
        rw [found] at indexed
        rcases (indexed rowId).mp ((rows.get?_eq_some_iff rowId value).mpr held) with
          ⟨entry, filed, keyed, valued⟩
        rcases Option.bind_eq_some_iff.mp filed with ⟨edge, seen, filed⟩
        exact ⟨edge, entry, named rowId edge seen ▸ seen, filed, keyed, valued⟩
  · rintro ⟨edge, entry, seen, filed, keyed, valued⟩
    have here := (indexed edge.id).mpr ⟨entry, by rw [seen]; exact filed, keyed, valued⟩
    rcases Option.bind_eq_some_iff.mp here with ⟨rows, found, held⟩
    rw [found]
    exact List.mem_eraseDups.mpr (List.mem_map.mpr ⟨_, (rows.get?_eq_some_iff _ _).mp held, rfl⟩)

theorem holds_iff (predicate : PlanPredicate) (row : Entity JsonValue) :
    predicate.Holds options replica row ↔ passes predicate row = true ∧
      (predicate.isIndexed = true →
        row.id ∈ predicateHits (createReplicaExecutor replica) predicate) := by
  have hits := mem_liveSourceIds adjacent named
  cases predicate <;> simp [PlanPredicate.Holds, PlanPredicate.isIndexed, predicateHits, indexHits,
    passes, createReplicaExecutor, hits]

theorem mem_selectGroup (predicates : List PlanPredicate) (type : String)
    (row : Entity JsonValue) :
    row ∈ selectGroup (createReplicaExecutor replica) predicates type
        ((replica.iterate type).filter isLive) ↔
      row ∈ (replica.iterate type).filter isLive ∧
        ∀ predicate ∈ predicates, predicate.Holds options replica row := by
  have filters : (∀ predicate ∈ predicates.filter (fun predicate => !predicate.isIndexed),
      passes predicate row = true) ↔ ∀ predicate ∈ predicates, passes predicate row = true := by
    constructor
    · intro all predicate member
      cases predicate with
      | filter field value => exact all _ (List.mem_filter.mpr ⟨member, rfl⟩)
      | adjacency as type anyOf => rfl
      | membership anyOf => rfl
    · exact fun all predicate member => all predicate (List.mem_filter.mp member).1
  rw [selectGroup, foldl_passes, List.mem_filter, List.all_eq_true, filters]
  simp only [holds_iff adjacent named, forall_and]
  rw [and_comm (b := ∀ predicate ∈ predicates, predicate.isIndexed = true → _), ← and_assoc]
  refine and_congr_left fun _ => ?_
  cases indexed : predicates.filter PlanPredicate.isIndexed with
  | nil =>
      refine (and_iff_left fun predicate member hits => ?_).symm
      exact absurd hits (List.filter_eq_nil_iff.mp indexed predicate member)
  | cons head rest =>
      have hits : row.id ∈ intersectHits (createReplicaExecutor replica) (head :: rest) ↔
          ∀ predicate ∈ predicates, predicate.isIndexed = true →
            row.id ∈ predicateHits (createReplicaExecutor replica) predicate := by
        rw [intersectHits, List.map_cons]
        dsimp only
        rw [mem_foldl_filter, List.forall_mem_map]
        rw [← @List.forall_mem_cons _ (fun predicate =>
          row.id ∈ predicateHits (createReplicaExecutor replica) predicate)]
        rw [← indexed]
        simp only [List.mem_filter, and_imp]
      rw [← hits, rowsForIds, if_neg (by simp), List.mem_filterMap, List.mem_filter,
        adjacent.iterated]
      simp only [Option.filter_eq_some_iff, Bool.and_eq_true, decide_eq_true_eq]
      constructor
      · rintro ⟨id, member, found, typed, live⟩
        rw [named id row found]
        exact ⟨⟨⟨found, typed⟩, live⟩, member⟩
      · rintro ⟨⟨⟨found, typed⟩, live⟩, member⟩
        exact ⟨row.id, member, found, typed, live⟩

/-! ## The plan -/

variable {type : String} {state : Execution} {chosen : Entity JsonValue → Prop}
  (collation : Collation) (resolveField : FieldResolver JsonValue)

theorem selecting_select (predicates : List PlanPredicate) (source : state.sourceType = type)
    (collects : Collects ((replica.iterate type).filter isLive) state.selected chosen) :
    Selecting (createReplicaExecutor replica) type
      (executeOp (createReplicaExecutor replica) collation resolveField state (.select predicates))
      fun row => chosen row ∨
        ∀ predicate ∈ predicates, predicate.Holds options replica row where
  source := source
  selecting := rfl
  narrowed := rfl
  collects := by
    have distinct : (((replica.iterate type).filter isLive).map Entity.id).Nodup :=
      (adjacent.once type).sublist (List.filter_sublist.map Entity.id)
    have selects := mem_selectGroup adjacent named predicates type
    have added := collects.foldl_addSelected distinct fun row member => ((selects row).mp member).1
    intro id row
    rw [executeOp, scanned, source]
    refine (added id row).trans (and_congr_right fun member => ?_)
    dsimp only
    rw [selects, and_iff_right member]

theorem Selecting.selects {groups : List (List PlanPredicate)}
    (selecting : Selecting (createReplicaExecutor replica) type state chosen) :
    Selecting (createReplicaExecutor replica) type
      ((groups.map PlanOp.select).foldl
        (executeOp (createReplicaExecutor replica) collation resolveField) state)
      fun row => chosen row ∨
        ∃ group ∈ groups, ∀ predicate ∈ group, predicate.Holds options replica row := by
  induction groups generalizing state chosen with
  | nil => simpa using selecting
  | cons group rest induction =>
      have one := selecting_select adjacent named collation resolveField group selecting.source
        selecting.collects
      simpa only [List.map_cons, List.foldl_cons, List.mem_cons, exists_eq_or_imp,
        or_assoc] using induction one

omit adjacent named in
theorem Selecting.nodup_current (executor : PlanExecutor)
    (selecting : Selecting executor type state chosen) :
    ((current executor state).map Entity.id).Nodup := by
  have keys : (state.selected.entries.map Prod.snd).map Entity.id =
      state.selected.entries.map Prod.fst := by
    rw [List.map_map]
    apply List.map_congr_left
    intro entry member
    exact ((selecting.collects _ _).mp ((state.selected.get?_eq_some_iff _ _).mpr member)).2.1
  rw [current, selecting.narrowed, selecting.selecting]
  dsimp only
  rw [if_pos rfl, keys]
  exact state.selected.nodup

end Replica

/-- The plan predicates of the groups that have some. -/
def plannedGroups (query : Query) : List (List PlanPredicate) :=
  (query.groups.filter fun group => !group.isEmpty).map fun group =>
    orderPredicates (group.map toPlanPredicate)

/-- A scan of the source before any group. -/
def scanning (query : Query) : Execution where
  sourceType := query.source
  selecting := false
  selected := .empty
  narrowed := none

theorem executePlan_planQuery (executor : PlanExecutor) (collation : Collation)
    (resolveField : FieldResolver JsonValue) (query : Query) :
    executePlan executor collation resolveField (planQuery query) =
      arrange collation resolveField query (current executor
        (((plannedGroups query).map PlanOp.select).foldl
          (executeOp executor collation resolveField) (scanning query))) := by
  rw [executePlan, planQuery, arrange, plannedGroups, List.map_map]
  dsimp only
  rw [List.foldl_append, List.foldl_append, List.singleton_append, List.foldl_cons]
  cases query.limit with
  | none => rfl
  | some limit =>
      dsimp only
      split
      · rfl
      · rfl

theorem exists_plannedGroups (query : Query) (holds : PlanPredicate → Prop) :
    (∃ group ∈ plannedGroups query, ∀ predicate ∈ group, holds predicate) ↔
      ∃ group ∈ query.groups, group ≠ [] ∧
        ∀ predicate ∈ group, holds (toPlanPredicate predicate) := by
  have ordered : ∀ (predicates : List PlanPredicate) predicate,
      predicate ∈ orderPredicates predicates ↔ predicate ∈ predicates := by
    intro predicates predicate
    rw [orderPredicates, List.mem_append, List.mem_filter, List.mem_filter]
    cases predicate.isIndexed <;> simp
  simp [plannedGroups, ordered, and_assoc]

/-- In every run of a replica, a query by its indices gives what a walk over all rows gives:
the rows it asks for, each once, in its order and as far as its limit. -/
theorem executePlan_of_run {options : ReplicaOptions JsonValue}
    {events : List (LiveReplica.Event JsonValue)} {final : LiveReplica JsonValue}
    (brings : ∀ event ∈ events, event.Brings (fun _ => True))
    (orderly : (LiveReplica.machine options).Meets
      (fun replica event => event.Orderly options replica) .empty events)
    (reached : (LiveReplica.machine options).run .empty events = some final)
    (collation : Collation) (resolveField : FieldResolver JsonValue) (query : Query) :
    ∃ rows, (rows.map Entity.id).Nodup ∧ (∀ row, row ∈ rows ↔ Asked options final query row) ∧
      executePlan (createReplicaExecutor final) collation resolveField (planQuery query) =
        arrange collation resolveField query rows := by
  have preserved : ∀ (state : LiveReplica JsonValue) event next,
      (state.Kept (fun _ => True) ∧ state.Typed ∧ state.Indexed options) →
      (event.Orderly options state ∧ event.Brings (fun _ => True)) →
        (LiveReplica.machine options).step state event = some next →
          next.Kept (fun _ => True) ∧ next.Typed ∧ next.Indexed options := by
    rintro state event next ⟨kept, typed, indexed⟩ ⟨here, brings⟩ stepped
    exact ⟨LiveReplica.kept_step (fun _ _ _ _ => trivial) kept brings stepped,
      LiveReplica.typed_indexed_step (fun _ _ _ _ => trivial) typed indexed kept brings here stepped⟩
  have whole := Machine.run_preserves preserved
    ⟨LiveReplica.kept_empty, LiveReplica.typed_empty, LiveReplica.indexed_empty⟩
    (Machine.meets_and orderly brings) reached
  have adjacent : LiveReplica.Adjacent options final := .of_parts whole.1 whole.2.1 whole.2.2
  have named := whole.1.named
  have unplanned : plannedGroups query = [] ↔ ∀ group ∈ query.groups, group = [] := by
    simp [plannedGroups]
  have plan := executePlan_planQuery (createReplicaExecutor final) collation resolveField query
  cases planned : plannedGroups query with
  | nil =>
      rw [planned] at plan
      refine ⟨_, (adjacent.once query.source).sublist (List.filter_sublist.map Entity.id),
        fun row => ?_, plan⟩
      rw [List.mem_filter, adjacent.iterated, Asked]
      exact and_congr_right fun _ => (and_iff_left (.inl (unplanned.mp planned))).symm
  | cons group rest =>
      have nothing : Collects ((final.iterate query.source).filter isLive)
          (scanning query).selected fun _ => False := by
        intro id row
        simp [scanning]
      have first := @selecting_select _ _ adjacent named query.source _ _ collation resolveField
        group rfl nothing
      have groups := @Selecting.selects _ _ adjacent named _ _ _ collation resolveField rest first
      rw [planned] at plan
      refine ⟨_, groups.nodup_current _, fun row => ?_, plan⟩
      have filled : ¬ ∀ group ∈ query.groups, group = [] := by
        rw [← unplanned, planned]
        exact List.cons_ne_nil group rest
      rw [groups.mem_current, Asked, ← exists_plannedGroups query, planned, or_iff_right filled,
        ← adjacent.iterated]
      simp [createReplicaExecutor]

def heldRows : ReplicaOptions JsonValue where
  holds := fun _ => true
  journalCapacity := some 1024
  pinnedCapacity := some 64
  pinnedTtl := true
  readEntity := false
  asString := fun value => (some (byUnits.display (.json value))).filter fun text => value = .text text
  journalPositive := Storage.journalPositive_default
  pinnedPositive := Storage.pinnedPositive_default

def membershipField (name value : String) : String × FieldValue JsonValue :=
  (name, .leaf { value := .text value, updateId := "upd_2", hlc := some 20 })

/-- The row `todo_1` joins the group `g`. -/
def joinGroup : Action JsonValue where
  id := "act_2"
  actorId := "usr_1"
  hlc := 20
  gsn := 2
  updates := [{
    id := "upd_2"
    subjectId := "eg_1"
    subjectType := "entityGroup"
    method := .put
    data := some [membershipField "entity_id" "todo_1", membershipField "group_id" "g"] }]

def groupedTodo : LiveReplica JsonValue :=
  (LiveReplica.empty.load heldRows
    { format := 1, position := 1, revision := 0, entities := [doneTodo] }).ingest heldRows joinGroup
      joinGroup.updates 2

def groupQuery : Query := { emptyQuery "todo" with groups := [[.membership (some ["g"])]] }

/-- The row is found by its edge in the index. -/
theorem executePlan_groupedTodo :
    (executePlan (createReplicaExecutor groupedTodo) byLength (fieldValue .json)
        (planQuery groupQuery)).map Entity.id = ["todo_1"] ∧
      ∃ rows, (rows.map Entity.id).Nodup ∧
        (∀ row, row ∈ rows ↔ Asked heldRows groupedTodo groupQuery row) ∧
          executePlan (createReplicaExecutor groupedTodo) byLength (fieldValue .json)
            (planQuery groupQuery) = arrange byLength (fieldValue .json) groupQuery rows := by
  refine ⟨by decide +kernel, ?_⟩
  apply @executePlan_of_run heldRows [.load _, .ingest joinGroup joinGroup.updates 2] groupedTodo
    ?_ ?_ rfl
  · intro event member
    rcases List.mem_cons.mp member with rfl | last
    · exact fun _ _ => trivial
    · rw [List.mem_singleton.mp last]
      exact fun _ _ => trivial
  · refine ⟨List.nodup_singleton _, fun next loaded => ⟨?_, fun _ _ => trivial⟩⟩
    cases loaded
    exact fun _ _ _ _ _ _ _ _ => .inl rfl

end Ebb.Sync
